import FlatFile.Config.Layer
import FlatFile.Toml.Document

/-!
# Hosts

What loading settings takes from outside the file tree: where the user's file is, how files in the
registered formats read, and in which order things are gone through that have none of their own.
Those are the formats, when a file is looked for, and the fields of a table, when it is laid over
another one.

Formats are told apart by the extensions of their files.  TOML is read here; how the others are
read is left to the host.
-/

namespace FlatFile.Config

/-- A registered format: the extension of its files and how their text reads. -/
structure Format where
  extension : String
  read : String → Option Layer

/-- Reads a TOML document. -/
def ofDocument? (s : String) : Option Layer := (Toml.parse? s).map Value.ofFields

/-- The format that settings are saved in. -/
def Format.toml : Format := ⟨"toml", ofDocument?⟩

/-- The extensions of the registered formats. -/
def extensions : List String := ["toml", "json", "yaml", "yml", "ini", "ron", "json5"]

/-! ## The order of fields -/

section Order
variable (order : List (String × Value) → List (String × Value))

mutual

/-- A value with the fields of its tables in the order in which they are gone through. -/
def Value.arrange : Value → Value
  | .table fields => .table (order (arrangeFields fields))
  | v => v

/-- Fields with their values arranged. -/
def Value.arrangeFields : List (String × Value) → List (String × Value)
  | [] => []
  | (name, v) :: rest => (name, v.arrange) :: arrangeFields rest

end

/-- A layer in the order in which its keys are gone through. -/
def Layer.arrange (l : Layer) : Layer := order (Value.arrangeFields order l)

end Order

/-- What loading settings takes from outside the file tree. -/
structure Host where
  /-- The user's file, if the system has a directory for it. -/
  userFile : Option String
  /-- The registered formats, in the order in which they are tried. -/
  formats : List Format
  /-- The order in which the fields of a table are gone through. -/
  order : List (String × Value) → List (String × Value)
  registered : (formats.map Format.extension).Perm extensions
  reads_toml : Format.toml ∈ formats
  order_perm : ∀ fields, (order fields).Perm fields

/-- A host that tries the formats as they are listed and goes through tables as they are written,
with readers for the formats other than TOML. -/
def Host.listed (userFile : Option String) (read : String → String → Option Layer) : Host where
  userFile := userFile
  formats := extensions.map fun e => if e = "toml" then .toml else ⟨e, read e⟩
  order := id
  registered := .of_eq rfl
  reads_toml := List.mem_cons_self
  order_perm := .refl

end FlatFile.Config
