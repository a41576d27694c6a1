import FlatFile.Config.Decode
import FlatFile.Config.Host
import FlatFile.Files.Tree

/-!
# Loading settings

Settings come from files in fixed places, from the user's file, from a file that is named, and from
the environment, each laid over the ones before it.  A file in a fixed place may be missing; a file
that is named may not.  All sources are read and laid over each other before any value is looked at.
-/

namespace FlatFile.Config

/-- Why settings cannot be loaded. -/
inductive LoadError where
  /-- A file that is named is missing, no text, or of no registered format by its name. -/
  | unavailable
  /-- A file is no document of its format. -/
  | malformed
  /-- A value has the wrong type. -/
  | illTyped
  deriving DecidableEq, Repr

/-- The error in words. -/
def LoadError.message : LoadError → String
  | unavailable => "the configuration file cannot be read"
  | malformed => "a configuration file is not a document of its format"
  | illTyped => "a configuration value has the wrong type"

/-- The fixed places, relative to the working directory. -/
def places : List String := ["fwgen.toml", ".fwgen.toml", "config/fwgen.toml"]

/-- The file of a format that has a name but for the extension. -/
def extended? (t : FileTree) (name : String) (f : Format) : Option (String × Format) :=
  ((Path.withExtension? f.extension name).filter t.isFile).map fun file => (file, f)

/-- The file that a name stands for, and its format: the file itself, or else the first one with an
extension of a registered format added. -/
def fileNamed? (h : Host) (t : FileTree) (name : String) : Option (String × Format) :=
  if t.isFile name then
    (h.formats.find? fun f => Path.hasExtension f.extension name).map fun f => (name, f)
  else h.formats.findSome? (extended? t name)

/-- The text of the file that a name stands for, and its format. -/
def source? (h : Host) (t : FileTree) (name : String) : Option (String × Format) :=
  match fileNamed? h t name with
  | none => none
  | some (file, f) =>
    match t.readText file with
    | .ok s => some (s, f)
    | .error _ => none

/-- The layer of a text in a format. -/
def ofSource (h : Host) (source : String × Format) : Except LoadError Layer :=
  match source.2.read source.1 with
  | none => .error .malformed
  | some l => .ok (l.arrange h.order)

/-- The layer of a file that may be missing. -/
def optionalLayer (h : Host) (t : FileTree) (name : String) : Except LoadError Layer :=
  match source? h t name with
  | none => .ok []
  | some source => ofSource h source

/-- The layer of a file that must be there. -/
def requiredLayer (h : Host) (t : FileTree) (name : String) : Except LoadError Layer :=
  match source? h t name with
  | none => .error .unavailable
  | some source => ofSource h source

/-- The layer of the user's file, which is looked at when there is anything in its place. -/
def userLayer (h : Host) (t : FileTree) : Except LoadError Layer :=
  match h.userFile with
  | none => .ok []
  | some file => if t.present file then optionalLayer h t file else .ok []

/-- All layers, the first one lowest. -/
def layers (h : Host) (t : FileTree) (env : Environment) (named : Option String) :
    Except LoadError (List Layer) := do
  let fixed ← places.mapM (optionalLayer h t)
  let user ← userLayer h t
  let extra ← match named with
    | none => pure []
    | some name => do
      let layer ← requiredLayer h t name
      pure [layer]
  pure (fixed ++ [user] ++ extra ++ [(ofEnvironment env).arrange h.order])

/-- The configuration that layers make. -/
def configuration (ls : List Layer) : Value := ls.foldl lay (.table [])

/-- Loads the settings. -/
def load (h : Host) (t : FileTree) (env : Environment) (named : Option String) :
    Except LoadError Settings :=
  match layers h t env named with
  | .error e => .error e
  | .ok ls =>
    match settings? (configuration ls) with
    | none => .error .illTyped
    | some s => .ok s

end FlatFile.Config
