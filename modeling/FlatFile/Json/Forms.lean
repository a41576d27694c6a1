import FlatFile.Config.Settings
import FlatFile.Diagnostic
import FlatFile.Digest.Checksum
import FlatFile.Json.Value
import FlatFile.Target.Builtin

/-!
# JSON forms

How settings, diagnostics and checksums are written as JSON and read back.  A structure is an object
with its fields in order, `null` for a missing optional one.  It is read from an object, where
fields that are not known are passed over and none of its own may stand twice, or from an array of
its values in order; a field with a default may be missing, and an optional one may be `null`.  A
choice is a text, or an object with its name as the only field and `null` as its value.
-/

namespace FlatFile.Json

/-- A text. -/
def text? : Json → Option String
  | .str s => some s
  | _ => none

/-- A list of texts. -/
def texts? : Json → Option (List String)
  | .arr items => items.mapM text?
  | _ => none

/-- A line number: a natural number below `2 ^ 64`. -/
def lineNumber? : Json → Option Nat
  | .num n => if 0 ≤ n ∧ n < 18446744073709551616 then some n.toNat else none
  | _ => none

/-- One of several choices, by name. -/
def choice? {α : Type} (choices : List α) (name : α → String) : Json → Option α
  | .str s => choices.find? fun a => name a == s
  | .obj [(s, .null)] => choices.find? fun a => name a == s
  | _ => none

/-- The values of a structure by name, or by place.  An object may not give one of them twice, and
an array may not have too many. -/
def structure? (names : List String) : Json → Option (List (Option Json))
  | .obj fields =>
    if names.all fun n => (fields.map Prod.fst).count n ≤ 1 then
      some (names.map fun n => fields.lookup n)
    else none
  | .arr items =>
    if items.length ≤ names.length then
      some ((List.range names.length).map fun i => items[i]?)
    else none
  | _ => none

/-- A value that must be there. -/
def required {α : Type} (read : Json → Option α) : Option Json → Option α
  | none => none
  | some v => read v

/-- A value that may be missing. -/
def orDefault {α : Type} (read : Json → Option α) (default : α) : Option Json → Option α
  | none => some default
  | some v => read v

/-- A value that need not be given. -/
def optional {α : Type} (read : Json → Option α) : Option Json → Option (Option α)
  | none | some .null => some none
  | some v => (read v).map some

/-- An optional value. -/
def ofOption {α : Type} (write : α → Json) : Option α → Json
  | none => .null
  | some a => write a

/-- A list of texts as an array. -/
def ofTexts (ss : List String) : Json := .arr (ss.map .str)

end FlatFile.Json

namespace FlatFile

open Json

namespace Language

/-- The language as JSON. -/
def toJson (l : Language) : Json := .str l.name

/-- The language of a JSON value. -/
def ofJson? (j : Json) : Option Language := choice? all name j

end Language

namespace ArtifactKind

/-- The kind as JSON. -/
def toJson (k : ArtifactKind) : Json := .str k.name

/-- The kind of a JSON value. -/
def ofJson? (j : Json) : Option ArtifactKind := choice? all name j

end ArtifactKind

namespace NamingRules

/-- The rules as JSON. -/
def toJson (r : NamingRules) : Json :=
  .obj [("extra_reserved", ofTexts r.extraReserved),
    ("reserved_override", ofOption ofTexts r.reservedOverride)]

/-- The rules of a JSON value. -/
def ofJson? (j : Json) : Option NamingRules :=
  match structure? ["extra_reserved", "reserved_override"] j with
  | some [extra, override] => do
    let extra ← orDefault texts? [] extra
    let override ← optional texts? override
    pure ⟨extra, override⟩
  | _ => none

end NamingRules

namespace Profile

/-- The profile as JSON. -/
def toJson (p : Profile) : Json :=
  .obj [("language", p.language.toJson), ("package", .str p.package),
    ("record_name", .str p.recordName), ("parser_name", .str p.parserName),
    ("template_dir", ofOption .str p.templateDir)]

/-- The profile of a JSON value. -/
def ofJson? (j : Json) : Option Profile :=
  match structure? ["language", "package", "record_name", "parser_name", "template_dir"] j with
  | some [language, package, recordName, parserName, templateDir] => do
    let d : Profile := {}
    let language ← orDefault Language.ofJson? d.language language
    let package ← orDefault text? d.package package
    let recordName ← orDefault text? d.recordName recordName
    let parserName ← orDefault text? d.parserName parserName
    let templateDir ← optional text? templateDir
    pure ⟨language, package, recordName, parserName, templateDir⟩
  | _ => none

end Profile

namespace OutputRules

/-- The rules as JSON. -/
def toJson (o : OutputRules) : Json :=
  .obj [("dir", .str o.dir), ("record_file", ofOption .str o.recordFile),
    ("parser_file", ofOption .str o.parserFile)]

/-- The rules of a JSON value. -/
def ofJson? (j : Json) : Option OutputRules :=
  match structure? ["dir", "record_file", "parser_file"] j with
  | some [dir, recordFile, parserFile] => do
    let d : OutputRules := {}
    let dir ← orDefault text? d.dir dir
    let recordFile ← optional text? recordFile
    let parserFile ← optional text? parserFile
    pure ⟨dir, recordFile, parserFile⟩
  | _ => none

end OutputRules

namespace Settings

/-- The settings as JSON. -/
def toJson (s : Settings) : Json :=
  .obj [("render", s.render.toJson), ("naming", s.naming.toJson), ("output", s.output.toJson)]

/-- The settings of a JSON value. -/
def ofJson? (j : Json) : Option Settings :=
  match structure? ["render", "naming", "output"] j with
  | some [render, naming, output] => do
    let render ← orDefault Profile.ofJson? {} render
    let naming ← orDefault NamingRules.ofJson? {} naming
    let output ← orDefault OutputRules.ofJson? {} output
    pure ⟨render, naming, output⟩
  | _ => none

end Settings

namespace Schema.ReservedWords

/-- The words as JSON. -/
def toJson (r : ReservedWords) : Json := ofTexts r.words

/-- The words of a JSON value. -/
def ofJson? (j : Json) : Option ReservedWords := (texts? j).map ofList

end Schema.ReservedWords

namespace DiagnosticCode

/-- The kind of finding as JSON. -/
def toJson (c : DiagnosticCode) : Json := .str c.name

/-- The kind of finding of a JSON value. -/
def ofJson? (j : Json) : Option DiagnosticCode := choice? all name j

end DiagnosticCode

namespace Diagnostic

/-- The finding as JSON. -/
def toJson (d : Diagnostic) : Json :=
  .obj [("line", .num d.line), ("code", d.code.toJson), ("message", .str d.message)]

/-- The finding of a JSON value. -/
def ofJson? (j : Json) : Option Diagnostic :=
  match structure? ["line", "code", "message"] j with
  | some [line, code, message] => do
    let line ← required lineNumber? line
    let code ← required DiagnosticCode.ofJson? code
    let message ← required text? message
    pure ⟨line, code, message⟩
  | _ => none

end Diagnostic

namespace Diagnostics

/-- The findings as JSON. -/
def toJson (ds : Diagnostics) : Json := .obj [("items", .arr (ds.items.map Diagnostic.toJson))]

/-- The list of findings of a JSON value. -/
def items? : Json → Option (List Diagnostic)
  | .arr items => items.mapM Diagnostic.ofJson?
  | _ => none

/-- The findings of a JSON value. -/
def ofJson? (j : Json) : Option Diagnostics :=
  match structure? ["items"] j with
  | some [items] => (required items? items).map Diagnostics.mk
  | _ => none

end Diagnostics

namespace Checksum

/-- The checksum as JSON. -/
def toJson (c : Checksum) : Json := .str c.text

/-- The checksum of a JSON value. -/
def ofJson? (j : Json) : Option Checksum := (text? j).map Checksum.mk

end Checksum

end FlatFile
