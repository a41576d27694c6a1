import FlatFile.Binary64.Text
import FlatFile.Config.Settings
import FlatFile.Config.Value

/-!
# Settings from values

The settings that a configuration describes.  A text may also be given as a number or a boolean; a
list must be a list; a language is named in any case, or is the only name in a table.  A section is
a table, or a list of its values in order; what is missing has its default.  A gap in a list is not
missing: it is no value, which only settings that need not be given may have.
-/

namespace FlatFile.Config

/-- A text. -/
def text? : Value → Option String
  | .text s => some s
  | .integer i => some (toString i)
  | .float x => some x.text
  | .boolean b => some (if b then "true" else "false")
  | _ => none

/-- A list of texts. -/
def texts? : Value → Option (List String)
  | .list items => items.mapM (·.bind text?)
  | _ => none

/-- The language of a name, in any case. -/
def languageNamed? (s : String) : Option Language :=
  Language.all.find? fun l => l.name == Text.lower s

/-- A language. -/
def language? : Value → Option Language
  | .text s => languageNamed? s
  | .table [(name, _)] => languageNamed? name
  | _ => none

/-- A value of a section: `none` when it is missing, `some none` for a gap. -/
abbrev Entry := Option (Option Value)

/-- The values of a section by name, or by place. -/
def sectionValues? (names : List String) : Value → Option (List Entry)
  | .table fields => some (names.map fun n => (fields.lookup n).map some)
  | .list items => some ((List.range names.length).map fun i => items[i]?)
  | _ => none

/-- A value that may be missing. -/
def orDefault {α : Type} (read : Value → Option α) (default : α) : Entry → Option α
  | none => some default
  | some none => none
  | some (some v) => read v

/-- A value that need not be given. -/
def optional {α : Type} (read : Value → Option α) : Entry → Option (Option α)
  | none | some none => some none
  | some (some v) => (read v).map some

/-- The section that says how artifacts look. -/
def profile? (v : Value) : Option Profile :=
  match sectionValues? ["language", "package", "record_name", "parser_name", "template_dir"] v with
  | some [language, package, recordName, parserName, templateDir] => do
    let d : Profile := {}
    let language ← orDefault language? d.language language
    let package ← orDefault text? d.package package
    let recordName ← orDefault text? d.recordName recordName
    let parserName ← orDefault text? d.parserName parserName
    let templateDir ← optional text? templateDir
    pure ⟨language, package, recordName, parserName, templateDir⟩
  | _ => none

/-- The section that says which words are reserved. -/
def naming? (v : Value) : Option NamingRules :=
  match sectionValues? ["extra_reserved", "reserved_override"] v with
  | some [extra, override] => do
    let extra ← orDefault texts? [] extra
    let override ← optional texts? override
    pure ⟨extra, override⟩
  | _ => none

/-- The section that says where artifacts go. -/
def output? (v : Value) : Option OutputRules :=
  match sectionValues? ["dir", "record_file", "parser_file"] v with
  | some [dir, recordFile, parserFile] => do
    let d : OutputRules := {}
    let dir ← orDefault text? d.dir dir
    let recordFile ← optional text? recordFile
    let parserFile ← optional text? parserFile
    pure ⟨dir, recordFile, parserFile⟩
  | _ => none

/-- The settings of a configuration. -/
def settings? (v : Value) : Option Settings :=
  match sectionValues? ["render", "naming", "output"] v with
  | some [render, naming, output] => do
    let render ← orDefault profile? {} render
    let naming ← orDefault naming? {} naming
    let output ← orDefault output? {} output
    pure ⟨render, naming, output⟩
  | _ => none

end FlatFile.Config
