import FlatFile.Target.Profile
import FlatFile.Toml.Writer

/-!
# Settings

What a user can configure: how artifacts look, which words are reserved, and where artifacts go.
`Settings.save` writes them as a TOML document of three sections.
-/

namespace FlatFile

/-- Where artifacts go. -/
structure OutputRules where
  dir : String := "."
  /-- The name of the record file, in place of the one of the profile. -/
  recordFile : Option String := none
  /-- The name of the parser file, in place of the one of the profile. -/
  parserFile : Option String := none
  deriving DecidableEq, Repr

/-- What a user can configure. -/
structure Settings where
  render : Profile := {}
  naming : NamingRules := {}
  output : OutputRules := {}
  deriving DecidableEq, Repr

namespace Settings

/-- The settings with another language. -/
def withLanguage (s : Settings) (l : Language) : Settings :=
  { s with render := { s.render with language := l } }

/-- The words that are reserved. -/
def reservedWords (s : Settings) : Schema.ReservedWords :=
  s.naming.reservedWords s.render.language

/-- The name of the record file. -/
def recordFile (s : Settings) : String := s.output.recordFile.getD s.render.recordFile

/-- The name of the parser file. -/
def parserFile (s : Settings) : String := s.output.parserFile.getD s.render.parserFile

/-- An assignment that is left out when there is no value. -/
def optionalLine (name : String) (value : Option String) : String :=
  match value with
  | none => ""
  | some v => Toml.line name v

/-- The settings as a TOML document. -/
def save (s : Settings) : String :=
  "[render]\n"
    ++ Toml.line "language" (Toml.quote s.render.language.name)
    ++ Toml.line "package" (Toml.quote s.render.package)
    ++ Toml.line "record_name" (Toml.quote s.render.recordName)
    ++ Toml.line "parser_name" (Toml.quote s.render.parserName)
    ++ optionalLine "template_dir" (s.render.templateDir.map Toml.quote)
    ++ "\n[naming]\n"
    ++ Toml.line "extra_reserved" (Toml.quoteList s.naming.extraReserved)
    ++ optionalLine "reserved_override" (s.naming.reservedOverride.map Toml.quoteList)
    ++ "\n[output]\n"
    ++ Toml.line "dir" (Toml.quote s.output.dir)
    ++ optionalLine "record_file" (s.output.recordFile.map Toml.quote)
    ++ optionalLine "parser_file" (s.output.parserFile.map Toml.quote)

end Settings

end FlatFile
