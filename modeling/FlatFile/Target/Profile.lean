import FlatFile.Target.Language

/-!
# Profiles

A profile says how artifacts look: the language, the package, the names of the two types and where
the templates are.  `NamingRules` says which words columns may not be named after.
-/

namespace FlatFile

open Schema

/-- Which words columns may not be named after. -/
structure NamingRules where
  /-- Words reserved beside the others. -/
  extraReserved : List String := []
  /-- The words that stand in for the language's keywords. -/
  reservedOverride : Option (List String) := none
  deriving DecidableEq, Repr

/-- The words that the rules reserve for a language. -/
def NamingRules.reservedWords (r : NamingRules) (l : Language) : ReservedWords :=
  (match r.reservedOverride with
    | some words => ReservedWords.ofList words
    | none => l.reservedWords).extend r.extraReserved

/-- How artifacts look. -/
structure Profile where
  language : Language := .kotlin
  /-- The package they declare; an empty one is not declared. -/
  package : String := "org.example"
  /-- The name of the record type. -/
  recordName : String := "Record"
  /-- The name of the parser type. -/
  parserName : String := "FixedLengthParser"
  /-- The directory of the templates; the built-in ones when there is none. -/
  templateDir : Option String := none
  deriving DecidableEq, Repr

namespace Profile

/-- A capital letter in snake case, with an underscore before it unless it comes first. -/
def snakeChar (isFirst : Bool) (c : Char) : List Char :=
  if c.isUpper then (if isFirst then [c.toLower] else ['_', c.toLower]) else [c]

/-- A type name in snake case: `FixedLengthParser` becomes `fixed_length_parser`. -/
def snakeCase : List Char → List Char
  | [] => []
  | c :: rest => snakeChar true c ++ rest.flatMap (snakeChar false)

/-- The base name of the file of a type. -/
def baseName (l : Language) (typeName : String) : String :=
  match l with
  | .rust => String.ofList (snakeCase typeName.toList)
  | .kotlin | .java => typeName

/-- The name of the file of a type. -/
def fileName (p : Profile) (typeName : String) : String :=
  baseName p.language typeName ++ "." ++ p.language.extension

/-- The name of the file of the record type. -/
def recordFile (p : Profile) : String := p.fileName p.recordName

/-- The name of the file of the parser type. -/
def parserFile (p : Profile) : String := p.fileName p.parserName

end Profile

end FlatFile
