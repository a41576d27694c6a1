import FlatFile.Text.Blank
import FlatFile.Text.Letter

/-!
# Identifiers from labels

A label becomes an identifier in four steps: its words are joined in camel case, characters other
than ASCII letters, digits and underscores are dropped, leading digits are dropped, and the first
character goes to lower case.  A label that leaves nothing but underscores has no identifier.
-/

namespace FlatFile.Schema

open Text

/-- A word with the case of its first character changed by `form`. -/
def recase (form : Char → List Char) : List Char → List Char
  | [] => []
  | c :: rest => form c ++ rest

/-- The words in camel case: the first starts in lower case, the others in upper case. -/
def camelWords : List (List Char) → List Char
  | [] => []
  | w :: ws => recase lowerForm w ++ ws.flatMap (recase upperForm)

/-- A label in camel case, with blanks as its only word boundaries. -/
def camelCase (label : List Char) : List Char := camelWords (words label)

/-- A text with its first character in lower case. -/
def uncapitalize : List Char → List Char
  | [] => []
  | c :: rest => c.toLower :: rest

/-- What is left of a camel-cased label once nothing but word characters, led by no digit, may
stay. -/
def wordPart (camel : List Char) : List Char := (camel.filter isWordChar).dropWhile isDigit

/-- The characters of a label's identifier; `none` when nothing but underscores is left of it. -/
def identifierChars? (label : List Char) : Option (List Char) :=
  let part := wordPart (camelCase label)
  if part.all (· == '_') then none else some (uncapitalize part)

/-- The identifier of a label. -/
def identifier? (label : String) : Option String :=
  (identifierChars? label.toList).map String.ofList

/-- The name of a column whose label has no identifier. -/
def fallbackName : String := "unknown"

/-- The name of a label: its identifier, or else the fallback. -/
def nameOf (label : String) : String := (identifier? label).getD fallbackName

example : identifierChars? "Remaining Balance".toList = some "remainingBalance".toList := by decide

example : identifierChars? "1_ _".toList = none := by decide

end FlatFile.Schema
