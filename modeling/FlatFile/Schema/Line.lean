import FlatFile.Text.Blank
import FlatFile.Text.Letter

/-!
# Schema lines and their tokens

A schema line names a column and its two positions, `first name 1 10`.  Since a label may hold
spaces, a line is cut only at a **boundary**: a space right after a character that is not blank and
right before a digit.  A well-formed line has three tokens; any other number is a fault that
`Cursor.check` reports.
-/

namespace FlatFile.Schema

open Text

/-- Whether a text starts with a digit. -/
def startsWithDigit : List Char → Bool
  | [] => false
  | c :: _ => isDigit c

/-- Cuts a text at its boundaries; `solid` says whether a character that is not blank stands right
before the text. -/
def tokensFrom (solid : Bool) : List Char → List (List Char)
  | [] => [[]]
  | c :: rest =>
    if c = ' ' ∧ solid ∧ startsWithDigit rest then [] :: tokensFrom false rest
    else match tokensFrom (!isBlank c) rest with
      | [] => [[c]]
      | t :: ts => (c :: t) :: ts

/-- The tokens of a schema line; there is always at least one. -/
def tokens (line : String) : List String :=
  (tokensFrom false line.toList).map String.ofList

example : tokensFrom false "first name 1 10".toList
    = ["first name".toList, "1".toList, "10".toList] := by decide

end FlatFile.Schema
