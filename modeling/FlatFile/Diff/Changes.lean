import FlatFile.Diff.Compact
import FlatFile.Text.Lines

/-!
# Line diffs

The changes from one text to another, line by line.  Between two kept stretches all lines that go
come before all lines that come.  A diff prints the lines that go with `-` and those that come with
`+`, and ends each with a newline.
-/

namespace FlatFile.Diff

variable {α : Type} [DecidableEq α]

/-- A change of one element. -/
inductive Change (α : Type) where
  | keep (a : α)
  | remove (a : α)
  | add (a : α)
  deriving DecidableEq, Repr

/-- The changes of a script; `gone` and `added` wait for the end of the stretch. -/
def changesFrom (gone added : List α) : List (Block α) → List (Change α)
  | [] => gone.map .remove ++ added.map .add
  | .equal xs :: rest =>
    gone.map .remove ++ added.map .add ++ xs.map .keep ++ changesFrom [] [] rest
  | .delete xs :: rest => changesFrom (gone ++ xs) added rest
  | .insert xs :: rest => changesFrom gone (added ++ xs) rest

/-- The changes from one sequence to another. -/
def changes (old new : List α) : List (Change α) :=
  changesFrom [] [] (compact (script old new))

/-- A line with its sign, ended by a newline. -/
def signed (sign : Char) (line : List Char) : List Char :=
  sign :: line ++ if line.getLast? = some '\n' then [] else ['\n']

/-- How a change of a line is printed. -/
def Change.print : Change (List Char) → List Char
  | .keep _ => []
  | .remove line => signed '-' line
  | .add line => signed '+' line

/-- The diff from one text to another. -/
def lineDiff (old new : String) : String :=
  String.ofList
    ((changes (Text.keepLines old.toList) (Text.keepLines new.toList)).flatMap Change.print)

end FlatFile.Diff
