import FlatFile.Diagnostic
import FlatFile.Event
import FlatFile.Layout
import FlatFile.Text.Blank
import FlatFile.Text.Lines

/-!
# Reading data lines

A data line is read with a layout when it has exactly the layout's length in characters; each column
then gives one field, without its outer blanks.  Every other line is skipped with a diagnostic.
-/

namespace FlatFile

/-- A data line that was read: its fields in column order. -/
structure Record where
  fields : List (String × String) := []
  deriving DecidableEq, Repr

namespace Record

/-- The value of a field. -/
def get? (r : Record) (name : String) : Option String :=
  (r.fields.find? fun f => f.1 == name).map (·.2)

/-- The record as a JSON object on one line. -/
def toJson (r : Record) : String :=
  (Json.obj (r.fields.map fun f => (f.1, .str f.2))).compact

end Record

/-- The characters of a column in a line, without the outer blanks. -/
def Column.slice (c : Column) (line : List Char) : List Char :=
  Text.trim ((line.drop c.offset).take c.width)

/-- Reads a data line; `none` when it does not have the layout's length. -/
def Layout.read? (l : Layout) (line : String) : Option Record :=
  if line.toList.length = l.lineLength then
    some ⟨l.columns.map fun c => (c.name, String.ofList (c.slice line.toList))⟩
  else none

/-- What came of reading several lines. -/
structure Reading where
  records : List Record := []
  diagnostics : Diagnostics := {}
  deriving DecidableEq, Repr

namespace Reading

/-- The report that line `n` was skipped. -/
def skippedEvent (n : Nat) (line : String) : Event :=
  { level := .warn
    message := Diagnostic.malformedMessage line
    fields := [("line", .number n)] }

/-- Takes line `n` in: its record is kept, or it is skipped with a report and a finding. -/
def take (l : Layout) (r : Reading) (n : Nat) (line : String) : Traced Reading :=
  match l.read? line with
  | some record => ⟨{ r with records := r.records ++ [record] }, []⟩
  | none =>
    ⟨{ r with diagnostics := r.diagnostics.push (.malformed n line) }, [skippedEvent n line]⟩

/-- Takes the lines from number `n` on in, one after the other. -/
def takeFrom (l : Layout) (r : Reading) (n : Nat) : List String → Traced Reading
  | [] => ⟨r, []⟩
  | line :: rest => (take l r n line).andThen fun r' => takeFrom l r' (n + 1) rest

/-- Reads lines one by one. -/
def ofLines (l : Layout) (lines : List String) : Traced Reading := takeFrom l {} 1 lines

/-- Reads the lines of a text. -/
def ofText (l : Layout) (data : String) : Traced Reading := ofLines l (Text.lines data)

end Reading

end FlatFile
