import FlatFile.Json.Printer

/-!
# Layouts

A layout is the ordered list of the columns of a data line.  Positions count characters from one
and include both ends, so `name 1 20` covers the first twenty characters; a column that starts at
zero reads from the first character as well.
-/

namespace FlatFile

/-- A named range of character positions. -/
structure Column where
  name : String
  /-- The first position, counted from one. -/
  first : Nat
  /-- The last position. -/
  last : Nat
  deriving DecidableEq, Repr

namespace Column

/-- The number of characters before the column. -/
def offset (c : Column) : Nat := c.first - 1

/-- The number of characters in the column. -/
def width (c : Column) : Nat := c.last - c.offset

/-- The column as JSON. -/
def toJson (c : Column) : Json :=
  .obj [("name", .str c.name), ("start", .num c.first), ("end", .num c.last)]

end Column

/-- The columns of a data line, in order. -/
structure Layout where
  columns : List Column := []
  deriving DecidableEq, Repr

namespace Layout

/-- The column of a name. -/
def get? (l : Layout) (name : String) : Option Column :=
  l.columns.find? fun c => c.name == name

/-- The length a data line must have: the end of the last column. -/
def lineLength (l : Layout) : Nat :=
  match l.columns.getLast? with
  | none => 0
  | some c => c.last

/-- The layout as JSON. -/
def toJson (l : Layout) : Json := .obj [("columns", .arr (l.columns.map Column.toJson))]

end Layout

end FlatFile
