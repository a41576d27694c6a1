import FlatFile.Layout
import FlatFile.Target.Profile
import FlatFile.Template.Render

/-!
# What templates see

The variables that a layout and a profile give to a template: the columns, the length of a line, and
the names of the profile.
-/

namespace FlatFile.Target

open Template

/-- A name with its first character in upper case. -/
def pascalName (name : String) : String :=
  match name.toList with
  | [] => ""
  | c :: rest => String.ofList (Text.upperForm c ++ rest)

/-- A number as a value. -/
def number (n : Nat) : Value := .text (toString n)

/-- The variables of the column at an index, of `count` columns. -/
def columnScope (count index : Nat) (c : Column) : Scope :=
  [("name", .text c.name),
   ("pascal_name", .text (pascalName c.name)),
   ("start", number c.first),
   ("end", number c.last),
   ("offset", number c.offset),
   ("width", number c.width),
   ("index", number index),
   ("first", .flag (index == 0)),
   ("last", .flag (index + 1 == count))]

/-- The variables of columns. -/
def columnScopes (columns : List Column) : List Scope :=
  columns.zipIdx.map fun p => columnScope columns.length p.2 p.1

/-- The variables of a layout and a profile. -/
def scope (layout : Layout) (profile : Profile) : Scope :=
  [("columns", .list (columnScopes layout.columns)),
   ("line_end", number layout.lineLength),
   ("record_name", .text profile.recordName),
   ("parser_name", .text profile.parserName),
   ("package", .text profile.package),
   ("language", .text profile.language.name)]

end FlatFile.Target
