import FlatFile.Diagnostic
import FlatFile.Layout
import FlatFile.Schema.Cursor
import FlatFile.Schema.Line
import FlatFile.Schema.Naming
import FlatFile.Text.Lines

/-!
# Compiling a schema

Each line of a schema is cut into tokens, checked against the cursor and named; the first line that
fails ends the compilation, and no part of a layout is returned then.  A schema without lines is
refused too.
-/

namespace FlatFile

open Schema

/-- What compilation carries from line to line. -/
structure Progress where
  cursor : Cursor := Cursor.start
  names : Naming

/-- One accepted line. -/
structure Accepted where
  column : Column
  /-- The finding that the line's label had no identifier. -/
  finding : Option Diagnostic
  deriving DecidableEq, Repr

/-- A compiled schema. -/
structure Compilation where
  layout : Layout
  diagnostics : Diagnostics
  deriving DecidableEq, Repr

namespace Compilation

/-- The report that a column was accepted on line `n`. -/
def acceptedEvent (n : Nat) (c : Column) : Event :=
  { level := .debug
    message := "accepted column"
    fields := [("line", .number n), ("name", .text c.name), ("start", .number c.first),
      ("end", .number c.last)] }

/-- The accepted line that a placement and its name make. -/
def accept (n : Nat) (p : Placement) (named : Named) : Accepted :=
  { column := ⟨named.name, p.first, p.last⟩
    finding := if named.fallback then some (Diagnostic.fallback n p.label named.name) else none }

/-- Takes line `n` in. -/
def step (s : Progress) (n : Nat) (raw : String) :
    Traced (Except SchemaError (Accepted × Progress)) :=
  match s.cursor.check n raw (tokens raw) with
  | .error e => ⟨.error e, []⟩
  | .ok (p, cursor) =>
    (s.names.give p.label n raw).andThen fun
      | (.error e, _) => ⟨.error e, []⟩
      | (.ok named, names) =>
        let a := accept n p named
        ⟨.ok (a, ⟨cursor, names⟩), [acceptedEvent n a.column]⟩

/-- Takes the lines from number `n` on in, up to the first that fails. -/
def acceptFrom (s : Progress) (n : Nat) : List String → Traced (Except SchemaError (List Accepted))
  | [] => ⟨.ok [], []⟩
  | raw :: rest =>
    (step s n raw).andThen fun
      | .error e => ⟨.error e, []⟩
      | .ok (a, s') =>
        (acceptFrom s' (n + 1) rest).map fun r => r.map (a :: ·)

/-- The compilation that accepted lines make. -/
def ofAccepted (accepted : List Accepted) : Compilation :=
  ⟨⟨accepted.map (·.column)⟩, ⟨accepted.filterMap (·.finding)⟩⟩

/-- Compiles the lines of a schema. -/
def ofLines (reserved : ReservedWords) (raws : List String) :
    Traced (Except SchemaError Compilation) :=
  (acceptFrom { names := { reserved := reserved } } 1 raws).map fun
    | .error e => .error e
    | .ok [] => .error .emptySchema
    | .ok accepted => .ok (ofAccepted accepted)

/-- Compiles the text of a schema. -/
def ofText (reserved : ReservedWords) (text : String) : Traced (Except SchemaError Compilation) :=
  ofLines reserved (Text.lines text)

end Compilation

end FlatFile
