import FlatFile.Schema.Error
import FlatFile.Text.Blank
import FlatFile.Text.Decimal

/-!
# The cursor

Columns stand one behind the other: each starts at or after the end of the one before it.  The
cursor carries that end from line to line, and `Cursor.check` holds a tokenised line against it.
The checks have a fixed order: number of tokens, integers, start against the previous end, range.
-/

namespace FlatFile.Schema

open Text

/-- Where the last accepted column ended. -/
structure Cursor where
  /-- The end of the last accepted column; `none` before the first. -/
  previousEnd : Option Nat := none
  deriving DecidableEq, Repr

/-- The cursor before the first line. -/
def Cursor.start : Cursor := ⟨none⟩

/-- What a schema line says once its checks have passed. -/
structure Placement where
  /-- The label without its outer blanks. -/
  label : String
  /-- The first position. -/
  first : Nat
  /-- The last position. -/
  last : Nat
  deriving DecidableEq, Repr

/-- Whether a start lies before the end of the last accepted column. -/
def Cursor.isBehind (cursor : Cursor) (start : Int) : Bool :=
  match cursor.previousEnd with
  | none => false
  | some e => decide (start < (e : Int))

/-- Checks the tokens of line `n`, whose text is `raw`, against the cursor; an accepted line comes
with the cursor behind it. -/
def Cursor.check (cursor : Cursor) (n : Nat) (raw : String) (tokens : List String) :
    Except SchemaError (Placement × Cursor) :=
  match tokens with
  | [label, first, last] =>
    match readInt64? first.toList, readInt64? last.toList with
    | some s, some e =>
      if cursor.isBehind s then .error (.invalidStart n raw)
      else if e < s ∨ s < 0 ∨ e < 0 then .error (.invalidRange n raw)
      else
        .ok (⟨String.ofList (trim label.toList), s.toNat, e.toNat⟩, ⟨some e.toNat⟩)
    | _, _ => .error (.invalidLine n raw)
  | _ => .error (.invalidLine n raw)

end FlatFile.Schema
