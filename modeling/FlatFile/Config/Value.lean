import FlatFile.Toml.Value

/-!
# Configuration values

What a configuration holds.  A list may have gaps, places that were never set; a table has none.
Dates and times are held as their text.
-/

namespace FlatFile.Config

/-- A configuration value. -/
inductive Value where
  | text (s : String)
  | integer (i : Int)
  | float (x : Binary64)
  | boolean (b : Bool)
  /-- A list; a place that was never set is `none`. -/
  | list (items : List (Option Value))
  | table (fields : List (String × Value))
  deriving Inhabited

namespace Value

/-- The fields of a table; anything else has none. -/
def fields : Value → List (String × Value)
  | table fs => fs
  | _ => []

/-- The places of a list; anything else has none. -/
def items : Value → List (Option Value)
  | list is => is
  | _ => []

mutual

/-- The value of a TOML value. -/
def ofToml : Toml → Value
  | .text s => text s
  | .integer i => integer i
  | .float x => float x
  | .boolean b => boolean b
  | .moment m => text m.text
  | .array is => list (ofItems is)
  | .table fs => table (ofFields fs)

/-- The places of a TOML array: it has no gaps. -/
def ofItems : List Toml → List (Option Value)
  | [] => []
  | v :: rest => some (ofToml v) :: ofItems rest

/-- The fields of a TOML table. -/
def ofFields : List (String × Toml) → List (String × Value)
  | [] => []
  | (name, v) :: rest => (name, ofToml v) :: ofFields rest

end

/-- The place that an index means in a list: a negative one counts from the end. -/
def position? (length : Nat) (i : Int) : Option Nat :=
  if 0 ≤ i then some i.toNat
  else if i.natAbs ≤ length then some (length - i.natAbs)
  else none

/-- Sets a place of a list; places before it that the list does not have become gaps. -/
def setItem (n : Nat) (v : Value) (is : List (Option Value)) : List (Option Value) :=
  (is ++ List.replicate (n + 1 - is.length) none).set n (some v)

end Value

end FlatFile.Config
