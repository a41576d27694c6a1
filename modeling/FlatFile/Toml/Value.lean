import FlatFile.Binary64.Basic
import FlatFile.Toml.Moment

/-!
# TOML values

The values a configuration file can hold.  The fields of a table keep the order in which they were
set, and a name stands in a table once.
-/

namespace FlatFile

/-- A TOML value. -/
inductive Toml where
  | text (s : String)
  | integer (i : Int)
  | float (x : Binary64)
  | boolean (b : Bool)
  | moment (m : FlatFile.Toml.Moment)
  | array (items : List Toml)
  | table (fields : List (String × Toml))
  deriving Inhabited

namespace Toml

variable {α : Type}

/-- Sets a field of a table: in its place if it is there, else behind the others. -/
def setField (name : String) (a : α) : List (String × α) → List (String × α)
  | [] => [(name, a)]
  | (k, b) :: rest => if k = name then (name, a) :: rest else (k, b) :: setField name a rest

theorem lookup_setField_self (name : String) (a : α) (fs : List (String × α)) :
    (setField name a fs).lookup name = some a := by
  induction fs with
  | nil => simp [setField]
  | cons f fs ih =>
    obtain ⟨k, b⟩ := f
    by_cases h : k = name
    · simp [setField, h]
    · have : (name == k) = false := by simpa using fun e => h e.symm
      simp [setField, h, List.lookup_cons, this, ih]

theorem lookup_setField_of_ne {name other : String} (h : other ≠ name) (a : α)
    (fs : List (String × α)) : (setField name a fs).lookup other = fs.lookup other := by
  have hne : (other == name) = false := by simpa using h
  induction fs with
  | nil => simp [setField, List.lookup_cons, hne]
  | cons f fs ih =>
    obtain ⟨k, b⟩ := f
    by_cases hk : k = name
    · simp [setField, hk, List.lookup_cons, hne]
    · simp [setField, hk, List.lookup_cons, ih]

end Toml

end FlatFile
