import FlatFile.Event
import FlatFile.Schema.Error
import FlatFile.Schema.Identifier
import FlatFile.Schema.Reserved

/-!
# Naming the columns of one schema

Every label is given a name that is not reserved and that no earlier column has.  `Naming` holds the
names given so far; naming a label gives the reply and the naming behind it, whether the label gets
a name or is refused.
-/

namespace FlatFile.Schema

/-- The names of one schema: those it may not use and those it has given. -/
structure Naming where
  /-- The words no column may be named after. -/
  reserved : ReservedWords
  /-- The names given so far, the latest first. -/
  taken : List String := []

/-- A name given to a label. -/
structure Named where
  name : String
  /-- Whether the label had no identifier. -/
  fallback : Bool
  deriving DecidableEq, Repr

namespace Naming

/-- The report that a label has no identifier. -/
def fallbackEvent (label : String) (n : Nat) : Event :=
  { level := .warn
    message := "'" ++ label ++ "' is not a valid variable name so it is renamed to '"
      ++ fallbackName ++ "'"
    fields := [("line", .number n), ("label", .text label)] }

/-- Names the label of line `n`, whose text is `raw`; gives the reply and the naming behind it. -/
def give (names : Naming) (label : String) (n : Nat) (raw : String) :
    Traced (Except SchemaError Named × Naming) :=
  let name := nameOf label
  let fallback := (identifier? label).isNone
  { result :=
      if names.reserved.contains name then (.error (.reserved name n raw), names)
      else if names.taken.contains name then (.error (.duplicate name n raw), names)
      else (.ok ⟨name, fallback⟩, { names with taken := name :: names.taken })
    events := if fallback then [fallbackEvent label n] else [] }

end Naming

end FlatFile.Schema
