/-!
# Schema errors

Why a schema is refused.  Every error but `emptySchema` names the line, counted from one, and its
text as it stands; the two errors about names also give the identifier that was refused.
-/

namespace FlatFile

/-- Why a schema is refused. -/
inductive SchemaError where
  | invalidLine (line : Nat) (raw : String)
  | invalidStart (line : Nat) (raw : String)
  | invalidRange (line : Nat) (raw : String)
  | reserved (name : String) (line : Nat) (raw : String)
  | duplicate (name : String) (line : Nat) (raw : String)
  | emptySchema
  deriving DecidableEq, Repr

namespace SchemaError

/-- The line an error is about; `none` when it is about the schema as a whole. -/
def line? : SchemaError → Option Nat
  | invalidLine n _ | invalidStart n _ | invalidRange n _ | reserved _ n _ | duplicate _ n _ =>
    some n
  | emptySchema => none

/-- The text of the line an error is about. -/
def raw? : SchemaError → Option String
  | invalidLine _ r | invalidStart _ r | invalidRange _ r | reserved _ _ r | duplicate _ _ r =>
    some r
  | emptySchema => none

/-- The identifier that was refused. -/
def name? : SchemaError → Option String
  | reserved name _ _ | duplicate name _ _ => some name
  | _ => none

/-- The error in words. -/
def message : SchemaError → String
  | invalidLine n raw =>
    "Invalid schema format for line " ++ toString n ++ ": '" ++ raw
      ++ "'. Please ensure the strict format of 'columnStr startInt endInt'."
  | invalidStart n raw =>
    "Invalid startIndex for line " ++ toString n ++ ": '" ++ raw
      ++ "'. Note that current startIndex must be greater than or equal to previous endIndex."
  | invalidRange n raw =>
    "Invalid startIndex and/or endIndex for line " ++ toString n ++ ": '" ++ raw
      ++ "'. Note that endIndex must be greater than or equal to startIndex, and they should be"
      ++ " non-negative integers."
  | reserved name n raw =>
    "Invalid columnName as '" ++ name ++ "' for line " ++ toString n ++ ": '" ++ raw
      ++ "'. Note that columnName should not be a reserved keyword of the target language."
  | duplicate name n raw =>
    "Invalid columnName as '" ++ name ++ "' for line " ++ toString n ++ ": '" ++ raw
      ++ "'. Note that there should not be duplicated columnName."
  | emptySchema => "Schema is empty: at least one column definition is required."

end SchemaError

end FlatFile
