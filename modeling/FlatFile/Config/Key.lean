import FlatFile.Text.Decimal

/-!
# Keys

A key says where in a configuration a value belongs: `render.package` is the field `package` of the
table `render`, and `naming.extra_reserved[0]` the first place of the list `extra_reserved` there.
A text that is no such path is the name of one field.
-/

namespace FlatFile.Config

open Text

/-- A step from a value to a part of it. -/
inductive Step where
  /-- To a field of a table. -/
  | name (s : String)
  /-- To a place of a list; a negative one counts from the end. -/
  | index (i : Int)
  deriving DecidableEq, Repr

/-- A character of a name in a path. -/
def isPathChar (c : Char) : Bool := c.isAlphanum || c == ' ' || c == '_' || c == '-'

/-- A blank beside an index. -/
def isPathBlank (c : Char) : Bool := c == ' ' || c == '\t'

/-- Reads a name of a path. -/
def pathName? (s : List Char) : Option (String × List Char) :=
  match s.takeWhile isPathChar with
  | [] => none
  | cs => some (String.ofList cs, s.dropWhile isPathChar)

/-- Reads an integer without a plus sign. -/
def index? : List Char → Option Int
  | '+' :: _ => none
  | s => readInt64? s

/-- Reads an index and its closing bracket. -/
def pathIndex? (s : List Char) : Option (Int × List Char) :=
  match s.dropWhile (· != ']') with
  | [] => none
  | _ :: rest =>
    let inner := (s.takeWhile (· != ']')).dropWhile isPathBlank
    (index? (inner.reverse.dropWhile isPathBlank).reverse).map fun i => (i, rest)

/-- Reads the steps behind the first name, at most `count` of them. -/
def stepsAux : (count : Nat) → List Char → Option (List Step)
  | _, [] => some []
  | count + 1, '.' :: s =>
    match pathName? s with
    | none => none
    | some (n, rest) => (stepsAux count rest).map (.name n :: ·)
  | count + 1, '[' :: s =>
    match pathIndex? s with
    | none => none
    | some (i, rest) => (stepsAux count rest).map (.index i :: ·)
  | _, _ => none

/-- Reads a path: a name, and steps behind it. -/
def path? (s : List Char) : Option (List Step) :=
  match pathName? s with
  | none => none
  | some (n, rest) => (stepsAux rest.length rest).map (.name n :: ·)

/-- The steps of a key. -/
def stepsOf (key : String) : List Step := (path? key.toList).getD [.name key]

example : stepsOf "a b.c[ -2 ]" = [.name "a b", .name "c", .index (-2)] := by decide +kernel

example : stepsOf "a[]" = [.name "a[]"] := by decide +kernel

end FlatFile.Config
