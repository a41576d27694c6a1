import FlatFile.Text.Decimal

/-!
# JSON values

Integers stand apart from the other numbers, which are kept as they are written.  The fields of an
object keep their order.
-/

namespace FlatFile.Json

open Text

/-- The whole part of a number: digits without a zero in front of others. -/
def isWhole (ds : List Char) : Bool :=
  ds ≠ [] && ds.all isDigit && (ds.head? ≠ some '0' || ds.length = 1)

/-- Digits behind an optional sign. -/
def isPower : List Char → Bool
  | '+' :: ds | '-' :: ds => ds ≠ [] && ds.all isDigit
  | ds => ds ≠ [] && ds.all isDigit

/-- The exponent of a number, which may be missing. -/
def isExponent : List Char → Bool
  | [] => true
  | c :: rest => (c = 'e' || c = 'E') && isPower rest

/-- What may follow the whole part of a number: a fraction and an exponent. -/
def isFraction : List Char → Bool
  | '.' :: rest => (rest.takeWhile isDigit) ≠ [] && isExponent (rest.dropWhile isDigit)
  | rest => isExponent rest

/-- A number without its sign. -/
def isUnsigned (s : List Char) : Bool :=
  isWhole (s.takeWhile isDigit) && isFraction (s.dropWhile isDigit)

/-- A number as it is written. -/
def isNumber : List Char → Bool
  | '-' :: rest => isUnsigned rest
  | s => isUnsigned s

/-- Reads an integer.  A zero with a sign is none. -/
def integer? : List Char → Option Int
  | '-' :: ds => if isWhole ds ∧ ds ≠ ['0'] then some (-Int.ofNat (digitsValue ds)) else none
  | ds => if isWhole ds then some (Int.ofNat (digitsValue ds)) else none

/-- A number that is no integer as it is written. -/
structure Decimal where
  literal : String
  isNumber : isNumber literal.toList = true
  notInteger : integer? literal.toList = none
  deriving Repr

end FlatFile.Json

namespace FlatFile

/-- A JSON value. -/
inductive Json where
  | null
  | bool (b : Bool)
  | num (n : Int)
  | decimal (d : Json.Decimal)
  | str (s : String)
  | arr (items : List Json)
  | obj (fields : List (String × Json))
  deriving Inhabited, Repr

end FlatFile
