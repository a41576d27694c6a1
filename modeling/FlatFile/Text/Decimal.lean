import FlatFile.Text.Letter

/-!
# Decimal integers

Reading signed decimal text whose value fits 64 bits.  A sign may stand in front; everything else
must be digits, and there must be one.
-/

namespace FlatFile.Text

/-- The least signed 64-bit integer, `-2 ^ 63`. -/
def int64Min : Int := -9223372036854775808

/-- The greatest signed 64-bit integer, `2 ^ 63 - 1`. -/
def int64Max : Int := 9223372036854775807

/-- The value of a digit. -/
def digitValue (c : Char) : Nat := c.toNat - 48

/-- The value of a sequence of digits. -/
def digitsValue (ds : List Char) : Nat := ds.foldl (fun n d => 10 * n + digitValue d) 0

/-- Reads one or more digits. -/
def readNat? (s : List Char) : Option Nat :=
  if s ≠ [] ∧ s.all isDigit then some (digitsValue s) else none

/-- Reads digits behind an optional sign. -/
def readSigned? : List Char → Option Int
  | '+' :: ds => (readNat? ds).map Int.ofNat
  | '-' :: ds => (readNat? ds).map fun n => -Int.ofNat n
  | ds => (readNat? ds).map Int.ofNat

/-- Reads a decimal integer that fits 64 bits. -/
def readInt64? (s : List Char) : Option Int :=
  (readSigned? s).filter fun i => int64Min ≤ i ∧ i ≤ int64Max

example : readInt64? "+007".toList = some 7 := by decide

example : readInt64? "9223372036854775808".toList = none := by decide

end FlatFile.Text
