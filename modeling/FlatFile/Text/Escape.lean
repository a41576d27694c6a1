/-!
# Escaped text

What the readers and printers of quoted texts share: hexadecimal digits, in which a character can be
written by its number, and putting one character in front of the others that a reader gives.
-/

namespace FlatFile.Text

/-- A lower-case hexadecimal digit. -/
def hexDigit (n : Nat) : Char := ("0123456789abcdef".toList)[n % 16]?.getD '0'

/-- The value of a hexadecimal digit. -/
def hexValue? (c : Char) : Option Nat :=
  if '0' ≤ c ∧ c ≤ '9' then some (c.toNat - 48)
  else if 'a' ≤ c ∧ c ≤ 'f' then some (c.toNat - 87)
  else if 'A' ≤ c ∧ c ≤ 'F' then some (c.toNat - 55)
  else none

/-- Puts a character in front of what a reader gives. -/
def prepend (c : Char) : Option (List Char × List Char) → Option (List Char × List Char)
  | none => none
  | some (cs, rest) => some (c :: cs, rest)

end FlatFile.Text
