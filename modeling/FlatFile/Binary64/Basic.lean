/-!
# Binary floating-point numbers of 64 bits

A finite number is `m * 2 ^ q` with fewer than `2 ^ 53` steps `m`; the infinities and the undefined
number stand beside them.  A decimal is rounded to the nearest such number, and a tie goes to the
even one.  Everything is computed on natural numbers.
-/

namespace FlatFile

/-- A decimal number that is not negative: `digits * 10 ^ exponent`. -/
structure Decimal where
  digits : Nat
  exponent : Int
  deriving DecidableEq, Repr

/-- The size of a finite number: `m * 2 ^ q`. -/
structure Magnitude where
  m : Nat
  q : Int
  deriving DecidableEq, Repr

/-- A floating-point number. -/
inductive Binary64 where
  | finite (negative : Bool) (size : Magnitude)
  | infinite (negative : Bool)
  | undefined
  deriving DecidableEq, Repr

/-- The quotient rounded to the nearest natural number, a tie to the even one. -/
def roundQuotient (n d : Nat) : Nat :=
  let low := n / d
  let twice := 2 * (n % d)
  if twice < d ∨ (twice = d ∧ low % 2 = 0) then low else low + 1

example : [roundQuotient 5 2, roundQuotient 7 2, roundQuotient 8 3] = [2, 4, 3] := by decide

/-- The number of decimal digits of a natural number. -/
def decimalLength (n : Nat) : Nat := (Nat.toDigits 10 n).length

namespace Magnitude

/-- The number zero. -/
def zero : Magnitude := ⟨0, -1074⟩

/-- The numerator of `n / d` measured in units of `2 ^ q`. -/
def scaleUp (n : Nat) (q : Int) : Nat := n * Nat.pow 2 (-q).toNat

/-- The denominator of `n / d` measured in units of `2 ^ q`. -/
def scaleDown (d : Nat) (q : Int) : Nat := d * Nat.pow 2 q.toNat

/-- The unit in which a positive quotient has 53 bits, or the least unit there is. -/
def unitOf (n d : Nat) : Int :=
  let q := max ((n.log2 : Int) - d.log2 - 53) (-1074)
  if scaleUp n q / scaleDown d q < Nat.pow 2 53 then q else q + 1

/-- The nearest size to a positive quotient; `none` when it is too large. -/
def ofRatio? (n d : Nat) : Option Magnitude :=
  let q := unitOf n d
  let m := roundQuotient (scaleUp n q) (scaleDown d q)
  let size : Magnitude := if m = Nat.pow 2 53 then ⟨Nat.pow 2 52, q + 1⟩ else ⟨m, q⟩
  if size.q ≤ 971 then some size else none

/-- The nearest size to a decimal; `none` when it is too large.  Decimals that are far out of range
are not computed. -/
def ofDecimal? (d : Decimal) : Option Magnitude :=
  let places := (decimalLength d.digits : Int) + d.exponent
  if d.digits = 0 ∨ places < -330 then some zero
  else if 310 < places then none
  else ofRatio? (d.digits * Nat.pow 10 d.exponent.toNat) (Nat.pow 10 (-d.exponent).toNat)

example : ofDecimal? ⟨1, 0⟩ = some ⟨2 ^ 52, -52⟩ := by decide +kernel

example : ofDecimal? ⟨9007199254740993, 0⟩ = some ⟨2 ^ 52, 1⟩ := by decide +kernel

end Magnitude

/-- The nearest floating-point number to a decimal with a sign. -/
def Binary64.ofDecimal (negative : Bool) (d : Decimal) : Binary64 :=
  match Magnitude.ofDecimal? d with
  | none => .infinite negative
  | some size => .finite negative size

end FlatFile
