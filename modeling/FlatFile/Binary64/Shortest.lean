import FlatFile.Binary64.Basic

/-!
# The shortest decimal of a number

The decimal with the fewest digits that reads back as a number, and of those the nearest one.  For
every count of digits the two neighbours of the number on that grid are tried.
-/

namespace FlatFile.Magnitude

/-- The numerator of a size measured in units of `10 ^ g`. -/
def gridUp (x : Magnitude) (g : Int) : Nat :=
  x.m * Nat.pow 2 x.q.toNat * Nat.pow 10 (-g).toNat

/-- The denominator of a size measured in units of `10 ^ g`. -/
def gridDown (x : Magnitude) (g : Int) : Nat :=
  Nat.pow 2 (-x.q).toNat * Nat.pow 10 g.toNat

/-- The least power of ten above a size that is not zero. -/
def places (x : Magnitude) : Int :=
  let n := gridUp x 0
  let d := gridDown x 0
  if d ≤ n then decimalLength (n / d)
  else -(((List.range 330).find? fun j => d ≤ n * Nat.pow 10 (j + 1)).getD 0 : Nat)

/-- Whether a decimal reads back as a size. -/
def readsBack (x : Magnitude) (d : Decimal) : Bool := ofDecimal? d = some x

/-- The neighbour of a size on the grid of `10 ^ g` that reads back; of two the nearer, and the
upper one on a tie. -/
def neighbour? (x : Magnitude) (g : Int) : Option Decimal :=
  let n := gridUp x g
  let d := gridDown x g
  let low : Decimal := ⟨n / d, g⟩
  let high : Decimal := ⟨n / d + 1, g⟩
  match x.readsBack low, x.readsBack high with
  | true, true => some (if 2 * (n % d) < d then low else high)
  | true, false => some low
  | false, true => some high
  | false, false => none

/-- A size as a decimal with all its digits. -/
def exact (x : Magnitude) : Decimal :=
  if 0 ≤ x.q then ⟨x.m * Nat.pow 2 x.q.toNat, 0⟩ else ⟨x.m * Nat.pow 5 (-x.q).toNat, x.q⟩

/-- The shortest decimal that reads back as a size. -/
def shortest (x : Magnitude) : Decimal :=
  if x.m = 0 then ⟨0, 0⟩
  else
    let hit := (List.range 17).findSome? fun (i : Nat) => x.neighbour? (x.places - (i + 1 : Nat))
    hit.getD x.exact

end FlatFile.Magnitude
