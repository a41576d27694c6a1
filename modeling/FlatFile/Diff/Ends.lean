/-!
# Common ends

How far two sequences agree from their starts and from their ends.
-/

namespace FlatFile.Diff

variable {α : Type} [DecidableEq α]

/-- The length of the longest common start. -/
def commonStart : List α → List α → Nat
  | a :: as, b :: bs => if a = b then commonStart as bs + 1 else 0
  | _, _ => 0

/-- The length of the longest common end. -/
def commonEnd (as bs : List α) : Nat := commonStart as.reverse bs.reverse

theorem take_commonStart (as bs : List α) :
    as.take (commonStart as bs) = bs.take (commonStart as bs) := by
  induction as generalizing bs with
  | nil => simp [commonStart]
  | cons a as ih =>
    cases bs with
    | nil => simp [commonStart]
    | cons b bs =>
      by_cases h : a = b
      · simp [commonStart, h, ih]
      · simp [commonStart, h]

end FlatFile.Diff
