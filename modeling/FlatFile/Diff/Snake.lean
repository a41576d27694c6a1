import FlatFile.Diff.Ends

/-!
# The middle of a shortest edit path

Two sequences of lengths `n` and `m` span a grid: a step right deletes, a step down inserts, and a
diagonal step keeps an element both have.  Paths from the two opposite corners are extended one edit
at a time, furthest first, until a forward and a backward path meet; where they meet, the problem
splits in two (`middle?`).

The paths with `d` edits end on the diagonals `d, d - 2, …, -d`.  A **row** lists how far right the
furthest of them gets on each, in this order.
-/

namespace FlatFile.Diff

/-- Where the paths with one more edit start, before they follow a diagonal: on the outer diagonals
there is one way to get there, between two diagonals the furthest counts. -/
def nextStarts (row : List Nat) : List Nat :=
  match row with
  | [] => [0]
  | x :: _ =>
    (x + 1) :: (List.zipWith (fun above below => if below < above then above else below + 1)
      row row.tail ++ row.getLast?.toList)

/-- The diagonals of the paths with `d` edits. -/
def diagonals (d : Nat) : List Int := (List.range (d + 1)).map fun (i : Nat) => (d : Int) - 2 * i

/-- How far the path on diagonal `k` gets, in the row of `d` edits. -/
def reached (row : List Nat) (d : Int) (k : Int) : Nat := row.getD ((d - k) / 2).toNat 0

variable {α : Type} [DecidableEq α]

/-- Follows diagonal `k` from `x` on as long as the two sequences agree. -/
def slide (old new : List α) (k : Int) (x : Nat) : Nat :=
  let y := (x : Int) - k
  if 0 ≤ y ∧ y < new.length ∧ x < old.length then
    x + commonStart (old.drop x) (new.drop y.toNat)
  else x

/-- The path on one diagonal. -/
structure Path where
  diagonal : Int
  /-- Where its last edit ends. -/
  start : Nat
  /-- Where its last diagonal run ends. -/
  stop : Nat

/-- The paths with one edit more than those of `row`, which then have `d`. -/
def extend (old new : List α) (d : Nat) (row : List Nat) : List Path :=
  List.zipWith (fun k x => ⟨k, x, slide old new k x⟩) (diagonals d) (nextStarts row)

/-- Searches from `d` edits on for the place where a forward and a backward path meet; the rows are
those of `d - 1` edits. -/
def search (old new oldRev newRev : List α) :
    (fuel d : Nat) → (forward backward : List Nat) → Option (Nat × Nat)
  | 0, _, _, _ => none
  | fuel + 1, d, forward, backward =>
    let n := old.length
    let m := new.length
    let delta : Int := n - m
    let odd := delta % 2 ≠ 0
    let ahead := extend old new d forward
    let metAhead := ahead.find? fun p =>
      odd ∧ (p.diagonal - delta).natAbs + 1 ≤ d
        ∧ n ≤ p.stop + reached backward (d - 1) (delta - p.diagonal)
    match metAhead with
    | some p => some (p.start, ((p.start : Int) - p.diagonal).toNat)
    | none =>
      let forward' := ahead.map (·.stop)
      let behind := extend oldRev newRev d backward
      let metBehind := behind.find? fun p =>
        ¬ odd ∧ (p.diagonal - delta).natAbs ≤ d
          ∧ n ≤ p.stop + reached forward' d (delta - p.diagonal)
      match metBehind with
      | some p => some (n - p.stop, ((m : Int) - ((p.stop : Int) - p.diagonal)).toNat)
      | none => search old new oldRev newRev fuel (d + 1) forward' (behind.map (·.stop))

/-- Where a shortest edit path can be split. -/
def middle? (old new : List α) : Option (Nat × Nat) :=
  search old new old.reverse new.reverse ((old.length + new.length + 1) / 2 + 1) 0 [] []

end FlatFile.Diff
