import FlatFile.Diff.Script

/-!
# Compacting edit scripts

A script is tidied in two sweeps, one over its deletions and one over its insertions: each such
block is first moved up and then down as far as it goes.  On the way it joins blocks of its own
kind, passes blocks of the other kind, and an insertion slides past kept elements that agree with
its own.  A sweep stands at one block of the script (`Focus`), with the blocks before it in reverse.
-/

namespace FlatFile.Diff

variable {α : Type}

/-- A script seen from one of its blocks. -/
structure Focus (α : Type) where
  /-- The blocks before, the nearest first. -/
  before : List (Block α)
  this : Block α
  /-- The blocks behind, the nearest first. -/
  after : List (Block α)

/-- The script itself. -/
def Focus.script (f : Focus α) : List (Block α) := f.before.reverse ++ f.this :: f.after

/-- The size of a list of blocks: a block counts one more than its elements. -/
def weight : List (Block α) → Nat
  | [] => 0
  | b :: bs => b.elements.length + 1 + weight bs

/-- Keeps more elements in front of a list of blocks. -/
def keepBefore (xs : List α) : List (Block α) → List (Block α)
  | .equal ys :: rest => .equal (xs ++ ys) :: rest
  | rest => .equal xs :: rest

/-- Keeps more elements behind a list of blocks, given from the nearest on. -/
def keepBehind (xs : List α) : List (Block α) → List (Block α)
  | .equal ys :: rest => .equal (ys ++ xs) :: rest
  | rest => .equal xs :: rest

@[simp] theorem weight_cons (b : Block α) (bs : List (Block α)) :
    weight (b :: bs) = b.elements.length + 1 + weight bs := rfl

variable [DecidableEq α]

/-- Moves a block up as far as it goes. -/
def moveUp (before : List (Block α)) (this : Block α) (after : List (Block α)) : Focus α :=
  match before, this with
  | .equal kept :: rest, .insert added =>
    let s := commonEnd kept added
    if 0 < s ∧ s ≤ kept.length then
      let turned := kept.drop (kept.length - s)
      let this' := Block.insert (turned ++ added.take (added.length - s))
      let after' := keepBefore turned after
      if s = kept.length then moveUp rest this' after'
      else moveUp (.equal (kept.take (kept.length - s)) :: rest) this' after'
    else if kept.isEmpty then moveUp rest this after
    else ⟨before, this, after⟩
  | .equal kept :: rest, .delete _ =>
    if kept.isEmpty then moveUp rest this after else ⟨before, this, after⟩
  | .delete gone :: rest, .insert _ => moveUp rest this (.delete gone :: after)
  | .insert added :: rest, .delete _ => moveUp rest this (.insert added :: after)
  | .insert earlier :: rest, .insert added => moveUp rest (.insert (earlier ++ added)) after
  | .delete earlier :: rest, .delete gone => moveUp rest (.delete (earlier ++ gone)) after
  | _, _ => ⟨before, this, after⟩
termination_by weight before
decreasing_by
  all_goals simp only [weight_cons, Block.elements, List.length_take]
  all_goals omega

/-- Moves a block down as far as it goes. -/
def moveDown (before : List (Block α)) (this : Block α) (after : List (Block α)) : Focus α :=
  match after, this with
  | .equal kept :: rest, .insert added =>
    let s := commonStart kept added
    if 0 < s ∧ s ≤ kept.length then
      let turned := kept.take s
      let this' := Block.insert (added.drop s ++ turned)
      let before' := keepBehind turned before
      if s = kept.length then moveDown before' this' rest
      else moveDown before' this' (.equal (kept.drop s) :: rest)
    else if kept.isEmpty then moveDown before this rest
    else ⟨before, this, after⟩
  | .equal kept :: rest, .delete _ =>
    if kept.isEmpty then moveDown before this rest else ⟨before, this, after⟩
  | .delete gone :: rest, .insert _ => moveDown (.delete gone :: before) this rest
  | .insert added :: rest, .delete _ => moveDown (.insert added :: before) this rest
  | .insert later :: rest, .insert added => moveDown before (.insert (added ++ later)) rest
  | .delete later :: rest, .delete gone => moveDown before (.delete (gone ++ later)) rest
  | _, _ => ⟨before, this, after⟩
termination_by weight after
decreasing_by
  all_goals simp only [weight_cons, Block.elements, List.length_drop]
  all_goals omega

/-- Sweeps over the blocks that `moves` selects, with at most `fuel` steps. -/
def sweepAux (moves : Block α → Bool) :
    (fuel : Nat) → (before after : List (Block α)) → List (Block α)
  | 0, before, after => before.reverse ++ after
  | _ + 1, before, [] => before.reverse
  | fuel + 1, before, this :: after =>
    if moves this then
      let up := moveUp before this after
      let down := moveDown up.before up.this up.after
      sweepAux moves fuel (down.this :: down.before) down.after
    else sweepAux moves fuel (this :: before) after

/-- Sweeps over the blocks that `moves` selects; a sweep takes fewer steps than the square of the
script's weight. -/
def sweep (moves : Block α → Bool) (blocks : List (Block α)) : List (Block α) :=
  sweepAux moves ((weight blocks + 1) * (weight blocks + 1)) [] blocks

/-- A tidied script. -/
def compact (blocks : List (Block α)) : List (Block α) :=
  sweep Block.isInsert (sweep Block.isDelete blocks)

end FlatFile.Diff
