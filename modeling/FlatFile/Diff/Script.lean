import FlatFile.Diff.Snake

/-!
# Edit scripts

An edit script turns one sequence into another by blocks that are kept, deleted or inserted.
`script` finds a short one: common ends are kept, and what is between them is split at the middle of
a shortest path.
-/

namespace FlatFile.Diff

variable {α : Type}

/-- A block of an edit script. -/
inductive Block (α : Type) where
  | equal (xs : List α)
  | delete (xs : List α)
  | insert (xs : List α)
  deriving DecidableEq, Repr

/-- The elements of a block. -/
def Block.elements : Block α → List α
  | .equal xs | .delete xs | .insert xs => xs

/-- Whether a block deletes. -/
def Block.isDelete : Block α → Bool
  | .delete _ => true
  | _ => false

/-- Whether a block inserts. -/
def Block.isInsert : Block α → Bool
  | .insert _ => true
  | _ => false

/-- The elements a script expects. -/
def oldSide : List (Block α) → List α
  | [] => []
  | .equal xs :: rest | .delete xs :: rest => xs ++ oldSide rest
  | .insert _ :: rest => oldSide rest

/-- The elements a script makes. -/
def newSide : List (Block α) → List α
  | [] => []
  | .equal xs :: rest | .insert xs :: rest => xs ++ newSide rest
  | .delete _ :: rest => newSide rest

/-- Elements that are kept, as blocks: none when there are none. -/
def keep (xs : List α) : List (Block α) := if xs.isEmpty then [] else [.equal xs]

/-- Two sequences with their common ends set apart. -/
structure Ends (α : Type) where
  start : List α
  old : List α
  new : List α
  stop : List α

variable [DecidableEq α]

/-- Sets the common start apart, and then the common end of what is left. -/
def ends (old new : List α) : Ends α :=
  let p := commonStart old new
  let old' := old.drop p
  let new' := new.drop p
  let s := commonEnd old' new'
  ⟨old.take p, old'.take (old'.length - s), new'.take (new'.length - s),
    old'.drop (old'.length - s)⟩

theorem ends_old_length_le (old new : List α) : (ends old new).old.length ≤ old.length := by
  simp only [ends, List.length_take, List.length_drop]
  omega

theorem ends_new_length_le (old new : List α) : (ends old new).new.length ≤ new.length := by
  simp only [ends, List.length_take, List.length_drop]
  omega

/-- A script from one sequence to another. -/
def script (old new : List α) : List (Block α) :=
  match h : ends old new with
  | ⟨start, o, n, stop⟩ =>
    have ho : o.length ≤ old.length := by simpa [h] using ends_old_length_le old new
    have hn : n.length ≤ new.length := by simpa [h] using ends_new_length_le old new
    let inner :=
      match o, n with
      | [], [] => []
      | _, [] => [.delete o]
      | [], _ => [.insert n]
      | _ :: _, _ :: _ =>
        match middle? o n with
        | none => [.delete o, .insert n]
        | some (x, y) =>
          if 0 < x + y ∧ (x < o.length ∨ y < n.length) then
            script (o.take x) (n.take y) ++ script (o.drop x) (n.drop y)
          else [.delete o, .insert n]
    keep start ++ inner ++ keep stop
termination_by old.length + new.length
decreasing_by
  all_goals
    simp only [List.length_take, List.length_drop, List.length_cons] at *
    omega

end FlatFile.Diff
