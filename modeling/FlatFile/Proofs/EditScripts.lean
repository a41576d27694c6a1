import FlatFile.Diff.Changes
import Mathlib

/-!
# Edit scripts turn one sequence into the other

Whatever the search for a short path finds, a script expects all of the old sequence and makes all
of the new one (`turns_script`): where the path splits the problem, the halves are put together
again.  Tidying a script moves its blocks about, but never changes what it expects and makes: each
single move gives a script that does the same (`Same`), and so do a sweep and all of `compact`.

So the elements that a diff keeps or removes are the old sequence, and those it keeps or adds are
the new one (`changes_old`, `changes_new`).  A diff of two texts that prints nothing keeps every
line, and then the texts are the same (`eq_of_lineDiff_eq_empty`).
-/

namespace FlatFile.Diff

variable {α : Type}

/-! ### What a script does -/

@[simp] theorem oldSide_append (a b : List (Block α)) :
    oldSide (a ++ b) = oldSide a ++ oldSide b := by
  induction a with
  | nil => rfl
  | cons block a ih => cases block <;> simp [oldSide, ih]

@[simp] theorem newSide_append (a b : List (Block α)) :
    newSide (a ++ b) = newSide a ++ newSide b := by
  induction a with
  | nil => rfl
  | cons block a ih => cases block <;> simp [newSide, ih]

/-- **A script from `old` to `new`**: it expects the one and makes the other. -/
structure Turns (old new : List α) (blocks : List (Block α)) : Prop where
  old : oldSide blocks = old
  new : newSide blocks = new

theorem Turns.append {a a' b b' : List α} {s s' : List (Block α)} (h : Turns a b s)
    (h' : Turns a' b' s') : Turns (a ++ a') (b ++ b') (s ++ s') :=
  ⟨by rw [oldSide_append, h.old, h'.old], by rw [newSide_append, h.new, h'.new]⟩

theorem turns_keep (xs : List α) : Turns xs xs (keep xs) := by
  rw [keep]
  by_cases h : xs.isEmpty = true
  · rw [if_pos h, List.isEmpty_iff.mp h]
    exact ⟨rfl, rfl⟩
  · rw [if_neg h]
    exact ⟨by simp [oldSide], by simp [newSide]⟩

theorem turns_replace (old new : List α) : Turns old new [.delete old, .insert new] :=
  ⟨by simp [oldSide], by simp [newSide]⟩

/-- **Two scripts that do the same.** -/
structure Same (a b : List (Block α)) : Prop where
  old : oldSide a = oldSide b
  new : newSide a = newSide b

namespace Same

theorem refl (a : List (Block α)) : Same a a := ⟨rfl, rfl⟩

theorem symm {a b : List (Block α)} (h : Same a b) : Same b a := ⟨h.old.symm, h.new.symm⟩

theorem trans {a b c : List (Block α)} (h : Same a b) (h' : Same b c) : Same a c :=
  ⟨h.old.trans h'.old, h.new.trans h'.new⟩

theorem append {a a' b b' : List (Block α)} (h : Same a a') (h' : Same b b') :
    Same (a ++ b) (a' ++ b') :=
  ⟨by rw [oldSide_append, oldSide_append, h.old, h'.old],
    by rw [newSide_append, newSide_append, h.new, h'.new]⟩

theorem cons {a b : List (Block α)} (block : Block α) (h : Same a b) :
    Same (block :: a) (block :: b) :=
  (refl [block]).append h

/-- A part of a script can be looked at on its own. -/
theorem inside (a : List (Block α)) {b b' : List (Block α)} (h : Same b b')
    (c : List (Block α)) : Same (a ++ (b ++ c)) (a ++ (b' ++ c)) :=
  (refl a).append (h.append (refl c))

end Same

theorem same_keepBefore (xs : List α) (blocks : List (Block α)) :
    Same (keepBefore xs blocks) (.equal xs :: blocks) := by
  match blocks with
  | .equal ys :: rest => exact ⟨by simp [keepBefore, oldSide], by simp [keepBefore, newSide]⟩
  | [] | .delete _ :: _ | .insert _ :: _ => exact Same.refl _

theorem same_keepBehind (xs : List α) (blocks : List (Block α)) :
    Same (keepBehind xs blocks).reverse (blocks.reverse ++ [.equal xs]) := by
  match blocks with
  | .equal ys :: rest => exact ⟨by simp [keepBehind, oldSide], by simp [keepBehind, newSide]⟩
  | [] | .delete _ :: _ | .insert _ :: _ => exact ⟨by simp [keepBehind], by simp [keepBehind]⟩

/-- Deletions and insertions pass each other. -/
theorem same_pass (gone added : List α) :
    Same [.insert added, .delete gone] [.delete gone, .insert added] :=
  ⟨rfl, rfl⟩

theorem same_insert_append (xs ys : List α) :
    Same [.insert (xs ++ ys)] [.insert xs, .insert ys] :=
  ⟨rfl, by simp [newSide]⟩

theorem same_delete_append (xs ys : List α) :
    Same [.delete (xs ++ ys)] [.delete xs, .delete ys] :=
  ⟨by simp [oldSide], rfl⟩

theorem same_equal_nil {kept : List α} (h : kept = []) (blocks : List (Block α)) :
    Same blocks (.equal kept :: blocks) := by
  subst h
  exact ⟨by simp [oldSide], by simp [newSide]⟩

variable [DecidableEq α]

/-! ### Common ends -/

theorem take_append_commonStart (as bs : List α) :
    bs = as.take (commonStart as bs) ++ bs.drop (commonStart as bs) := by
  rw [take_commonStart, List.take_append_drop]

/-- Two sequences end in the same elements. -/
theorem drop_commonEnd (as bs : List α) :
    as.drop (as.length - commonEnd as bs) = bs.drop (bs.length - commonEnd as bs) := by
  have h := congrArg List.reverse (take_commonStart as.reverse bs.reverse)
  rwa [List.reverse_take, List.reverse_take, List.reverse_reverse, List.reverse_reverse,
    List.length_reverse, List.length_reverse] at h

theorem take_append_commonEnd (as bs : List α) :
    bs.take (bs.length - commonEnd as bs) ++ as.drop (as.length - commonEnd as bs) = bs := by
  rw [drop_commonEnd, List.take_append_drop]

/-- The common ends stand around what is left of the two sequences. -/
theorem ends_append (old new : List α) :
    old = (ends old new).start ++ (ends old new).old ++ (ends old new).stop ∧
      new = (ends old new).start ++ (ends old new).new ++ (ends old new).stop := by
  simp only [ends, List.append_assoc]
  constructor
  · rw [List.take_append_drop, List.take_append_drop]
  · rw [take_append_commonEnd]
    exact take_append_commonStart old new

/-! ### The script that is found -/

/-- The script between the common ends. -/
def between (old new : List α) : List (Block α) :=
  match old, new with
  | [], [] => []
  | _, [] => [.delete old]
  | [], _ => [.insert new]
  | _ :: _, _ :: _ =>
    match middle? old new with
    | none => [.delete old, .insert new]
    | some (x, y) =>
      if 0 < x + y ∧ (x < old.length ∨ y < new.length) then
        script (old.take x) (new.take y) ++ script (old.drop x) (new.drop y)
      else [.delete old, .insert new]

theorem script_eq (old new : List α) :
    script old new =
      keep (ends old new).start ++ between (ends old new).old (ends old new).new
        ++ keep (ends old new).stop := by
  rw [script]
  split
  rename_i start o n stop h
  have hends : keep (ends old new).start ++ between (ends old new).old (ends old new).new
      ++ keep (ends old new).stop = keep start ++ between o n ++ keep stop := by rw [h]
  rw [hends]
  cases o <;> cases n <;> rfl

/-- What is between the common ends is turned, when shorter sequences are. -/
theorem turns_between {old new : List α}
    (ih : ∀ old' new' : List α, old'.length + new'.length < old.length + new.length →
      Turns old' new' (script old' new')) : Turns old new (between old new) := by
  match old, new, ih with
  | [], [], _ => exact ⟨rfl, rfl⟩
  | a :: old, [], _ => exact ⟨by simp [between, oldSide], by simp [between, newSide]⟩
  | [], b :: new, _ => exact ⟨by simp [between, oldSide], by simp [between, newSide]⟩
  | a :: old, b :: new, ih =>
    rw [between]
    split
    · exact turns_replace _ _
    · rename_i x y _
      split
      · rename_i hsplit
        have hfirst := ih ((a :: old).take x) ((b :: new).take y) (by
          simp only [List.length_take, List.length_cons] at hsplit ⊢
          omega)
        have hsecond := ih ((a :: old).drop x) ((b :: new).drop y) (by
          simp only [List.length_drop, List.length_cons] at hsplit ⊢
          omega)
        have hboth := hfirst.append hsecond
        rwa [List.take_append_drop, List.take_append_drop] at hboth
      · exact turns_replace _ _

/-- **The script that is found turns the old sequence into the new one.** -/
theorem turns_script (old new : List α) : Turns old new (script old new) := by
  induction hn : old.length + new.length using Nat.strong_induction_on generalizing old new with
  | _ n ih =>
    have hold := ends_old_length_le old new
    have hnew := ends_new_length_le old new
    have hbetween : Turns (ends old new).old (ends old new).new
        (between (ends old new).old (ends old new).new) :=
      turns_between fun old' new' hless => ih _ (by omega) old' new' rfl
    have hall := ((turns_keep (ends old new).start).append hbetween).append
      (turns_keep (ends old new).stop)
    obtain ⟨hold', hnew'⟩ := ends_append old new
    rw [script_eq]
    rwa [← hold', ← hnew'] at hall

/-! ### Tidying keeps what a script does -/

/-- An insertion slides up past kept elements that agree with its own. -/
theorem same_slide_up (kept added : List α) :
    Same [.equal (kept.take (kept.length - commonEnd kept added)),
        .insert (kept.drop (kept.length - commonEnd kept added)
          ++ added.take (added.length - commonEnd kept added)),
        .equal (kept.drop (kept.length - commonEnd kept added))]
      [.equal kept, .insert added] := by
  constructor
  · simp [oldSide]
  · simp only [newSide, List.append_nil, List.append_assoc, take_append_commonEnd]
    rw [← List.append_assoc, List.take_append_drop]

/-- An insertion slides down past kept elements that agree with its own. -/
theorem same_slide_down (kept added : List α) :
    Same [.equal (kept.take (commonStart kept added)),
        .insert (added.drop (commonStart kept added) ++ kept.take (commonStart kept added)),
        .equal (kept.drop (commonStart kept added))]
      [.insert added, .equal kept] := by
  have h := take_append_commonStart kept added
  constructor
  · simp [oldSide]
  · simp only [newSide, List.append_nil, List.append_assoc, List.take_append_drop]
    rw [← List.append_assoc, ← h]

/-- **Moving a block up keeps what the script does.** -/
theorem same_moveUp (before : List (Block α)) (this : Block α) (after : List (Block α)) :
    Same (moveUp before this after).script (Focus.mk before this after).script := by
  fun_induction moveUp before this after with
  | case1 after kept rest added s _ turned this' after' hs ih =>
    -- the insertion passes all of the kept elements, and none stay before it
    have hnone : kept.take (kept.length - s) = [] := by rw [hs, Nat.sub_self, List.take_zero]
    have hslide : Same ([this'] ++ after') ([.equal kept, .insert added] ++ after) :=
      ((same_keepBefore turned after).cons this').trans
        ((same_equal_nil hnone _).trans ((same_slide_up kept added).append (Same.refl after)))
    exact ih.trans (by simpa [Focus.script] using (Same.refl rest.reverse).append hslide)
  | case2 after kept rest added s _ turned this' after' _ ih =>
    have hslide : Same ([.equal (kept.take (kept.length - s)), this'] ++ after')
        ([.equal kept, .insert added] ++ after) :=
      (((same_keepBefore turned after).cons this').cons _).trans
        ((same_slide_up kept added).append (Same.refl after))
    exact ih.trans (by simpa [Focus.script] using (Same.refl rest.reverse).append hslide)
  | case3 after kept rest added _ _ hempty ih | case5 after kept rest added hempty ih =>
    have hdrop := same_equal_nil (List.isEmpty_iff.mp hempty)
    exact ih.trans (by
      simpa [Focus.script] using (Same.refl rest.reverse).append (hdrop (_ :: after)))
  | case4 | case6 | case11 => exact Same.refl _
  | case7 after gone rest added ih =>
    exact ih.trans (by simpa [Focus.script] using (same_pass gone added).inside rest.reverse after)
  | case8 after added rest gone ih =>
    exact ih.trans (by
      simpa [Focus.script] using (same_pass gone added).symm.inside rest.reverse after)
  | case9 after earlier rest added ih =>
    exact ih.trans (by
      simpa [Focus.script] using (same_insert_append earlier added).inside rest.reverse after)
  | case10 after earlier rest gone ih =>
    exact ih.trans (by
      simpa [Focus.script] using (same_delete_append earlier gone).inside rest.reverse after)

/-- **Moving a block down keeps what the script does.** -/
theorem same_moveDown (before : List (Block α)) (this : Block α) (after : List (Block α)) :
    Same (moveDown before this after).script (Focus.mk before this after).script := by
  fun_induction moveDown before this after with
  | case1 before kept rest added s _ turned this' before' hs ih =>
    -- the insertion passes all of the kept elements, and none stay behind it
    have hnone : kept.drop s = [] := by rw [hs, List.drop_length]
    have hkept := (same_keepBehind turned before).append
      ((same_equal_nil hnone rest).cons this')
    have hslide := (same_slide_down kept added).inside before.reverse rest
    exact ih.trans (by simpa [Focus.script] using hkept.trans (by simpa using hslide))
  | case2 before kept rest added s _ turned this' before' _ ih =>
    have hkept := (same_keepBehind turned before).append
      (Same.refl (this' :: .equal (kept.drop s) :: rest))
    have hslide := (same_slide_down kept added).inside before.reverse rest
    exact ih.trans (by simpa [Focus.script] using hkept.trans (by simpa using hslide))
  | case3 before kept rest added _ _ hempty ih | case5 before kept rest added hempty ih =>
    have hdrop := same_equal_nil (List.isEmpty_iff.mp hempty) rest
    exact ih.trans ((Same.refl before.reverse).append (hdrop.cons _))
  | case4 | case6 | case11 => exact Same.refl _
  | case7 before gone rest added ih =>
    exact ih.trans (by
      simpa [Focus.script] using (same_pass gone added).symm.inside before.reverse rest)
  | case8 before added rest gone ih =>
    exact ih.trans (by simpa [Focus.script] using (same_pass gone added).inside before.reverse rest)
  | case9 before later rest added ih =>
    exact ih.trans (by
      simpa [Focus.script] using (same_insert_append added later).inside before.reverse rest)
  | case10 before later rest gone ih =>
    exact ih.trans (by
      simpa [Focus.script] using (same_delete_append gone later).inside before.reverse rest)

/-- A sweep moves one block at a time, so it keeps what the script does, wherever it stops. -/
theorem same_sweepAux (moves : Block α → Bool) (fuel : Nat) (before after : List (Block α)) :
    Same (sweepAux moves fuel before after) (before.reverse ++ after) := by
  induction fuel generalizing before after with
  | zero => exact Same.refl _
  | succ fuel ih =>
    match after with
    | [] => rw [sweepAux, List.append_nil]; exact Same.refl _
    | this :: after =>
      rw [sweepAux]
      split
      · refine (ih _ _).trans ?_
        rw [List.reverse_cons, List.append_assoc]
        exact (same_moveDown _ _ _).trans (same_moveUp before this after)
      · refine (ih _ _).trans ?_
        rw [List.reverse_cons, List.append_assoc]
        exact Same.refl _

/-- **A tidied script does what the script did.** -/
theorem same_compact (blocks : List (Block α)) : Same (compact blocks) blocks :=
  (same_sweepAux Block.isInsert _ [] _).trans (same_sweepAux Block.isDelete _ [] blocks)

/-! ### The changes -/

namespace Change

omit [DecidableEq α]

/-- The element of the old sequence, if the change is at one. -/
def old? : Change α → Option α
  | .keep a | .remove a => some a
  | .add _ => none

/-- The element of the new sequence, if the change gives one. -/
def new? : Change α → Option α
  | .keep a | .add a => some a
  | .remove _ => none

end Change

omit [DecidableEq α] in
theorem changesFrom_old (gone added : List α) (blocks : List (Block α)) :
    (changesFrom gone added blocks).filterMap Change.old? = gone ++ oldSide blocks := by
  fun_induction changesFrom gone added blocks with
  | case1 gone added => simp [Function.comp_def, Change.old?, oldSide]
  | case2 gone added xs rest ih => simp [Function.comp_def, Change.old?, oldSide, ih]
  | case3 gone added xs rest ih => simp [oldSide, ih]
  | case4 gone added xs rest ih => simp [oldSide, ih]

omit [DecidableEq α] in
theorem changesFrom_new (gone added : List α) (blocks : List (Block α)) :
    (changesFrom gone added blocks).filterMap Change.new? = added ++ newSide blocks := by
  fun_induction changesFrom gone added blocks with
  | case1 gone added => simp [Function.comp_def, Change.new?, newSide]
  | case2 gone added xs rest ih => simp [Function.comp_def, Change.new?, newSide, ih]
  | case3 gone added xs rest ih => simp [newSide, ih]
  | case4 gone added xs rest ih => simp [newSide, ih]

/-- **The elements that are kept or removed are the old sequence.** -/
theorem changes_old (old new : List α) : (changes old new).filterMap Change.old? = old := by
  rw [changes, changesFrom_old, List.nil_append, (same_compact _).old]
  exact (turns_script old new).old

/-- **The elements that are kept or added are the new sequence.** -/
theorem changes_new (old new : List α) : (changes old new).filterMap Change.new? = new := by
  rw [changes, changesFrom_new, List.nil_append, (same_compact _).new]
  exact (turns_script old new).new

/-- A change that prints nothing keeps its line. -/
theorem Change.old?_eq_new? {c : Change (List Char)} (h : c.print = []) : c.old? = c.new? := by
  cases c with
  | keep => rfl
  | remove | add => simp [Change.print, signed] at h

end FlatFile.Diff

namespace FlatFile.Text

/-- The lines with their ends are the whole text. -/
theorem flatten_keepLines (cs : List Char) : (keepLines cs).flatten = cs := by
  fun_induction keepLines cs with
  | case1 => rfl
  | case2 c rest _ ih => simp [ih]
  | case3 c rest _ hnil ih =>
    rw [hnil] at ih
    simp [← ih]
  | case4 c rest _ l ls hcons ih =>
    rw [hcons] at ih
    simp [← ih]

end FlatFile.Text

namespace FlatFile.Diff

/-- **A diff that prints nothing is of a text with itself.** -/
theorem eq_of_lineDiff_eq_empty {old new : String} (h : lineDiff old new = "") : old = new := by
  have hprint : ∀ c ∈ changes (Text.keepLines old.toList) (Text.keepLines new.toList),
      c.print = [] := by
    simpa [lineDiff, String.ofList_eq_empty_iff] using h
  have hlines : Text.keepLines old.toList = Text.keepLines new.toList := by
    calc Text.keepLines old.toList
        = (changes (Text.keepLines old.toList) (Text.keepLines new.toList)).filterMap
            Change.old? := (changes_old _ _).symm
      _ = (changes (Text.keepLines old.toList) (Text.keepLines new.toList)).filterMap
            Change.new? :=
          List.filterMap_congr fun c hc => Change.old?_eq_new? (hprint c hc)
      _ = Text.keepLines new.toList := changes_new _ _
  have hchars := congrArg List.flatten hlines
  rw [Text.flatten_keepLines, Text.flatten_keepLines] at hchars
  exact String.toList_inj.mp hchars

end FlatFile.Diff
