import FlatFile.Proofs.TagGrammar

/-!
# Section tags alone on their line

A section tag that is alone on its line takes the line with it.  This is said by positions in the
whole text: a tag in its place (`Mark`) is alone when its line holds nothing but indent before it
and blanks behind it, and does not start before the end of the tag in front (`Mark.Alone`); then it
takes the positions of that indent, of those blanks and of the line feed (`Mark.Takes`).  The
**stripped** text is what no tag takes (`stripped`).

The text cut at its tags and rid of those lines is that text (`flat_cut`).  The proof goes through
the tags from left to right and keeps apart what is behind (`past`), the text up to the next tag and
what is to come; a tag is found alone on its line exactly when it is so in the whole text
(`alone_iff`), and later tags take nothing in front of the end of an earlier one
(`le_of_taken`).
-/

namespace FlatFile.Template

/-! ### Lines and marks -/

theorem isIndent_iff (c : Char) : isIndent c = true ↔ c = ' ' ∨ c = '\t' := by
  simp [isIndent]

theorem isTrailing_iff (c : Char) : isTrailing c = true ↔ c = ' ' ∨ c = '\t' ∨ c = '\r' := by
  simp [isTrailing, or_assoc]

/-- What stands before position `i` on its line. -/
def lineBefore (s : List Char) (i : Nat) : List Char :=
  ((s.take i).reverse.takeWhile (· ≠ '\n')).reverse

/-- What stands from position `i` on on its line, without the line feed. -/
def lineAfter (s : List Char) (i : Nat) : List Char := (s.drop i).takeWhile (· ≠ '\n')

/-- A tag in its place. -/
structure Mark where
  /-- Where the tag in front of it ends; the start of the text for the first tag. -/
  prev : Nat
  /-- Where it starts. -/
  start : Nat
  tag : Tag

namespace Mark

/-- Where a tag ends. -/
def stop (m : Mark) : Nat := m.start + m.tag.source.length

/-- Where the line starts that a tag starts on. -/
def lineStart (s : List Char) (m : Mark) : Nat := m.start - (lineBefore s m.start).length

/-- **A section tag alone on its line.** -/
structure Alone (s : List Char) (m : Mark) : Prop where
  is_section : m.tag.kind ≠ .value
  behind : m.prev ≤ m.lineStart s
  indent : ∀ c ∈ lineBefore s m.start, c = ' ' ∨ c = '\t'
  trailing : ∀ c ∈ lineAfter s m.stop, c = ' ' ∨ c = '\t' ∨ c = '\r'

instance decAlone (s : List Char) (m : Mark) : Decidable (m.Alone s) :=
  decidable_of_iff (m.tag.kind ≠ .value ∧ m.prev ≤ m.lineStart s ∧
      (lineBefore s m.start).all isIndent = true ∧ (lineAfter s m.stop).all isTrailing = true)
    ⟨fun h => ⟨h.1, h.2.1, fun c hc => (isIndent_iff c).mp (List.all_eq_true.mp h.2.2.1 c hc),
        fun c hc => (isTrailing_iff c).mp (List.all_eq_true.mp h.2.2.2 c hc)⟩,
      fun h => ⟨h.is_section, h.behind,
        List.all_eq_true.mpr fun c hc => (isIndent_iff c).mpr (h.indent c hc),
        List.all_eq_true.mpr fun c hc => (isTrailing_iff c).mpr (h.trailing c hc)⟩⟩

/-- **A position that a tag takes out of the text**: on its line before it, or behind it up to and
including the line feed. -/
def Takes (s : List Char) (m : Mark) (i : Nat) : Prop :=
  m.Alone s ∧ ((m.lineStart s ≤ i ∧ i < m.start) ∨
    (m.stop ≤ i ∧ i ≤ m.stop + (lineAfter s m.stop).length))

instance decTakes (s : List Char) (m : Mark) (i : Nat) : Decidable (m.Takes s i) :=
  inferInstanceAs (Decidable (_ ∧ _))

end Mark

/-- The marks of tags, the first of which starts at `start`, behind a tag that ends at `prev`. -/
def marksFrom (prev start : Nat) : List (Tag × List Char) → List Mark
  | [] => []
  | (tag, after) :: rest =>
    ⟨prev, start, tag⟩ ::
      marksFrom (start + tag.source.length) (start + tag.source.length + after.length) rest

/-- The tags of a text, each in its place. -/
def marks (s : List Char) : List Mark := marksFrom 0 (scan s).1.length (scan s).2

/-- Some tag takes a position. -/
def Taken (s : List Char) (ms : List Mark) (i : Nat) : Prop := ∃ m ∈ ms, m.Takes s i

instance decTaken (s : List Char) (ms : List Mark) : DecidablePred (Taken s ms) :=
  fun i => inferInstanceAs (Decidable (∃ m ∈ ms, m.Takes s i))

/-- The characters whose positions are not taken, where the first stands at position `n`. -/
def kept (taken : Nat → Prop) [DecidablePred taken] (n : Nat) (s : List Char) : List Char :=
  ((s.zipIdx n).filter fun p => ¬ taken p.2).map Prod.fst

/-- **A text without the lines that section tags take.** -/
def stripped (s : List Char) : List Char := kept (Taken s (marks s)) 0 s

/-! ### Keeping characters -/

section Kept
variable {taken taken' : Nat → Prop} [DecidablePred taken] [DecidablePred taken'] {n : Nat}
  {s : List Char}

theorem kept_append (t : List Char) :
    kept taken n (s ++ t) = kept taken n s ++ kept taken (n + s.length) t := by
  rw [kept, List.zipIdx_append, List.filter_append, List.map_append]
  rfl

/-- Where nothing is taken, everything is kept. -/
theorem kept_eq_self (h : ∀ i, n ≤ i → i < n + s.length → ¬ taken i) : kept taken n s = s := by
  have hall : (s.zipIdx n).filter (fun p => ¬ taken p.2) = s.zipIdx n := by
    rw [List.filter_eq_self]
    rintro ⟨c, i⟩ hp
    obtain ⟨hle, hlt, _⟩ := List.mem_zipIdx hp
    exact decide_eq_true (h i hle (by omega))
  rw [kept, hall, List.zipIdx_map_fst]

/-- Where everything is taken, nothing is kept. -/
theorem kept_eq_nil (h : ∀ i, n ≤ i → i < n + s.length → taken i) : kept taken n s = [] := by
  have hnone : (s.zipIdx n).filter (fun p => ¬ taken p.2) = [] := by
    rw [List.filter_eq_nil_iff]
    rintro ⟨c, i⟩ hp
    obtain ⟨hle, hlt, _⟩ := List.mem_zipIdx hp
    simp [h i hle (by omega)]
  rw [kept, hnone, List.map_nil]

theorem kept_congr (h : ∀ i, n ≤ i → (taken i ↔ taken' i)) : kept taken n s = kept taken' n s := by
  have hsame : (s.zipIdx n).filter (fun p => ¬ taken p.2)
      = (s.zipIdx n).filter fun p => ¬ taken' p.2 := by
    apply List.filter_congr
    rintro ⟨c, i⟩ hp
    obtain ⟨hle, _, _⟩ := List.mem_zipIdx hp
    simp only [h i hle]
  rw [kept, hsame, kept]

end Kept

/-! ### The line of a tag -/

/-- The line of a position is cut off behind the last line feed before it. -/
theorem take_eq_lineBefore (s : List Char) (i : Nat) :
    ∃ head, s.take i = head ++ lineBefore s i ∧ (head = [] ∨ head.getLast? = some '\n') := by
  refine ⟨((s.take i).reverse.dropWhile (· ≠ '\n')).reverse, ?_, ?_⟩
  · rw [lineBefore, ← List.reverse_append, List.takeWhile_append_dropWhile, List.reverse_reverse]
  · rw [List.reverse_eq_nil_iff, List.getLast?_reverse]
    have hnot := List.head?_dropWhile_not (· ≠ '\n') (s.take i).reverse
    cases hrest : (s.take i).reverse.dropWhile (· ≠ '\n') with
    | nil => exact Or.inl rfl
    | cons c rest =>
      rw [hrest] at hnot
      right
      simpa using hnot

theorem lineBefore_eq {s line : List Char} {i : Nat} (head : List Char)
    (hs : s.take i = head ++ line)
    (hline : '\n' ∉ line) (hhead : head = [] ∨ head.getLast? = some '\n') :
    lineBefore s i = line := by
  rw [lineBefore, hs, List.reverse_append, Text.takeWhile_run, List.reverse_reverse]
  · intro c hc
    exact decide_eq_true fun he => hline (he ▸ List.mem_reverse.mp hc)
  · intro c hc
    rw [List.head?_reverse] at hc
    rcases hhead with rfl | hhead
    · cases hc
    · rw [hhead] at hc
      cases hc
      rfl

theorem lineAfter_eq {s line : List Char} {i : Nat} (rest : List Char)
    (hs : s.drop i = line ++ rest)
    (hline : '\n' ∉ line) (hrest : rest = [] ∨ rest.head? = some '\n') :
    lineAfter s i = line := by
  rw [lineAfter, hs, Text.takeWhile_run]
  · intro c hc
    exact decide_eq_true fun he => hline (he ▸ hc)
  · intro c hc
    rcases hrest with rfl | hrest
    · cases hc
    · rw [hrest] at hc
      cases hc
      rfl

/-! ### Finding a tag alone on its line -/

theorem dropIndent?_eq_some_iff (fresh : Bool) (s front : List Char) :
    dropIndent? fresh s = some front ↔
      ∃ indent, s = front ++ indent ∧ (∀ c ∈ indent, c = ' ' ∨ c = '\t') ∧
        ((front = [] ∧ fresh = true) ∨ front.getLast? = some '\n') := by
  unfold dropIndent?
  constructor
  · intro h
    have hsplit : s = (s.reverse.dropWhile isIndent).reverse
        ++ (s.reverse.takeWhile isIndent).reverse := by
      rw [← List.reverse_append, List.takeWhile_append_dropWhile, List.reverse_reverse]
    have hindent : ∀ c ∈ (s.reverse.takeWhile isIndent).reverse, c = ' ' ∨ c = '\t' :=
      fun c hc => (isIndent_iff c).mp (List.mem_takeWhile_imp (List.mem_reverse.mp hc))
    generalize (s.reverse.dropWhile isIndent).reverse = most at h hsplit
    dsimp only at h
    split at h
    · rename_i hlast
      obtain rfl := List.getLast?_eq_none_iff.mp hlast
      split at h
      · rename_i hfresh
        obtain rfl := Option.some.inj h
        exact ⟨_, hsplit, hindent, Or.inl ⟨rfl, hfresh⟩⟩
      · cases h
    · rename_i c hlast
      split at h
      · rename_i hc
        obtain rfl := Option.some.inj h
        exact ⟨_, hsplit, hindent, Or.inr (hc ▸ hlast)⟩
      · cases h
  · rintro ⟨indent, rfl, hindent, hfront⟩
    have hstop : ∀ c ∈ front.reverse.head?, isIndent c = false := by
      intro c hc
      rw [List.head?_reverse] at hc
      rcases hfront with ⟨rfl, _⟩ | hfront
      · cases hc
      · rw [hfront] at hc
        cases hc
        rfl
    have hdrop : ((front ++ indent).reverse.dropWhile isIndent).reverse = front := by
      rw [List.reverse_append, Text.dropWhile_run _ hstop, List.reverse_reverse]
      exact fun c hc => (isIndent_iff c).mpr (hindent c (List.mem_reverse.mp hc))
    rw [hdrop]
    rcases hfront with ⟨rfl, rfl⟩ | hfront
    · rfl
    · simp [hfront]

theorem dropTrailing?_eq_some_iff (final : Bool) (s back : List Char) :
    dropTrailing? final s = some back ↔
      ∃ blanks, (∀ c ∈ blanks, c = ' ' ∨ c = '\t' ∨ c = '\r') ∧
        (s = blanks ++ '\n' :: back ∨ (s = blanks ∧ back = [] ∧ final = true)) := by
  unfold dropTrailing?
  constructor
  · intro h
    have hsplit := (List.takeWhile_append_dropWhile (p := isTrailing) (l := s)).symm
    refine ⟨s.takeWhile isTrailing,
      fun c hc => (isTrailing_iff c).mp (List.mem_takeWhile_imp hc), ?_⟩
    split at h
    · rename_i hrest
      rw [hrest, List.append_nil] at hsplit
      split at h
      · rename_i hfinal
        exact Or.inr ⟨hsplit, (Option.some.inj h).symm, hfinal⟩
      · cases h
    · rename_i c rest hrest
      split at h
      · rename_i hc
        obtain rfl := Option.some.inj h
        left
        rw [← hc, ← hrest]
        exact hsplit
      · cases h
  · rintro ⟨blanks, hblanks, hs⟩
    have hall : ∀ c ∈ blanks, isTrailing c = true :=
      fun c hc => (isTrailing_iff c).mpr (hblanks c hc)
    rcases hs with rfl | ⟨rfl, rfl, rfl⟩
    · rw [Text.dropWhile_run hall (by rintro c ⟨⟩; rfl)]
      rfl
    · rw [List.dropWhile_eq_nil_iff.mpr hall]
      rfl

theorem aloneOnLine?_eq_some_iff (fresh : Bool) (before : List Char) (tag : Tag)
    (after : List Char) (final : Bool) (front back : List Char) :
    aloneOnLine? fresh before tag after final = some (front, back) ↔
      tag.kind ≠ .value ∧ dropIndent? fresh before = some front ∧
        dropTrailing? final after = some back := by
  unfold aloneOnLine?
  by_cases hkind : tag.kind = .value
  · rw [if_pos hkind]
    exact ⟨nofun, fun h => absurd hkind h.1⟩
  · rw [if_neg hkind]
    cases dropIndent? fresh before with
    | none => exact ⟨nofun, fun h => nomatch h.2.1⟩
    | some front' =>
      cases dropTrailing? final after with
      | none => exact ⟨nofun, fun h => nomatch h.2.2⟩
      | some back' => simp [hkind]

/-- **How far a text is gone through**: `past` is behind and ends where a line starts when `fresh`
is set and otherwise with the tag that ends at `prev`; `gap` is the text up to the next tag. -/
structure Reached (s past gap : List Char) (rest : List (Tag × List Char)) (prev : Nat)
    (fresh : Bool) : Prop where
  text : s = past ++ (gap ++ flatTags rest)
  prev_le : prev ≤ past.length
  line : fresh = true → rest ≠ [] → past = [] ∨ past.getLast? = some '\n'
  tag : fresh = false → prev = past.length ∧ ∃ c, past.getLast? = some c ∧ c ≠ '\n'
  is_tag : ∀ p ∈ rest, p.1.Matches

section Reached
variable {s past gap after : List Char} {tag : Tag} {rest : List (Tag × List Char)} {prev : Nat}
  {fresh : Bool} (h : Reached s past gap ((tag, after) :: rest) prev fresh)
include h

theorem Reached.take_start : s.take (past.length + gap.length) = past ++ gap := by
  rw [h.text, ← List.append_assoc, ← List.length_append, List.take_left]

theorem Reached.drop_stop :
    s.drop (past.length + gap.length + tag.source.length) = after ++ flatTags rest := by
  have htext : s = past ++ gap ++ tag.source ++ (after ++ flatTags rest) := by
    rw [h.text, flatTags, List.flatMap_cons]
    simp only [List.append_assoc, flatTags]
  rw [htext, ← List.length_append, ← List.length_append, List.drop_left]

/-- The indent that is dropped is what stands before the tag on its line. -/
theorem Reached.lineBefore_eq {front : List Char} (hdrop : dropIndent? fresh gap = some front) :
    gap = front ++ lineBefore s (past.length + gap.length) ∧
      ∀ c ∈ lineBefore s (past.length + gap.length), c = ' ' ∨ c = '\t' := by
  obtain ⟨indent, hgap, hindent, hfront⟩ := (dropIndent?_eq_some_iff _ _ _).mp hdrop
  have hline : lineBefore s (past.length + gap.length) = indent := by
    refine Template.lineBefore_eq (past ++ front) ?_ ?_ ?_
    · rw [h.take_start, hgap, List.append_assoc]
    · intro hmem
      exact absurd (hindent _ hmem) (by decide)
    · rcases hfront with ⟨rfl, hfresh⟩ | hlast
      · rw [List.append_nil]
        exact h.line hfresh (by simp)
      · right
        rw [List.getLast?_append, hlast]
        rfl
  rw [hline]
  exact ⟨hgap, hindent⟩

/-- A line of indent starts in the gap: further back stands the tag in front, or a line feed. -/
theorem Reached.past_le {head line : List Char} (htake : past ++ gap = head ++ line)
    (hbehind : prev ≤ head.length) (hindent : ∀ c ∈ line, c = ' ' ∨ c = '\t') :
    past.length ≤ head.length := by
  cases fresh with
  | false =>
    have hprev := (h.tag rfl).1
    omega
  | true =>
    by_contra hlt
    obtain ⟨line', hpast⟩ : head <+: past :=
      List.prefix_of_prefix_length_le (List.prefix_append head line)
        (htake ▸ List.prefix_append past gap) (by omega)
    have hne : line' ≠ [] := by
      rintro rfl
      rw [← hpast, List.append_nil] at hlt
      exact hlt (le_refl _)
    have hline : line = line' ++ gap := by
      rw [← hpast, List.append_assoc, List.append_cancel_left_eq] at htake
      exact htake.symm
    have hlast : line'.getLast? = some '\n' := by
      rw [← List.getLast?_append_of_ne_nil head hne, hpast]
      rcases h.line rfl (by simp) with hnil | hlast
      · rw [hnil] at hpast
        exact absurd (List.append_eq_nil_iff.mp hpast).2 hne
      · exact hlast
    have hmem : '\n' ∈ line := by
      rw [hline]
      exact List.mem_append_left gap (List.mem_of_getLast? hlast)
    exact absurd (hindent '\n' hmem) (by decide)

/-- What stands before the tag on its line is dropped when it is all indent and no tag stands on the
line in front. -/
theorem Reached.dropIndent?_isSome
    (hbehind : prev ≤ past.length + gap.length - (lineBefore s (past.length + gap.length)).length)
    (hindent : ∀ c ∈ lineBefore s (past.length + gap.length), c = ' ' ∨ c = '\t') :
    ∃ front, dropIndent? fresh gap = some front := by
  obtain ⟨head, htake, hhead⟩ := take_eq_lineBefore s (past.length + gap.length)
  generalize lineBefore s (past.length + gap.length) = line at hbehind hindent htake
  rw [h.take_start] at htake
  have hlength : past.length + gap.length = head.length + line.length := by
    rw [← List.length_append, htake, List.length_append]
  obtain ⟨front, rfl⟩ : past <+: head :=
    List.prefix_of_prefix_length_le (htake ▸ List.prefix_append past gap)
      (List.prefix_append head line) (h.past_le htake (by omega) hindent)
  rw [List.append_assoc, List.append_cancel_left_eq] at htake
  refine ⟨front, (dropIndent?_eq_some_iff _ _ _).mpr ⟨line, htake, hindent, ?_⟩⟩
  by_cases hfront : front = []
  · left
    refine ⟨hfront, ?_⟩
    by_contra hstale
    obtain ⟨_, c, hlast, hne⟩ := h.tag (eq_false_of_ne_true hstale)
    rw [hfront, List.append_nil] at hhead
    rcases hhead with rfl | hhead
    · cases hlast
    · rw [hhead] at hlast
      exact hne (Option.some.inj hlast).symm
  · right
    rcases hhead with hhead | hhead
    · exact absurd (List.append_eq_nil_iff.mp hhead).2 hfront
    · rwa [List.getLast?_append_of_ne_nil past hfront] at hhead

/-- The blanks that are dropped are what stands behind the tag on its line. -/
theorem Reached.lineAfter_eq {back : List Char}
    (hdrop : dropTrailing? rest.isEmpty after = some back) :
    (∀ c ∈ lineAfter s (past.length + gap.length + tag.source.length),
      c = ' ' ∨ c = '\t' ∨ c = '\r') ∧
      (after = lineAfter s (past.length + gap.length + tag.source.length) ++ '\n' :: back ∨
        (after = lineAfter s (past.length + gap.length + tag.source.length) ∧ back = [] ∧
          rest = [])) := by
  obtain ⟨blanks, hblanks, hafter⟩ := (dropTrailing?_eq_some_iff _ _ _).mp hdrop
  have hno : '\n' ∉ blanks := fun hmem => absurd (hblanks _ hmem) (by decide)
  rcases hafter with rfl | ⟨rfl, rfl, hfinal⟩
  · have hline : lineAfter s (past.length + gap.length + tag.source.length) = blanks := by
      refine Template.lineAfter_eq ('\n' :: back ++ flatTags rest) ?_ hno (Or.inr rfl)
      rw [h.drop_stop, List.append_assoc]
    rw [hline]
    exact ⟨hblanks, Or.inl rfl⟩
  · obtain rfl := List.isEmpty_iff.mp hfinal
    have hline : lineAfter s (past.length + gap.length + tag.source.length) = after := by
      refine Template.lineAfter_eq [] ?_ hno (Or.inl rfl)
      rw [h.drop_stop]
      rfl
    rw [hline]
    exact ⟨hblanks, Or.inr ⟨rfl, rfl, rfl⟩⟩

/-- What stands behind the tag on its line is dropped when it is all blank: the line then ends
before the next tag starts. -/
theorem Reached.dropTrailing?_isSome
    (htrailing : ∀ c ∈ lineAfter s (past.length + gap.length + tag.source.length),
      c = ' ' ∨ c = '\t' ∨ c = '\r') :
    ∃ back, dropTrailing? rest.isEmpty after = some back := by
  rw [lineAfter, h.drop_stop] at htrailing
  by_cases hmem : '\n' ∈ after
  · obtain ⟨blanks, back, rfl, hno⟩ := List.eq_append_cons_of_mem hmem
    refine ⟨back, (dropTrailing?_eq_some_iff _ _ _).mpr ⟨blanks, ?_, Or.inl rfl⟩⟩
    rwa [List.append_assoc, Text.takeWhile_run] at htrailing
    · exact fun c hc => decide_eq_true fun he => hno (he ▸ hc)
    · rintro c ⟨⟩
      rfl
  · have hall : ∀ c ∈ after, decide (c ≠ '\n') = true :=
      fun c hc => decide_eq_true fun he => hmem (he ▸ hc)
    rw [List.takeWhile_append_of_pos hall] at htrailing
    refine ⟨[], (dropTrailing?_eq_some_iff _ _ _).mpr
      ⟨after, fun c hc => htrailing c (List.mem_append_left _ hc), Or.inr ⟨rfl, rfl, ?_⟩⟩⟩
    -- a tag behind would put its brace on the line
    cases rest with
    | nil => rfl
    | cons p rest =>
      obtain ⟨source, hsource⟩ := List.head?_eq_some_iff.mp
        (h.is_tag p (by simp)).ends.1
      have hbrace : '\x7b' ∈ (flatTags (p :: rest)).takeWhile (· ≠ '\n') := by
        rw [flatTags, List.flatMap_cons, hsource]
        simp
      exact absurd (htrailing _ (List.mem_append_right _ hbrace)) (by decide)

/-- **A tag is found alone on its line exactly when it is so in the whole text.** -/
theorem Reached.alone_iff :
    Mark.Alone s ⟨prev, past.length + gap.length, tag⟩ ↔
      ∃ front back, aloneOnLine? fresh gap tag after rest.isEmpty = some (front, back) := by
  constructor
  · intro halone
    obtain ⟨front, hfront⟩ := h.dropIndent?_isSome halone.behind halone.indent
    obtain ⟨back, hback⟩ := h.dropTrailing?_isSome halone.trailing
    refine ⟨front, back, ?_⟩
    rw [aloneOnLine?, if_neg halone.is_section, hfront, hback]
  · rintro ⟨front, back, hfound⟩
    obtain ⟨hkind, hfront, hback⟩ := (aloneOnLine?_eq_some_iff _ _ _ _ _ _ _).mp hfound
    obtain ⟨hgap, hindent⟩ := h.lineBefore_eq hfront
    refine ⟨hkind, ?_, hindent, (h.lineAfter_eq hback).1⟩
    have hprev := h.prev_le
    have hlength := congrArg List.length hgap
    rw [List.length_append] at hlength
    rw [Mark.lineStart]
    dsimp only
    omega

/-- The place behind a tag. -/
theorem Reached.behind_tag :
    Reached s (past ++ gap ++ tag.source) after rest
      (past.length + gap.length + tag.source.length) false where
  text := by
    rw [h.text, flatTags, List.flatMap_cons]
    simp only [List.append_assoc, flatTags]
  prev_le := by simp only [List.length_append, le_refl]
  line := nofun
  tag := by
    refine fun _ => ⟨by simp only [List.length_append], '\x7d', ?_, by decide⟩
    rw [List.getLast?_append, (h.is_tag (tag, after) List.mem_cons_self).ends.2]
    rfl
  is_tag := fun p hp => h.is_tag p (List.mem_cons_of_mem _ hp)

/-- The place behind the line of a tag. -/
theorem Reached.behind_line {blanks back : List Char} (hafter : after = blanks ++ '\n' :: back) :
    Reached s (past ++ gap ++ tag.source ++ (blanks ++ ['\n'])) back rest
      (past.length + gap.length + tag.source.length) true where
  text := by
    rw [h.text, flatTags, List.flatMap_cons, hafter]
    simp only [List.append_assoc, flatTags, List.cons_append, List.nil_append]
  prev_le := by
    simp only [List.length_append]
    omega
  line := by
    refine fun _ _ => Or.inr ?_
    rw [← List.append_assoc, List.getLast?_concat]
  tag := nofun
  is_tag := fun p hp => h.is_tag p (List.mem_cons_of_mem _ hp)

end Reached

/-! ### What all tags take -/

/-- The marks of later tags do not reach back in front of the tag before them. -/
theorem le_of_mem_marksFrom {rest : List (Tag × List Char)} {prev start : Nat} {m : Mark}
    (h : m ∈ marksFrom prev start rest) (hle : prev ≤ start) : prev ≤ m.prev := by
  induction rest generalizing prev start with
  | nil => cases h
  | cons p rest ih =>
    rcases List.mem_cons.mp h with rfl | h
    · exact le_refl _
    · have := ih h (by omega)
      omega

/-- **Tags take nothing in front of the tag before them.** -/
theorem le_of_taken {s : List Char} {rest : List (Tag × List Char)} {prev start i : Nat}
    (h : Taken s (marksFrom prev start rest) i) (hle : prev ≤ start) : prev ≤ i := by
  obtain ⟨m, hm, halone, hi⟩ := h
  have hprev := le_of_mem_marksFrom hm hle
  have hbehind := halone.behind
  have hstart : m.lineStart s ≤ m.start := Nat.sub_le _ _
  have hstop : m.start ≤ m.stop := Nat.le_add_right _ _
  omega

theorem taken_cons_iff (s : List Char) (m : Mark) (ms : List Mark) (i : Nat) :
    Taken s (m :: ms) i ↔ m.Takes s i ∨ Taken s ms i := by
  simp only [Taken, List.mem_cons, exists_eq_or_imp]

theorem flat_cons (before : List Char) (tag : Tag) (c : Cut) :
    flat (before, (tag, c.1) :: c.2) = before ++ (tag.source ++ flat c) := by
  simp only [flat, flatTags, List.flatMap_cons, List.append_assoc]

section Step
variable {s past gap after : List Char} {tag : Tag} {rest : List (Tag × List Char)} {prev : Nat}
  {fresh : Bool} {ms : List Mark}
  (hlater : ∀ i, Taken s ms i → past.length + gap.length + tag.source.length ≤ i)
include hlater

/-- A tag itself stays, whatever becomes of its line. -/
theorem kept_source :
    kept (Taken s (⟨prev, past.length + gap.length, tag⟩ :: ms)) (past.length + gap.length)
      tag.source = tag.source := by
  apply kept_eq_self
  intro i hle hlt hi
  rcases (taken_cons_iff _ _ _ _).mp hi with ⟨_, hi⟩ | hi
  · simp only [Mark.stop] at hi
    omega
  · have := hlater i hi
    omega

/-- Around a tag that is not alone on its line nothing is taken. -/
theorem kept_around (halone : ¬ Mark.Alone s ⟨prev, past.length + gap.length, tag⟩)
    (behind : List Char) :
    kept (Taken s (⟨prev, past.length + gap.length, tag⟩ :: ms)) past.length gap = gap ∧
      kept (Taken s (⟨prev, past.length + gap.length, tag⟩ :: ms))
          (past.length + gap.length + tag.source.length) behind =
        kept (Taken s ms) (past.length + gap.length + tag.source.length) behind := by
  have hiff : ∀ i, Taken s (⟨prev, past.length + gap.length, tag⟩ :: ms) i ↔ Taken s ms i := by
    intro i
    rw [taken_cons_iff]
    exact ⟨fun hi => hi.resolve_left fun hi => halone hi.1, Or.inr⟩
  refine ⟨kept_eq_self fun i _ hlt hi => ?_, kept_congr fun i _ => hiff i⟩
  have := hlater i ((hiff i).mp hi)
  omega

variable (h : Reached s past gap ((tag, after) :: rest) prev fresh)
  (halone : Mark.Alone s ⟨prev, past.length + gap.length, tag⟩)
include h halone

/-- The indent of a tag alone on its line is taken, and nothing else before the tag. -/
theorem kept_gap {front : List Char} (hfront : dropIndent? fresh gap = some front) :
    kept (Taken s (⟨prev, past.length + gap.length, tag⟩ :: ms)) past.length gap = front := by
  obtain ⟨hgap, -⟩ := h.lineBefore_eq hfront
  have hlength := congrArg List.length hgap
  rw [List.length_append] at hlength
  rw [congrArg (kept _ past.length) hgap, kept_append, kept_eq_self, kept_eq_nil, List.append_nil]
  · intro i hle hlt
    refine (taken_cons_iff _ _ _ _).mpr (Or.inl ⟨halone, Or.inl ?_⟩)
    simp only [Mark.lineStart]
    omega
  · intro i hle hlt hi
    rcases (taken_cons_iff _ _ _ _).mp hi with ⟨_, hi⟩ | hi
    · simp only [Mark.lineStart, Mark.stop] at hi
      omega
    · have := hlater i hi
      omega

omit hlater h in
/-- Behind a tag alone on its line the blanks are taken, and one character with them. -/
theorem kept_blanks {blanks : List Char} (hblanks : blanks.length ≤
      (lineAfter s (past.length + gap.length + tag.source.length)).length + 1) :
    kept (Taken s (⟨prev, past.length + gap.length, tag⟩ :: ms))
      (past.length + gap.length + tag.source.length) blanks = [] := by
  apply kept_eq_nil
  intro i hle hlt
  refine (taken_cons_iff _ _ _ _).mpr (Or.inl ⟨halone, Or.inr ?_⟩)
  simp only [Mark.stop]
  omega

omit hlater h halone in
/-- Nothing behind its line is taken by a tag. -/
theorem kept_behind {n : Nat} (hn : past.length + gap.length + tag.source.length
      + (lineAfter s (past.length + gap.length + tag.source.length)).length < n)
    (behind : List Char) :
    kept (Taken s (⟨prev, past.length + gap.length, tag⟩ :: ms)) n behind =
      kept (Taken s ms) n behind := by
  apply kept_congr
  intro i hle
  rw [taken_cons_iff]
  refine ⟨fun hi => hi.resolve_left ?_, Or.inr⟩
  rintro ⟨-, hi⟩
  simp only [Mark.stop] at hi
  omega

end Step

/-- **Taking out lines keeps what no tag takes.** -/
theorem flat_settle {s past gap : List Char} {rest : List (Tag × List Char)} {prev : Nat}
    {fresh : Bool} (h : Reached s past gap rest prev fresh) :
    flat (settle fresh gap rest) =
      kept (Taken s (marksFrom prev (past.length + gap.length) rest)) past.length
        (gap ++ flatTags rest) := by
  induction rest generalizing past gap prev fresh with
  | nil =>
    rw [kept_eq_self]
    · rfl
    · rintro i - - ⟨m, hm, -⟩
      cases hm
  | cons p rest ih =>
    obtain ⟨tag, after⟩ := p
    have hlater : ∀ i, Taken s (marksFrom (past.length + gap.length + tag.source.length)
        (past.length + gap.length + tag.source.length + after.length) rest) i →
        past.length + gap.length + tag.source.length ≤ i :=
      fun i hi => le_of_taken hi (Nat.le_add_right _ _)
    have htext : gap ++ flatTags ((tag, after) :: rest)
        = gap ++ (tag.source ++ (after ++ flatTags rest)) := by
      rw [flatTags, List.flatMap_cons, List.append_assoc]
      rfl
    rw [marksFrom, htext, kept_append, kept_append, kept_source hlater]
    by_cases halone : Mark.Alone s ⟨prev, past.length + gap.length, tag⟩
    · obtain ⟨front, back, hfound⟩ := h.alone_iff.mp halone
      obtain ⟨-, hfront, hback⟩ := (aloneOnLine?_eq_some_iff _ _ _ _ _ _ _).mp hfound
      rw [settle, hfound]
      dsimp only
      rw [flat_cons, kept_gap hlater h halone hfront]
      congr 2
      rcases (h.lineAfter_eq hback).2 with hafter | ⟨hafter, rfl, rfl⟩
      · generalize hline :
          lineAfter s (past.length + gap.length + tag.source.length) = line at hafter
        have hsplit : after ++ flatTags rest = (line ++ ['\n']) ++ (back ++ flatTags rest) := by
          rw [hafter]
          simp only [List.append_assoc, List.cons_append, List.nil_append]
        have hlength : past.length + gap.length + tag.source.length + after.length =
            past.length + gap.length + tag.source.length + (line ++ ['\n']).length
              + back.length := by
          rw [hafter]
          simp only [List.length_append, List.length_cons, List.length_nil]
          omega
        rw [hsplit, kept_append, kept_blanks halone (by rw [hline]; simp), List.nil_append,
          kept_behind (by rw [hline]; simp), ih (h.behind_line hafter), hlength]
        simp only [List.length_append]
      · rw [kept_append, kept_blanks halone (by rw [← hafter]; omega)]
        rfl
    · have hnone : aloneOnLine? fresh gap tag after rest.isEmpty = none := by
        by_contra hsome
        obtain ⟨⟨front, back⟩, hfound⟩ := Option.ne_none_iff_exists'.mp hsome
        exact halone (h.alone_iff.mpr ⟨front, back, hfound⟩)
      obtain ⟨hgap, hbehind⟩ := kept_around hlater halone (after ++ flatTags rest)
      rw [settle, hnone]
      dsimp only
      rw [flat_cons, ih h.behind_tag, hgap, hbehind]
      simp only [List.length_append]

/-- **The pieces of a cut text are the stripped text.** -/
theorem flat_cut (s : List Char) : flat (cut s) = stripped s := by
  have hwhole := (leftmost_scan s).flat_eq
  have h : Reached s [] (scan s).1 (scan s).2 0 true :=
    ⟨hwhole.symm, le_refl _, fun _ _ => Or.inl rfl, nofun, (leftmost_scan s).tags_match⟩
  rw [cut, flat_settle h, stripped, marks, List.length_nil, Nat.zero_add]
  exact congrArg _ hwhole

end FlatFile.Template
