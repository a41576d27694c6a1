import FlatFile.Proofs.TextLaws
import FlatFile.Schema.Cursor
import FlatFile.Schema.Line

/-!
# The grammar of schema lines

`tokens` cuts a line by looking one character back and one ahead, and `Cursor.check` then reads two
of the tokens as integers.  This module says which lines the two accept together, without either of
them: a line has a **shape** (`Shape`) when it is a label, a space, an index, a space and an index,
where the label ends in a character that is not blank and holds no boundary of its own.

The cutting is undone piece by piece.  `tokensFrom_append` puts one token back in front of a text,
`tokensFrom_eq_cons_cons` takes one off, and a text without boundary is one token
(`tokensFrom_eq_singleton_iff`).  Hence a shape is the same thing as three tokens of which the last
two are indices (`shape_iff_tokens`), which also makes the shape of a line unique.  An index never
carries a sign: a token behind a boundary starts with a digit.
-/

namespace FlatFile.Schema
open Text

/-! ### Boundaries -/

/-- Somewhere in the text a space stands right after a character that is not blank and right
before a digit. -/
def HasBoundary (s : List Char) : Prop :=
  ∃ before c d after,
    s = before ++ c :: ' ' :: d :: after ∧ isBlank c = false ∧ isDigit d = true

/-- The text is not empty and its last character is not blank. -/
def EndsSolid (s : List Char) : Prop := ∃ before c, s = before ++ [c] ∧ isBlank c = false

/-- Whether a character that is not blank stands right before the end of a text; `solid` says it
of the place before its start. -/
def solidAfter (solid : Bool) : List Char → Bool
  | [] => solid
  | c :: rest => solidAfter (!isBlank c) rest

theorem solidAfter_concat (solid : Bool) (s : List Char) (c : Char) :
    solidAfter solid (s ++ [c]) = !isBlank c := by
  induction s generalizing solid with
  | nil => rfl
  | cons b s ih => exact ih _

theorem solidAfter_false_iff (s : List Char) : solidAfter false s = true ↔ EndsSolid s := by
  constructor
  · intro h
    rcases List.eq_nil_or_concat s with rfl | ⟨before, c, rfl⟩
    · cases h
    · rw [List.concat_eq_append, solidAfter_concat] at h
      exact ⟨before, c, List.concat_eq_append, by simpa using h⟩
  · rintro ⟨before, c, rfl, hc⟩
    rw [solidAfter_concat, hc]
    rfl

theorem endsSolid_of_solid {s : List Char} (hne : s ≠ []) (h : ∀ c ∈ s, isBlank c = false) :
    EndsSolid s := by
  rcases List.eq_nil_or_concat s with rfl | ⟨before, c, rfl⟩
  · exact absurd rfl hne
  · exact ⟨before, c, List.concat_eq_append, h c (by simp)⟩

theorem startsWithDigit_append {p : List Char} (hp : p ≠ []) (rest : List Char) :
    startsWithDigit (p ++ rest) = startsWithDigit p := by
  cases p with
  | nil => exact absurd rfl hp
  | cons c p => rfl

/-! ### Cutting a line and putting it together again -/

theorem tokensFrom_ne_nil (solid : Bool) (s : List Char) : tokensFrom solid s ≠ [] := by
  cases s with
  | nil => simp [tokensFrom]
  | cons c rest =>
    unfold tokensFrom
    split
    · simp
    · split <;> simp

theorem tokensFrom_boundary {rest : List Char} (h : startsWithDigit rest = true) :
    tokensFrom true (' ' :: rest) = [] :: tokensFrom false rest := by
  simp [tokensFrom, h]

/-- A character that is no boundary joins the first token of what follows. -/
theorem tokensFrom_cons {solid : Bool} {c : Char} {rest : List Char}
    (h : ¬ (c = ' ' ∧ solid = true ∧ startsWithDigit rest = true)) {t : List Char}
    {ts : List (List Char)} (hrest : tokensFrom (!isBlank c) rest = t :: ts) :
    tokensFrom solid (c :: rest) = (c :: t) :: ts := by
  rw [tokensFrom, if_neg h, hrest]

/-- The first character of a text either is a boundary or joins the first token of the rest. -/
theorem tokensFrom_cons_cases (solid : Bool) (c : Char) (rest : List Char) :
    (c = ' ' ∧ solid = true ∧ startsWithDigit rest = true ∧
      tokensFrom solid (c :: rest) = [] :: tokensFrom false rest) ∨
    (¬ (c = ' ' ∧ solid = true ∧ startsWithDigit rest = true) ∧
      ∃ t ts, tokensFrom (!isBlank c) rest = t :: ts ∧
        tokensFrom solid (c :: rest) = (c :: t) :: ts) := by
  by_cases h : c = ' ' ∧ solid = true ∧ startsWithDigit rest = true
  · obtain ⟨rfl, rfl, hd⟩ := h
    exact Or.inl ⟨rfl, rfl, hd, tokensFrom_boundary hd⟩
  · obtain ⟨t, ts, hrest⟩ := List.exists_cons_of_ne_nil (tokensFrom_ne_nil (!isBlank c) rest)
    exact Or.inr ⟨h, t, ts, hrest, tokensFrom_cons h hrest⟩

theorem eq_of_tokensFrom_singleton {solid : Bool} {s t : List Char}
    (h : tokensFrom solid s = [t]) : s = t := by
  induction s generalizing solid t with
  | nil => exact (List.cons.inj h).1
  | cons c rest ih =>
    rcases tokensFrom_cons_cases solid c rest with ⟨_, _, _, htok⟩ | ⟨_, u, us, hrest, htok⟩
    · rw [htok] at h
      exact absurd (List.cons.inj h).2 (tokensFrom_ne_nil false rest)
    · rw [htok] at h
      obtain ⟨rfl, rfl⟩ := List.cons.inj h
      rw [ih hrest]

/-- **Putting a token in front.**  A token that ends in a character that is not blank, a space and a
text that starts with a digit are cut at that space. -/
theorem tokensFrom_append {solid : Bool} {p rest : List Char} (hp : tokensFrom solid p = [p])
    (hsolid : solidAfter solid p = true) (hrest : startsWithDigit rest = true) :
    tokensFrom solid (p ++ ' ' :: rest) = p :: tokensFrom false rest := by
  induction p generalizing solid with
  | nil =>
    have hs : solid = true := hsolid
    rw [hs]
    exact tokensFrom_boundary hrest
  | cons c p ih =>
    rcases tokensFrom_cons_cases solid c p with ⟨_, _, _, htok⟩ | ⟨hno, t, ts, hin, htok⟩
    · rw [htok] at hp
      exact absurd (List.cons.inj hp).1 (by simp)
    · rw [htok] at hp
      obtain ⟨hhead, rfl⟩ := List.cons.inj hp
      obtain rfl : t = p := (List.cons.inj hhead).2
      apply tokensFrom_cons _ (ih hin hsolid)
      -- what follows `c` starts as before, or with the space, which is no digit
      rintro ⟨hc, hs, hd⟩
      cases t with
      | nil => exact absurd (show isDigit ' ' = true from hd) (by decide)
      | cons d t => exact hno ⟨hc, hs, hd⟩

/-- **Taking a token off.**  Before a second token stands a space, between a character that is not
blank and a digit. -/
theorem tokensFrom_eq_cons_cons {solid : Bool} {s t u : List Char} {us : List (List Char)}
    (h : tokensFrom solid s = t :: u :: us) :
    ∃ rest, s = t ++ ' ' :: rest ∧ tokensFrom solid t = [t] ∧ solidAfter solid t = true ∧
      startsWithDigit rest = true ∧ tokensFrom false rest = u :: us := by
  induction s generalizing solid t with
  | nil => cases h
  | cons c s ih =>
    rcases tokensFrom_cons_cases solid c s with ⟨rfl, rfl, hd, htok⟩ | ⟨hno, t', ts, hin, htok⟩
    · rw [htok] at h
      obtain ⟨rfl, hrest⟩ := List.cons.inj h
      exact ⟨s, rfl, rfl, rfl, hd, hrest⟩
    · rw [htok] at h
      obtain ⟨rfl, rfl⟩ := List.cons.inj h
      obtain ⟨rest, rfl, ht, hsolid, hd, hrest⟩ := ih hin
      refine ⟨rest, rfl, tokensFrom_cons ?_ ht, hsolid, hd, hrest⟩
      rintro ⟨hc, hs, hdigit⟩
      cases t' with
      | nil => cases hdigit
      | cons d t' => exact hno ⟨hc, hs, hdigit⟩

/-- A text without spaces is one token. -/
theorem tokensFrom_of_no_space {s : List Char} (h : ' ' ∉ s) (solid : Bool) :
    tokensFrom solid s = [s] := by
  induction s generalizing solid with
  | nil => rfl
  | cons c s ih =>
    have hc : c ≠ ' ' := fun he => h (he ▸ List.mem_cons_self)
    exact tokensFrom_cons (fun hb => hc hb.1) (ih (fun hm => h (List.mem_cons_of_mem c hm)) _)

/-- A boundary leaves at least two tokens. -/
theorem two_le_length_tokensFrom (solid : Bool) {s : List Char} (h : HasBoundary s) :
    2 ≤ (tokensFrom solid s).length := by
  obtain ⟨before, c, d, after, rfl, hc, hd⟩ := h
  induction before generalizing solid with
  | nil =>
    -- `c` is not blank, so it is no boundary itself and the space behind it is one
    have hne : c ≠ ' ' := by rintro rfl; exact absurd hc (by decide)
    have hin : tokensFrom (!isBlank c) (' ' :: d :: after)
        = [] :: tokensFrom false (d :: after) := by
      rw [hc]
      exact tokensFrom_boundary hd
    rw [List.nil_append, tokensFrom_cons (fun hb => hne hb.1) hin, List.length_cons]
    exact Nat.succ_le_succ (List.length_pos_iff.mpr (tokensFrom_ne_nil false _))
  | cons b before ih =>
    rcases tokensFrom_cons_cases solid b (before ++ c :: ' ' :: d :: after)
      with ⟨_, _, _, htok⟩ | ⟨_, t, ts, hin, htok⟩
    · rw [List.cons_append, htok, List.length_cons]
      exact Nat.succ_le_succ (List.length_pos_iff.mpr (tokensFrom_ne_nil false _))
    · have hlen := ih (!isBlank b)
      rw [hin] at hlen
      rw [List.cons_append, htok]
      exact hlen

/-- **A text is one token exactly when it has no boundary.** -/
theorem tokensFrom_eq_singleton_iff (s : List Char) :
    tokensFrom false s = [s] ↔ ¬ HasBoundary s := by
  constructor
  · intro h hb
    have hlen := two_le_length_tokensFrom false hb
    rw [h] at hlen
    exact absurd hlen (by simp)
  · intro hb
    obtain ⟨t, ts, ht⟩ := List.exists_cons_of_ne_nil (tokensFrom_ne_nil false s)
    cases ts with
    | nil => rw [ht, eq_of_tokensFrom_singleton ht]
    | cons u us =>
      -- a second token would have a boundary before it
      obtain ⟨rest, hs, _, hsolid, hd, _⟩ := tokensFrom_eq_cons_cons ht
      obtain ⟨before, c, rfl, hc⟩ := (solidAfter_false_iff t).mp hsolid
      cases rest with
      | nil => cases hd
      | cons d after => exact absurd ⟨before, c, d, after, by simp [hs], hc, hd⟩ hb

/-! ### The shape of a line -/

/-- **A well-shaped line**: a label, a space, an index, a space and an index.  The label ends in a
character that is not blank, and no space of it stands between such a character and a digit. -/
structure Shape (line label first last : String) : Prop where
  text : line = label ++ " " ++ first ++ " " ++ last
  solid : EndsSolid label.toList
  uncut : ¬ HasBoundary label.toList
  first_index : IsIndex first.toList
  last_index : IsIndex last.toList

theorem tokens_eq_iff_chars (line : String) (ts : List String) :
    tokens line = ts ↔ tokensFrom false line.toList = ts.map String.toList := by
  unfold tokens
  constructor
  · rintro rfl
    simp [List.map_map, Function.comp_def]
  · intro h
    rw [h]
    simp [List.map_map, Function.comp_def]

theorem tokens_eq_iff (line label first last : String) :
    tokens line = [label, first, last] ↔
      tokensFrom false line.toList = [label.toList, first.toList, last.toList] :=
  tokens_eq_iff_chars line [label, first, last]

theorem startsWithDigit_of_isIndex {s : List Char} (h : IsIndex s) : startsWithDigit s = true := by
  cases s with
  | nil => exact absurd rfl h.ne_nil
  | cons c s => exact h.digits c List.mem_cons_self

theorem Shape.toList {line label first last : String} (h : Shape line label first last) :
    line.toList = label.toList ++ ' ' :: (first.toList ++ ' ' :: last.toList) := by
  rw [h.text]
  simp

/-- **A shape is three tokens, the last two of them indices.** -/
theorem shape_iff_tokens (line label first last : String) :
    Shape line label first last ↔
      tokens line = [label, first, last] ∧ IsIndex first.toList ∧ IsIndex last.toList := by
  rw [tokens_eq_iff]
  constructor
  · intro h
    refine ⟨?_, h.first_index, h.last_index⟩
    have hlast : tokensFrom false last.toList = [last.toList] :=
      tokensFrom_of_no_space (space_not_mem_of_solid h.last_index.solid) _
    have hfirst : tokensFrom false first.toList = [first.toList] :=
      tokensFrom_of_no_space (space_not_mem_of_solid h.first_index.solid) _
    have hindices : tokensFrom false (first.toList ++ ' ' :: last.toList)
        = [first.toList, last.toList] := by
      rw [tokensFrom_append hfirst
        ((solidAfter_false_iff _).mpr
          (endsSolid_of_solid h.first_index.ne_nil h.first_index.solid))
        (startsWithDigit_of_isIndex h.last_index), hlast]
    have hdigit : startsWithDigit (first.toList ++ ' ' :: last.toList) = true := by
      rw [startsWithDigit_append h.first_index.ne_nil]
      exact startsWithDigit_of_isIndex h.first_index
    rw [h.toList, tokensFrom_append ((tokensFrom_eq_singleton_iff _).mpr h.uncut)
      ((solidAfter_false_iff _).mpr h.solid) hdigit, hindices]
  · rintro ⟨htok, hfirst, hlast⟩
    obtain ⟨rest, hline, hlabel, hsolid, _, hrest⟩ := tokensFrom_eq_cons_cons htok
    obtain ⟨rest', hindices, _, _, _, hend⟩ := tokensFrom_eq_cons_cons hrest
    obtain rfl := eq_of_tokensFrom_singleton hend
    refine ⟨?_, (solidAfter_false_iff _).mp hsolid, (tokensFrom_eq_singleton_iff _).mp hlabel,
      hfirst, hlast⟩
    apply String.toList_inj.mp
    rw [hline, hindices]
    simp

/-- A line has at most one shape. -/
theorem Shape.unique {line label first last label' first' last' : String}
    (h : Shape line label first last) (h' : Shape line label' first' last') :
    label = label' ∧ first = first' ∧ last = last' := by
  have htok := ((shape_iff_tokens _ _ _ _).mp h).1
  rw [((shape_iff_tokens _ _ _ _).mp h').1] at htok
  simp only [List.cons.injEq, and_true] at htok
  exact ⟨htok.1.symm, htok.2.1.symm, htok.2.2.symm⟩

/-- Of three tokens, the last two start with a digit. -/
theorem startsWithDigit_of_tokens {line label first last : String}
    (h : tokens line = [label, first, last]) :
    startsWithDigit first.toList = true ∧ startsWithDigit last.toList = true := by
  rw [tokens_eq_iff] at h
  obtain ⟨rest, _, _, _, hfirst, hrest⟩ := tokensFrom_eq_cons_cons h
  obtain ⟨rest', hindices, _, hsolid, hlast, hend⟩ := tokensFrom_eq_cons_cons hrest
  obtain rfl := eq_of_tokensFrom_singleton hend
  obtain ⟨before, c, hfc, _⟩ := (solidAfter_false_iff _).mp hsolid
  rw [hindices, startsWithDigit_append (by simp [hfc])] at hfirst
  exact ⟨hfirst, hlast⟩

/-! ### Checking a line -/

/-- A start lies before the end of the last accepted column; before the first column nothing
does. -/
def Cursor.Behind (cursor : Cursor) (start : Nat) : Prop :=
  ∃ e, cursor.previousEnd = some e ∧ start < e

theorem Cursor.isBehind_iff (cursor : Cursor) (start : Nat) :
    cursor.isBehind (start : Int) = true ↔ cursor.Behind start := by
  unfold Cursor.isBehind Cursor.Behind
  cases cursor.previousEnd with
  | none => simp
  | some e => simp

theorem readInt64?_of_isIndex {s : List Char} (h : IsIndex s) :
    readInt64? s = some (digitsValue s : Int) := by
  cases s with
  | nil => exact absurd rfl h.ne_nil
  | cons c s =>
    exact (readInt64?_of_startsWithDigit (h.digits c List.mem_cons_self) s _).mpr ⟨h, rfl⟩

theorem isIndex_of_readInt64? {s : List Char} (hd : startsWithDigit s = true) {i : Int}
    (h : readInt64? s = some i) : IsIndex s := by
  cases s with
  | nil => cases hd
  | cons c s => exact ((readInt64?_of_startsWithDigit hd s i).mp h).1

/-- What the check says of a well-shaped line. -/
theorem check_of_shape {line label first last : String} (h : Shape line label first last)
    (cursor : Cursor) (n : Nat) :
    cursor.check n line (tokens line) =
      if cursor.isBehind (digitsValue first.toList) then .error (.invalidStart n line)
      else if digitsValue last.toList < digitsValue first.toList then
        .error (.invalidRange n line)
      else .ok (⟨String.ofList (trim label.toList), digitsValue first.toList,
        digitsValue last.toList⟩, ⟨some (digitsValue last.toList)⟩) := by
  rw [((shape_iff_tokens _ _ _ _).mp h).1]
  simp only [Cursor.check, readInt64?_of_isIndex h.first_index, readInt64?_of_isIndex h.last_index]
  -- both values are natural numbers, so of the range test only the comparison is left
  have hrange : ((digitsValue last.toList : Int) < (digitsValue first.toList : Int) ∨
      (digitsValue first.toList : Int) < 0 ∨ (digitsValue last.toList : Int) < 0) ↔
      digitsValue last.toList < digitsValue first.toList := by
    omega
  simp only [hrange, Int.toNat_natCast]

/-- Any other line is refused as a whole. -/
theorem check_of_no_shape {line : String} (h : ¬ ∃ label first last, Shape line label first last)
    (cursor : Cursor) (n : Nat) :
    cursor.check n line (tokens line) = .error (.invalidLine n line) := by
  unfold Cursor.check
  split
  · rename_i label first last htok
    -- behind a boundary no sign can stand, so both readings are of plain digits
    obtain ⟨hfirst, hlast⟩ := startsWithDigit_of_tokens htok
    split
    · rename_i s e hs he
      have hshape := (shape_iff_tokens line label first last).mpr
        ⟨htok, isIndex_of_readInt64? hfirst hs, isIndex_of_readInt64? hlast he⟩
      exact absurd ⟨label, first, last, hshape⟩ h
    · rfl
  · rfl

/-- **The four outcomes of the check**, each with what the line and the cursor are like then. -/
theorem check_cases (cursor : Cursor) (n : Nat) (line : String) :
    (cursor.check n line (tokens line) = .error (.invalidLine n line) ∧
      ¬ ∃ label first last, Shape line label first last) ∨
    ∃ label first last, Shape line label first last ∧
      ((cursor.check n line (tokens line) = .error (.invalidStart n line) ∧
          cursor.Behind (digitsValue first.toList)) ∨
        (cursor.check n line (tokens line) = .error (.invalidRange n line) ∧
          ¬ cursor.Behind (digitsValue first.toList) ∧
          digitsValue last.toList < digitsValue first.toList) ∨
        (cursor.check n line (tokens line)
            = .ok (⟨String.ofList (trim label.toList), digitsValue first.toList,
              digitsValue last.toList⟩, ⟨some (digitsValue last.toList)⟩) ∧
          ¬ cursor.Behind (digitsValue first.toList) ∧
          digitsValue first.toList ≤ digitsValue last.toList)) := by
  by_cases h : ∃ label first last, Shape line label first last
  · obtain ⟨label, first, last, h⟩ := h
    refine Or.inr ⟨label, first, last, h, ?_⟩
    rw [check_of_shape h, ← cursor.isBehind_iff]
    by_cases hb : cursor.isBehind (digitsValue first.toList) = true
    · exact Or.inl ⟨if_pos hb, hb⟩
    · rw [if_neg hb]
      by_cases hlt : digitsValue last.toList < digitsValue first.toList
      · exact Or.inr (Or.inl ⟨if_pos hlt, hb, hlt⟩)
      · exact Or.inr (Or.inr ⟨if_neg hlt, hb, Nat.le_of_not_lt hlt⟩)
  · exact Or.inl ⟨check_of_no_shape h cursor n, h⟩

theorem check_eq_invalidLine_iff (cursor : Cursor) (n : Nat) (line : String) :
    cursor.check n line (tokens line) = .error (.invalidLine n line) ↔
      ¬ ∃ label first last, Shape line label first last := by
  refine ⟨?_, fun h => check_of_no_shape h cursor n⟩
  intro hcheck
  rcases check_cases cursor n line with ⟨_, h⟩ | ⟨_, _, _, _, ⟨h, _⟩ | ⟨h, _⟩ | ⟨h, _⟩⟩
  · exact h
  · rw [hcheck] at h; cases h
  · rw [hcheck] at h; cases h
  · rw [hcheck] at h; cases h

theorem check_eq_invalidStart_iff (cursor : Cursor) (n : Nat) (line : String) :
    cursor.check n line (tokens line) = .error (.invalidStart n line) ↔
      ∃ label first last, Shape line label first last ∧
        cursor.Behind (digitsValue first.toList) := by
  constructor
  · intro hcheck
    rcases check_cases cursor n line with
      ⟨h, _⟩ | ⟨label, first, last, hshape, ⟨_, hb⟩ | ⟨h, _⟩ | ⟨h, _⟩⟩
    · rw [hcheck] at h; cases h
    · exact ⟨label, first, last, hshape, hb⟩
    · rw [hcheck] at h; cases h
    · rw [hcheck] at h; cases h
  · rintro ⟨label, first, last, h, hb⟩
    rw [check_of_shape h, if_pos ((cursor.isBehind_iff _).mpr hb)]

theorem check_eq_invalidRange_iff (cursor : Cursor) (n : Nat) (line : String) :
    cursor.check n line (tokens line) = .error (.invalidRange n line) ↔
      ∃ label first last, Shape line label first last ∧
        ¬ cursor.Behind (digitsValue first.toList) ∧
        digitsValue last.toList < digitsValue first.toList := by
  constructor
  · intro hcheck
    rcases check_cases cursor n line with
      ⟨h, _⟩ | ⟨label, first, last, hshape, ⟨h, _⟩ | ⟨_, hb, hlt⟩ | ⟨h, _⟩⟩
    · rw [hcheck] at h; cases h
    · rw [hcheck] at h; cases h
    · exact ⟨label, first, last, hshape, hb, hlt⟩
    · rw [hcheck] at h; cases h
  · rintro ⟨label, first, last, h, hb, hlt⟩
    rw [check_of_shape h, if_neg (fun hb' => hb ((cursor.isBehind_iff _).mp hb')), if_pos hlt]

theorem check_eq_ok_iff (cursor : Cursor) (n : Nat) (line : String) (p : Placement)
    (next : Cursor) :
    cursor.check n line (tokens line) = .ok (p, next) ↔
      ∃ label first last, Shape line label first last ∧
        ¬ cursor.Behind (digitsValue first.toList) ∧
        digitsValue first.toList ≤ digitsValue last.toList ∧
        p = ⟨String.ofList (trim label.toList), digitsValue first.toList,
          digitsValue last.toList⟩ ∧
        next = ⟨some (digitsValue last.toList)⟩ := by
  constructor
  · intro hcheck
    rcases check_cases cursor n line with
      ⟨h, _⟩ | ⟨label, first, last, hshape, ⟨h, _⟩ | ⟨h, _⟩ | ⟨h, hb, hle⟩⟩
    · rw [hcheck] at h; cases h
    · rw [hcheck] at h; cases h
    · rw [hcheck] at h; cases h
    · obtain ⟨rfl, rfl⟩ := Prod.mk.inj (Except.ok.inj (hcheck.symm.trans h))
      exact ⟨label, first, last, hshape, hb, hle, rfl, rfl⟩
  · rintro ⟨label, first, last, h, hb, hle, rfl, rfl⟩
    rw [check_of_shape h, if_neg (fun hb' => hb ((cursor.isBehind_iff _).mp hb')),
      if_neg (Nat.not_lt.mpr hle)]

/-- A text with a sign in front. -/
def Signed (s : String) : Prop := ∃ rest, s.toList = '+' :: rest ∨ s.toList = '-' :: rest

theorem not_signed_of_isIndex {s : String} (h : IsIndex s.toList) : ¬ Signed s := by
  rintro ⟨rest, hs | hs⟩
  · exact absurd (h.digits '+' (by simp [hs])) (by decide)
  · exact absurd (h.digits '-' (by simp [hs])) (by decide)

/-- Two ways of cutting a text at its first space agree. -/
theorem append_space_inj {a b c d : List Char} (h : a ++ ' ' :: b = c ++ ' ' :: d)
    (ha : ' ' ∉ a) (hc : ' ' ∉ c) : a = c ∧ b = d := by
  rcases List.append_eq_append_iff.mp h with ⟨x, rfl, hx⟩ | ⟨x, rfl, hx⟩
  · cases x with
    | nil => exact ⟨by simp, (List.cons.inj hx).2⟩
    | cons y x =>
      obtain rfl : ' ' = y := (List.cons.inj hx).1
      exact absurd (by simp) hc
  · cases x with
    | nil => exact ⟨by simp, (List.cons.inj hx).2.symm⟩
    | cons y x =>
      obtain rfl : ' ' = y := (List.cons.inj hx).1
      exact absurd (by simp) ha

/-- Cut at its last two spaces, a well-shaped line gives its indices. -/
theorem Shape.eq_of_no_space {line label first last label' first' last' : String}
    (h : Shape line label first last) (ht : line = label' ++ " " ++ first' ++ " " ++ last')
    (hfirst : ' ' ∉ first'.toList) (hlast : ' ' ∉ last'.toList) :
    first = first' ∧ last = last' := by
  have hlists := congrArg (fun s : String => s.toList.reverse) (h.text.symm.trans ht)
  have hfirst_of_index := space_not_mem_of_solid h.first_index.solid
  have hlast_of_index := space_not_mem_of_solid h.last_index.solid
  -- read backwards, both ways of cutting meet the same two spaces first
  have hrev : last.toList.reverse ++ ' ' :: (first.toList.reverse ++ ' ' :: label.toList.reverse)
      = last'.toList.reverse ++
        ' ' :: (first'.toList.reverse ++ ' ' :: label'.toList.reverse) := by
    simpa using hlists
  obtain ⟨hl, hrest⟩ := append_space_inj hrev (by simpa) (by simpa)
  obtain ⟨hf, _⟩ := append_space_inj hrest (by simpa) (by simpa)
  exact ⟨String.toList_inj.mp (List.reverse_inj.mp hf), String.toList_inj.mp (List.reverse_inj.mp hl)⟩

theorem check_of_signed {line label first last : String}
    (h : line = label ++ " " ++ first ++ " " ++ last) (hfirst : ' ' ∉ first.toList)
    (hlast : ' ' ∉ last.toList) (hsigned : Signed first ∨ Signed last) (cursor : Cursor)
    (n : Nat) : cursor.check n line (tokens line) = .error (.invalidLine n line) := by
  apply check_of_no_shape
  rintro ⟨label', first', last', hshape⟩
  obtain ⟨rfl, rfl⟩ := hshape.eq_of_no_space h hfirst hlast
  rcases hsigned with hs | hs
  · exact not_signed_of_isIndex hshape.first_index hs
  · exact not_signed_of_isIndex hshape.last_index hs

/-- **The check accepts exactly the line grammar.**  At any cursor, a line is refused as a whole
exactly when it has no shape; a well-shaped line is refused for its start exactly when that lies
before the previous end, and otherwise for its range exactly when it ends before it starts; every
other line is accepted with the placement its shape gives, and the cursor goes to its end.  The
shape is unique.  A line whose index carries a sign has no shape, so it is neither accepted nor
refused for its range. -/
theorem check_accepts_exactly_shapes (cursor : Cursor) (n : Nat) (line : String) :
    (cursor.check n line (tokens line) = .error (.invalidLine n line) ↔
      ¬ ∃ label first last, Shape line label first last) ∧
    (cursor.check n line (tokens line) = .error (.invalidStart n line) ↔
      ∃ label first last, Shape line label first last ∧
        cursor.Behind (digitsValue first.toList)) ∧
    (cursor.check n line (tokens line) = .error (.invalidRange n line) ↔
      ∃ label first last, Shape line label first last ∧
        ¬ cursor.Behind (digitsValue first.toList) ∧
        digitsValue last.toList < digitsValue first.toList) ∧
    (∀ p next, cursor.check n line (tokens line) = .ok (p, next) ↔
      ∃ label first last, Shape line label first last ∧
        ¬ cursor.Behind (digitsValue first.toList) ∧
        digitsValue first.toList ≤ digitsValue last.toList ∧
        p = ⟨String.ofList (trim label.toList), digitsValue first.toList,
          digitsValue last.toList⟩ ∧
        next = ⟨some (digitsValue last.toList)⟩) ∧
    (∀ label first last label' first' last', Shape line label first last →
      Shape line label' first' last' → label = label' ∧ first = first' ∧ last = last') ∧
    (∀ label first last, line = label ++ " " ++ first ++ " " ++ last → ' ' ∉ first.toList →
      ' ' ∉ last.toList → Signed first ∨ Signed last →
      cursor.check n line (tokens line) = .error (.invalidLine n line)) := by
  exact ⟨check_eq_invalidLine_iff cursor n line, check_eq_invalidStart_iff cursor n line,
    check_eq_invalidRange_iff cursor n line, check_eq_ok_iff cursor n line,
    fun _ _ _ _ _ _ h h' => h.unique h',
    fun _ _ _ h hfirst hlast hs => check_of_signed h hfirst hlast hs cursor n⟩

theorem shape_signed_word : Shape "2nd part -3 007 12" "2nd part -3" "007" "12" :=
  (shape_iff_tokens _ _ _ _).mpr (by decide)

/-- A word that looks like a signed index belongs to the label when two indices follow it, and makes
the line ill-shaped when it stands in the place of one. -/
theorem check_signed_word :
    (⟨some 5⟩ : Cursor).check 4 "2nd part -3 007 12" (tokens "2nd part -3 007 12")
        = .ok (⟨"2nd part -3", 7, 12⟩, ⟨some 12⟩) ∧
      Cursor.start.check 1 "part -3 12" (tokens "part -3 12")
        = .error (.invalidLine 1 "part -3 12") := by
  refine ⟨?_, ?_⟩
  · have h := check_accepts_exactly_shapes ⟨some 5⟩ 4 "2nd part -3 007 12"
    refine (h.2.2.2.1 _ _).mpr ⟨"2nd part -3", "007", "12", shape_signed_word, ?_, ?_, ?_, ?_⟩
    · rintro ⟨e, he, hlt⟩
      obtain rfl := Option.some.inj he
      exact absurd hlt (by decide)
    · decide
    · decide
    · decide
  · have h := check_accepts_exactly_shapes Cursor.start 1 "part -3 12"
    exact h.2.2.2.2.2 "part" "-3" "12" (by decide) (by decide) (by decide)
      (Or.inl ⟨['3'], Or.inr (by decide)⟩)

end FlatFile.Schema
