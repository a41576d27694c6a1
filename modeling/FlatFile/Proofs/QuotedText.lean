import FlatFile.Toml.Quoted
import FlatFile.Toml.Writer
import Mathlib

/-!
# Quoted text reads back

A text that is quoted reads back as the same text, in each of the four forms
(`quoted?_quoteChars`).  The forms with escapes hold every text, so only the literal forms need what
`quoteForm` tests.

In the two long forms quotes of the text may stand right before the closing ones.  What is read then
depends on the quotes in a row at each place.  There are at most two before something else follows
(`quotes_ahead`, `longBasicInside_ahead`), so where three follow each other the text is at its end:
the first three close it, and up to two behind them are its own (`extraQuotes_of_closing?`).
-/

namespace FlatFile.Toml

open Text (prepend)

/-! ### Escapes -/

/-- **How a character can be spelled in a basic form**: as it is, or as an escape. -/
inductive Spells (c : Char) : List Char → Prop where
  | plain (hb : c ≠ '\\') (hp : isPlain c = true) : Spells c [c]
  | escape {e : Char} {body : List Char} (he : e ≠ '\n' ∧ e ≠ '\r' ∧ isSpace e = false)
      (h : ∀ rest, escape? (e :: body ++ rest) = some (c, rest)) : Spells c ('\\' :: e :: body)

/-- A spelling is not empty and begins no line end. -/
theorem Spells.eq_cons {c : Char} {w : List Char} (h : Spells c w) :
    ∃ d tail, w = d :: tail ∧ d ≠ '\n' ∧ d ≠ '\r' := by
  cases h with
  | plain hb hp =>
    refine ⟨c, [], rfl, ?_, ?_⟩
    · rintro rfl
      cases hp
    · rintro rfl
      cases hp
  | escape he h => exact ⟨'\\', _, rfl, by decide, by decide⟩

/-- A code point of two digits reads back. -/
theorem codePoint?_upperHexDigit {n : Nat} (h : n < 128) :
    codePoint? ['0', '0', upperHexDigit (n / 16), upperHexDigit n] = some (Char.ofNat n) := by
  have hall : ∀ n < 128,
      codePoint? ['0', '0', upperHexDigit (n / 16), upperHexDigit n] = some (Char.ofNat n) := by
    decide +kernel
  exact hall n h

/-- What the writer puts for a character spells it. -/
theorem spells_escaped (c : Char) : Spells c (escaped c) := by
  rw [escaped]
  by_cases hb : c = '\x08'
  · rw [if_pos hb, hb]
    exact .escape (by decide) fun _ => rfl
  rw [if_neg hb]
  by_cases ht : c = '\t'
  · rw [if_pos ht, ht]
    exact .escape (by decide) fun _ => rfl
  rw [if_neg ht]
  by_cases hf : c = '\x0c'
  · rw [if_pos hf, hf]
    exact .escape (by decide) fun _ => rfl
  rw [if_neg hf]
  by_cases hr : c = '\r'
  · rw [if_pos hr, hr]
    exact .escape (by decide) fun _ => rfl
  rw [if_neg hr]
  by_cases hs : c = '\\'
  · rw [if_pos hs, hs]
    exact .escape (by decide) fun _ => rfl
  rw [if_neg hs]
  by_cases hc : c.toNat < 0x20 ∨ c.toNat = 0x7f
  · rw [if_pos hc]
    refine .escape (by decide) fun rest => ?_
    have hcode := codePoint?_upperHexDigit (n := c.toNat) (by omega)
    rw [Char.ofNat_toNat] at hcode
    simp only [List.cons_append, List.nil_append, escape?, hexEscape?, List.length_cons,
      List.take_succ_cons, List.take_zero, List.drop_succ_cons, List.drop_zero, hcode]
    rw [if_neg (by omega)]
    rfl
  · rw [if_neg hc]
    refine .plain hs ?_
    rw [not_or, not_lt] at hc
    simp [isPlain, hc]

theorem head?_escaped_ne {c : Char} (hc : c ≠ '"') : (escaped c).head? ≠ some '"' := by
  rcases h : escaped c with _ | ⟨d, w⟩
  · simp
  · have hs := spells_escaped c
    rw [h] at hs
    cases hs <;> simp_all

/-- An escape does not continue the line. -/
theorem continuation?_eq_none {e : Char} (he : e ≠ '\n' ∧ e ≠ '\r' ∧ isSpace e = false)
    (rest : List Char) : continuation? (e :: rest) = none := by
  obtain ⟨hn, hr, hs⟩ := he
  rw [continuation?, List.dropWhile_cons_of_neg (by simp [hs]), Option.map_eq_none_iff, lineEnd?]
  · exact fun _ h => hn (List.cons.inj h).1
  · exact fun _ h => hr (List.cons.inj h).1

/-! ### Short forms -/

theorem basic?_spells {c : Char} {w : List Char} (h : Spells c w) (hw : w.head? ≠ some '"')
    (rest : List Char) : basic? (w ++ rest) = prepend c (basic? rest) := by
  cases h with
  | plain hb hp =>
    have hq : c ≠ '"' := by simpa using hw
    rw [List.singleton_append, basic?.eq_def]
    simp [hb, hp, hq]
  | escape he h =>
    rw [List.cons_append, basic?.eq_def]
    simp only [if_neg (show '\\' ≠ '"' by decide), if_true]
    split
    · rename_i hnone
      rw [h rest] at hnone
      cases hnone
    · rename_i hsome
      rw [h rest] at hsome
      obtain ⟨rfl, rfl⟩ := Prod.mk.inj (Option.some.inj hsome)
      rfl

/-- The writer puts one character after the other and escapes the quotes. -/
theorem basicInside_cons (c : Char) (s : List Char) :
    ∃ w, Spells c w ∧ w.head? ≠ some '"' ∧ basicInside (c :: s) = w ++ basicInside s := by
  rw [basicInside, List.flatMap_cons, ← basicInside]
  by_cases hq : c = '"'
  · rw [if_pos hq, hq]
    exact ⟨_, .escape (by decide) fun _ => rfl, by decide, rfl⟩
  rw [if_neg hq]
  by_cases hn : c = '\n'
  · rw [if_pos hn, hn]
    exact ⟨_, .escape (by decide) fun _ => rfl, by decide, rfl⟩
  rw [if_neg hn]
  exact ⟨_, spells_escaped c, head?_escaped_ne hq, rfl⟩

/-- A basic string holds every text. -/
theorem basic?_inside (s rest : List Char) :
    basic? (basicInside s ++ '"' :: rest) = some (s, rest) := by
  induction s with
  | nil =>
    rw [basic?.eq_def]
    simp [basicInside]
  | cons c s ih =>
    obtain ⟨w, hw, hhead, hinside⟩ := basicInside_cons c s
    rw [hinside, List.append_assoc, basic?_spells hw hhead, ih]
    rfl

/-- A literal string holds a text without control characters and single quotes. -/
theorem literal?_text {s : List Char} (hs : ∀ c ∈ s, c ≠ '\x27' ∧ isPlain c = true)
    (rest : List Char) : literal? (s ++ '\x27' :: rest) = some (s, rest) := by
  induction s with
  | nil =>
    rw [List.nil_append, literal?, if_pos rfl]
  | cons c s ih =>
    obtain ⟨hq, hp⟩ := hs c List.mem_cons_self
    rw [List.cons_append, literal?, if_neg hq, if_pos hp,
      ih fun d hd => hs d (List.mem_cons_of_mem c hd)]
    rfl

/-! ### Quotes in a row -/

/-- A text begins with quotes in a row, as many as the longest run allows, and then it ends or goes
on otherwise. -/
theorem quotes_ahead (q : Char) (run : Nat) (s : List Char) :
    ∃ k, run + k ≤ longestRunFrom q run s ∧
      (s = List.replicate k q ∨ ∃ c tail, c ≠ q ∧ s = List.replicate k q ++ c :: tail) := by
  induction s generalizing run with
  | nil => exact ⟨0, by simp [longestRunFrom], Or.inl rfl⟩
  | cons c s ih =>
    rw [longestRunFrom]
    by_cases hc : c = q
    · subst hc
      rw [if_pos rfl]
      obtain ⟨k, hk, hs⟩ := ih (run + 1)
      refine ⟨k + 1, by omega, ?_⟩
      rcases hs with rfl | ⟨d, tail, hd, rfl⟩
      · exact Or.inl rfl
      · exact Or.inr ⟨d, tail, hd, rfl⟩
    · rw [if_neg hc]
      exact ⟨0, by simp, Or.inr ⟨c, s, hc, rfl⟩⟩

/-- At most two quotes and then something else do not close. -/
theorem closing?_eq_none {q c : Char} (hc : c ≠ q) {k : Nat} (hk : k ≤ 2) (rest : List Char) :
    closing? q (List.replicate k q ++ c :: rest) = none := by
  match k with
  | 0 => rcases rest with _ | ⟨a, _ | ⟨b, rest⟩⟩ <;> simp [closing?, hc]
  | 1 => rcases rest with _ | ⟨a, rest⟩ <;> simp [closing?, hc, List.replicate]
  | 2 => simp [closing?, hc, List.replicate]

/-- Up to two quotes in front of the closing ones belong to the text. -/
theorem extraQuotes_of_closing? {q : Char} {k : Nat} (hk : k ≤ 2) {rest : List Char}
    (hrest : rest.head? ≠ some q) :
    ∃ behind, closing? q (List.replicate k q ++ ([q, q, q] ++ rest)) = some behind ∧
      extraQuotes q behind = (List.replicate k q, rest) := by
  match k with
  | 0 =>
    refine ⟨rest, by simp [closing?], ?_⟩
    rcases rest with _ | ⟨a, _ | ⟨b, rest⟩⟩
    · rfl
    · have ha : a ≠ q := by simpa using hrest
      simp [extraQuotes, ha]
    · have ha : a ≠ q := by simpa using hrest
      simp [extraQuotes, ha]
  | 1 =>
    refine ⟨q :: rest, by simp [closing?], ?_⟩
    rcases rest with _ | ⟨a, rest⟩
    · simp [extraQuotes]
    · have ha : a ≠ q := by simpa using hrest
      simp [extraQuotes, ha]
  | 2 => exact ⟨q :: q :: rest, by simp [closing?, List.replicate], by simp [extraQuotes]⟩

/-! ### Long forms -/

theorem longBasic?_of_closing? {s behind : List Char} (h : closing? '"' s = some behind) :
    longBasic? s = some (extraQuotes '"' behind) := by
  rw [longBasic?.eq_def, h]

theorem longBasic?_spells {c : Char} {w rest : List Char} (h : Spells c w)
    (hopen : closing? '"' (w ++ rest) = none) :
    longBasic? (w ++ rest) = prepend c (longBasic? rest) := by
  rw [longBasic?.eq_def, hopen]
  cases h with
  | plain hb hp =>
    have hr : c ≠ '\r' := by
      rintro rfl
      cases hp
    simp [hb, hp, hr]
  | escape he h =>
    simp only [List.cons_append, if_true]
    split
    · rename_i hsome
      rw [continuation?_eq_none he] at hsome
      cases hsome
    · split
      · rename_i hnone
        rw [← List.cons_append, h rest] at hnone
        cases hnone
      · rename_i hsome
        rw [← List.cons_append, h rest] at hsome
        obtain ⟨rfl, rfl⟩ := Prod.mk.inj (Option.some.inj hsome)
        rfl

theorem longBasic?_newline {rest : List Char} (hopen : closing? '"' ('\n' :: rest) = none) :
    longBasic? ('\n' :: rest) = prepend '\n' (longBasic? rest) := by
  rw [longBasic?.eq_def, hopen]
  simp

/-- The writer puts one character after the other; at most two quotes in a row are not escaped. -/
theorem longBasicInside_cons {run : Nat} (hrun : run ≤ 2) (c : Char) (s : List Char) :
    ∃ w run', run' ≤ 2 ∧ (Spells c w ∨ c = '\n' ∧ w = ['\n']) ∧
      longBasicInside run (c :: s) = w ++ longBasicInside run' s := by
  rw [longBasicInside]
  by_cases hq : c = '"'
  · rw [if_pos hq, hq]
    by_cases htwo : run = 2
    · rw [if_pos htwo]
      exact ⟨['\\', '"'], 0, by omega, Or.inl (.escape (by decide) fun _ => rfl), rfl⟩
    · rw [if_neg htwo]
      exact ⟨['"'], run + 1, by omega, Or.inl (.plain (by decide) (by decide)), rfl⟩
  rw [if_neg hq]
  by_cases hn : c = '\n'
  · rw [if_pos hn]
    exact ⟨['\n'], 0, by omega, Or.inr ⟨hn, rfl⟩, rfl⟩
  rw [if_neg hn]
  exact ⟨escaped c, 0, by omega, Or.inl (spells_escaped c), rfl⟩

/-- What the writer puts begins with at most two quotes in a row, and if it does not end there, goes
on otherwise. -/
theorem longBasicInside_ahead {run : Nat} (hrun : run ≤ 2) (s : List Char) :
    ∃ k, run + k ≤ 2 ∧
      (s = List.replicate k '"' ∧ longBasicInside run s = List.replicate k '"' ∨
        ∃ c tail, c ≠ '"' ∧ longBasicInside run s = List.replicate k '"' ++ c :: tail) := by
  induction s generalizing run with
  | nil => exact ⟨0, by omega, Or.inl ⟨rfl, rfl⟩⟩
  | cons c s ih =>
    rw [longBasicInside]
    by_cases hq : c = '"'
    · rw [if_pos hq, hq]
      by_cases htwo : run = 2
      · rw [if_pos htwo]
        exact ⟨0, by omega, Or.inr ⟨'\\', _, by decide, rfl⟩⟩
      · rw [if_neg htwo]
        obtain ⟨k, hk, hs⟩ := @ih (run + 1) (by omega)
        refine ⟨k + 1, by omega, ?_⟩
        rcases hs with ⟨rfl, hinside⟩ | ⟨d, tail, hd, hinside⟩
        · exact Or.inl ⟨rfl, by rw [hinside]; rfl⟩
        · exact Or.inr ⟨d, tail, hd, by rw [hinside]; rfl⟩
    rw [if_neg hq]
    by_cases hn : c = '\n'
    · rw [if_pos hn]
      exact ⟨0, by omega, Or.inr ⟨'\n', _, by decide, rfl⟩⟩
    rw [if_neg hn]
    have hhead := head?_escaped_ne hq
    obtain ⟨d, w, hw, -, -⟩ := (spells_escaped c).eq_cons
    rw [hw] at hhead ⊢
    exact ⟨0, by omega, Or.inr ⟨d, _, by simpa using hhead, rfl⟩⟩

/-- A long basic string holds every text. -/
theorem longBasic?_inside {rest : List Char} (hrest : rest.head? ≠ some '"') (s : List Char)
    {run : Nat} (hrun : run ≤ 2) :
    longBasic? (longBasicInside run s ++ (['"', '"', '"'] ++ rest)) = some (s, rest) := by
  induction s generalizing run with
  | nil =>
    obtain ⟨behind, hclosing, hextra⟩ := extraQuotes_of_closing? (k := 0) (by omega) hrest
    rw [List.replicate_zero] at hclosing
    rw [longBasicInside, longBasic?_of_closing? hclosing, hextra, List.replicate_zero]
  | cons c s ih =>
    obtain ⟨k, hk, ⟨hs, hinside⟩ | ⟨d, tail, hd, hinside⟩⟩ := longBasicInside_ahead hrun (c :: s)
    · -- only quotes are left of the text, and the closing ones follow
      obtain ⟨behind, hclosing, hextra⟩ := extraQuotes_of_closing? (k := k) (by omega) hrest
      rw [hinside, longBasic?_of_closing? hclosing, hextra, ← hs]
    · have hopen :
          closing? '"' (longBasicInside run (c :: s) ++ (['"', '"', '"'] ++ rest)) = none := by
        rw [hinside, List.append_assoc]
        exact closing?_eq_none hd (by omega) _
      obtain ⟨w, run', hrun', hw, hcons⟩ := longBasicInside_cons hrun c s
      rw [hcons, List.append_assoc] at hopen ⊢
      rcases hw with hw | ⟨rfl, rfl⟩
      · rw [longBasic?_spells hw hopen, ih hrun']
        rfl
      · rw [List.singleton_append] at hopen ⊢
        rw [longBasic?_newline hopen, ih hrun']
        rfl

/-- A long literal string holds a text without control characters and without three single quotes in
a row. -/
theorem longLiteral?_text {rest : List Char} (hrest : rest.head? ≠ some '\x27') {s : List Char}
    (hs : ∀ c ∈ s, c = '\n' ∨ isPlain c = true) {run : Nat}
    (hrun : longestRunFrom '\x27' run s ≤ 2) :
    longLiteral? (s ++ (['\x27', '\x27', '\x27'] ++ rest)) = some (s, rest) := by
  induction s generalizing run with
  | nil =>
    obtain ⟨behind, hclosing, hextra⟩ := extraQuotes_of_closing? (k := 0) (by omega) hrest
    rw [List.replicate_zero, List.nil_append] at hclosing
    rw [List.nil_append, longLiteral?.eq_def, hclosing]
    simp only [hextra, List.replicate_zero]
  | cons c s ih =>
    obtain ⟨k, hk, hall | ⟨d, tail, hd, hahead⟩⟩ := quotes_ahead '\x27' run (c :: s)
    · obtain ⟨behind, hclosing, hextra⟩ := extraQuotes_of_closing? (k := k) (by omega) hrest
      rw [← hall] at hclosing hextra
      rw [longLiteral?.eq_def, hclosing]
      simp only [hextra]
    · have hopen : closing? '\x27' (c :: s ++ (['\x27', '\x27', '\x27'] ++ rest)) = none := by
        rw [hahead, List.append_assoc]
        exact closing?_eq_none hd (by omega) _
      have hnext : ∃ run', longestRunFrom '\x27' run' s ≤ 2 := by
        rw [longestRunFrom] at hrun
        split at hrun
        · exact ⟨_, hrun⟩
        · exact ⟨0, by omega⟩
      obtain ⟨run', hrun'⟩ := hnext
      have hread := ih (fun e he => hs e (List.mem_cons_of_mem c he)) hrun'
      have hc := hs c List.mem_cons_self
      have hr : c ≠ '\r' := by
        rintro rfl
        exact absurd hc (by decide)
      rw [longLiteral?.eq_def, hopen]
      simp only [List.cons_append, if_neg hr, if_pos hc]
      exact (congrArg (prepend c) hread).trans rfl

/-! ### The form of a text -/

theorem plain_of_not_control {c : Char} (h : isControl c = false) :
    c = '\n' ∨ isPlain c = true := by
  simp only [isControl, isPlain, Bool.or_eq_false_iff, Bool.and_eq_false_iff,
    decide_eq_false_iff_not, bne_eq_false_iff_eq, beq_eq_false_iff_ne, Bool.or_eq_true, beq_iff_eq,
    Bool.and_eq_true, decide_eq_true_eq, bne_iff_ne] at h ⊢
  obtain ⟨(hlow | htab) | hnew, hdel⟩ := h
  · exact Or.inr (Or.inr ⟨by omega, hdel⟩)
  · exact Or.inr (Or.inl htab)
  · exact Or.inl hnew

theorem not_mem_of_longestRunFrom {q : Char} {run : Nat} {s : List Char}
    (h : longestRunFrom q run s = 0) : q ∉ s := by
  induction s generalizing run with
  | nil => simp
  | cons c s ih =>
    rw [longestRunFrom] at h
    split at h
    · obtain ⟨k, hk, -⟩ := quotes_ahead q (run + 1) s
      omega
    · rename_i hc
      have hrest := @ih 0 (by omega)
      simp [hrest, Ne.symm hc]

theorem plain_of_not_any_control {s : List Char} (h : ¬ s.any isControl = true) :
    ∀ c ∈ s, c = '\n' ∨ isPlain c = true := by
  intro c hc
  apply plain_of_not_control
  by_contra hcontrol
  exact h (List.any_eq_true.mpr ⟨c, hc, by simpa using hcontrol⟩)

/-- A text that is written as a literal string has neither control characters nor single quotes, and
is not empty. -/
theorem of_quoteForm_literal {s : List Char} (h : quoteForm s = .literal) :
    s ≠ [] ∧ ∀ c ∈ s, c ≠ '\x27' ∧ isPlain c = true := by
  refine ⟨by rintro rfl; revert h; decide, ?_⟩
  have hform : ¬ s.any isControl = true ∧ ¬ s.contains '\n' = true ∧ longestRun '\x27' s = 0 := by
    simp only [quoteForm] at h
    split at h
    · cases h
    · split at h
      · assumption
      · split at h
        · cases h
        · split at h
          · cases h
          · split at h <;> cases h
  obtain ⟨hcontrol, hnewline, hrun⟩ := hform
  intro c hc
  refine ⟨fun hq => not_mem_of_longestRunFrom hrun (hq ▸ hc), ?_⟩
  refine (plain_of_not_any_control hcontrol c hc).resolve_left fun hn => hnewline ?_
  rw [List.contains_iff_mem, ← hn]
  exact hc

/-- A text that is written as a long literal string has no control characters and at most two single
quotes in a row. -/
theorem of_quoteForm_longLiteral {s : List Char} (h : quoteForm s = .longLiteral) :
    (∀ c ∈ s, c = '\n' ∨ isPlain c = true) ∧ longestRun '\x27' s ≤ 2 := by
  simp only [quoteForm] at h
  split at h
  · cases h
  · split at h
    · cases h
    · split at h
      · cases h
      · split at h
        · rename_i hform
          exact ⟨plain_of_not_any_control hform.1, hform.2⟩
        · split at h <;> cases h

theorem lineEnd?_eq_none {s : List Char} (hn : s.head? ≠ some '\n') (hr : s.head? ≠ some '\r') :
    lineEnd? s = none := by
  rw [lineEnd?]
  · rintro rest rfl
    exact hn rfl
  · rintro rest rfl
    exact hr rfl

/-- Behind the opening quotes of a long form the line end is dropped that was put there. -/
theorem dropFirstEnd_openingEnd {s inside : List Char}
    (h : '\n' ∉ s → inside.head? ≠ some '\n' ∧ inside.head? ≠ some '\r') :
    dropFirstEnd (openingEnd s ++ inside) = inside := by
  rw [openingEnd]
  by_cases hs : '\n' ∈ s
  · rw [if_pos (List.contains_iff_mem.mpr hs)]
    rfl
  · rw [if_neg (List.contains_iff_mem.not.mpr hs), List.nil_append, dropFirstEnd,
      lineEnd?_eq_none (h hs).1 (h hs).2]
    rfl

/-! A text without line ends begins with none in its long forms, so that nothing is lost behind the
opening quotes. -/

theorem head?_longBasicInside {s : List Char} (hs : '\n' ∉ s) (rest : List Char) :
    (longBasicInside 0 s ++ '"' :: rest).head? ≠ some '\n' ∧
      (longBasicInside 0 s ++ '"' :: rest).head? ≠ some '\r' := by
  cases s with
  | nil => exact ⟨by simp [longBasicInside], by simp [longBasicInside]⟩
  | cons c s =>
    obtain ⟨w, run, -, hw | ⟨rfl, -⟩, hcons⟩ := longBasicInside_cons (Nat.zero_le 2) c s
    · obtain ⟨d, tail, rfl, hn, hr⟩ := hw.eq_cons
      rw [hcons]
      exact ⟨by simpa using hn, by simpa using hr⟩
    · exact absurd List.mem_cons_self hs

theorem head?_longLiteral {s : List Char} (hs : '\n' ∉ s)
    (hplain : ∀ c ∈ s, c = '\n' ∨ isPlain c = true) (rest : List Char) :
    (s ++ '\x27' :: rest).head? ≠ some '\n' ∧ (s ++ '\x27' :: rest).head? ≠ some '\r' := by
  cases s with
  | nil => exact ⟨by simp, by simp⟩
  | cons c s =>
    have hc := hplain c List.mem_cons_self
    refine ⟨?_, ?_⟩
    · rintro ⟨⟩
      exact hs List.mem_cons_self
    · rintro ⟨⟩
      exact absurd hc (by decide)

/-- A basic string on one line does not open with three quotes. -/
theorem closing?_basicInside (s : List Char) {rest : List Char} (hrest : rest.head? ≠ some '"') :
    closing? '"' ('"' :: (basicInside s ++ '"' :: rest)) = none := by
  cases s with
  | nil =>
    rcases rest with _ | ⟨a, rest⟩
    · rfl
    · exact closing?_eq_none (k := 2) (by simpa using hrest) (by omega) rest
  | cons c s =>
    obtain ⟨w, hw, hhead, hinside⟩ := basicInside_cons c s
    obtain ⟨d, tail, rfl, -, -⟩ := hw.eq_cons
    rw [hinside]
    exact closing?_eq_none (k := 1) (by simpa using hhead) (by omega) _

/-- **A quoted text reads back**, whatever follows it but another quote. -/
theorem quoted?_quoteChars (s : List Char) {rest : List Char} (hdouble : rest.head? ≠ some '"')
    (hsingle : rest.head? ≠ some '\x27') : quoted? (quoteChars s ++ rest) = some (s, rest) := by
  -- a text that begins with one kind of quote does not open with the other
  have hother : ∀ tail,
      closing? '"' ('\x27' :: tail) = none ∧ closing? '\x27' ('"' :: tail) = none :=
    fun tail => ⟨closing?_eq_none (k := 0) (by decide) (by omega) tail,
      closing?_eq_none (k := 0) (by decide) (by omega) tail⟩
  rw [quoteChars]
  cases hform : quoteForm s with
  | basic =>
    simp only [List.cons_append, List.append_assoc, List.nil_append]
    rw [quoted?.eq_def, closing?_basicInside s hdouble, (hother _).2]
    exact basic?_inside s rest
  | literal =>
    obtain ⟨hne, hplain⟩ := of_quoteForm_literal hform
    obtain ⟨c, s', rfl⟩ := List.exists_cons_of_ne_nil hne
    have hopen : closing? '\x27' ('\x27' :: c :: (s' ++ '\x27' :: rest)) = none :=
      closing?_eq_none (k := 1) (hplain c List.mem_cons_self).1 (by omega) _
    simp only [List.cons_append, List.append_assoc, List.nil_append]
    rw [quoted?.eq_def, (hother _).1, hopen]
    exact literal?_text hplain rest
  | longBasic =>
    have hopen : ∀ tail, closing? '"' ('"' :: '"' :: '"' :: tail) = some tail := fun _ => rfl
    simp only [List.cons_append, List.append_assoc, List.nil_append]
    rw [quoted?.eq_def, hopen]
    simp only [dropFirstEnd_openingEnd fun hs => head?_longBasicInside hs _]
    exact longBasic?_inside hdouble s (Nat.zero_le 2)
  | longLiteral =>
    obtain ⟨hplain, hrun⟩ := of_quoteForm_longLiteral hform
    have hopen : ∀ tail, closing? '\x27' ('\x27' :: '\x27' :: '\x27' :: tail) = some tail :=
      fun _ => rfl
    simp only [List.cons_append, List.append_assoc, List.nil_append]
    rw [quoted?.eq_def, (hother _).1, hopen]
    simp only [dropFirstEnd_openingEnd fun hs => head?_longLiteral hs hplain _]
    exact longLiteral?_text hsingle hplain hrun

end FlatFile.Toml
