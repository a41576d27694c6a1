import FlatFile.Text.Blank
import FlatFile.Text.Decimal
import FlatFile.Text.Lines
import Mathlib

/-!
# Laws of plain text

What the schema results need to know of characters, decimal numbers, words and lines.  The classes
of characters are compared through their code points.  For numbers the two facts are that text
which starts with a digit is read without a sign (`readInt64?_of_startsWithDigit`), and that
reading undoes printing (`digitsValue_toString`); for lines, that cutting undoes ending each line
with a line feed (`lines_join`).
-/

namespace FlatFile.Text

/-! ### Characters -/

theorem isDigit_iff (c : Char) : isDigit c = true ↔ 48 ≤ c.toNat ∧ c.toNat ≤ 57 := by
  simp [isDigit, Char.le_def, UInt32.le_iff_toNat_le]

theorem isWordChar_iff (c : Char) :
    isWordChar c = true ↔
      (65 ≤ c.toNat ∧ c.toNat ≤ 90) ∨ (97 ≤ c.toNat ∧ c.toNat ≤ 122) ∨
        (48 ≤ c.toNat ∧ c.toNat ≤ 57) ∨ c = '_' := by
  simp [isWordChar, Char.isAlphanum, Char.isAlpha, Char.isUpper, Char.isLower, Char.isDigit,
    UInt32.le_iff_toNat_le, or_assoc]

theorem isBlank_of_isWordChar {c : Char} (h : isWordChar c = true) : isBlank c = false := by
  rw [isWordChar_iff] at h
  have hn : 48 ≤ c.toNat ∧ c.toNat ≤ 122 := by
    rcases h with h | h | h | rfl
    · omega
    · omega
    · omega
    · decide
  simp [isBlank]
  omega

theorem isWordChar_of_isDigit {c : Char} (h : isDigit c = true) : isWordChar c = true := by
  rw [isDigit_iff] at h
  exact (isWordChar_iff c).mpr (Or.inr (Or.inr (Or.inl h)))

theorem isBlank_of_isDigit {c : Char} (h : isDigit c = true) : isBlank c = false :=
  isBlank_of_isWordChar (isWordChar_of_isDigit h)

theorem space_not_mem_of_solid {s : List Char} (h : ∀ c ∈ s, isBlank c = false) :
    ' ' ∉ s := by
  intro hs
  exact absurd (h ' ' hs) (by decide)

/-! ### Runs of characters -/

section Runs
variable {p : Char → Bool} {run rest : List Char}

/-- A run ends where the first character of the rest is not of its kind. -/
theorem dropWhile_run (hrun : ∀ c ∈ run, p c = true) (hrest : ∀ c ∈ rest.head?, p c = false) :
    (run ++ rest).dropWhile p = rest := by
  rw [List.dropWhile_append_of_pos hrun]
  cases rest with
  | nil => rfl
  | cons c rest => exact List.dropWhile_cons_of_neg (by simp [hrest c rfl])

theorem takeWhile_run (hrun : ∀ c ∈ run, p c = true) (hrest : ∀ c ∈ rest.head?, p c = false) :
    (run ++ rest).takeWhile p = run := by
  rw [List.takeWhile_append_of_pos hrun]
  cases rest with
  | nil => simp
  | cons c rest => simp [hrest c rfl]

end Runs

/-! ### Decimal numbers -/

/-- An index as a schema writes it: digits, at least one, whose value fits 64 bits with a sign. -/
structure IsIndex (s : List Char) : Prop where
  ne_nil : s ≠ []
  digits : ∀ c ∈ s, isDigit c = true
  fits : (digitsValue s : Int) ≤ int64Max

instance decIsIndex (s : List Char) : Decidable (IsIndex s) :=
  decidable_of_iff (s ≠ [] ∧ s.all isDigit = true ∧ (digitsValue s : Int) ≤ int64Max)
    ⟨fun h => ⟨h.1, List.all_eq_true.mp h.2.1, h.2.2⟩,
      fun h => ⟨h.ne_nil, List.all_eq_true.mpr h.digits, h.fits⟩⟩

theorem IsIndex.solid {s : List Char} (h : IsIndex s) : ∀ c ∈ s, isBlank c = false :=
  fun c hc => isBlank_of_isDigit (h.digits c hc)

theorem readNat?_eq_some_iff (s : List Char) (n : Nat) :
    readNat? s = some n ↔ s ≠ [] ∧ (∀ c ∈ s, isDigit c = true) ∧ n = digitsValue s := by
  unfold readNat?
  split
  · rename_i h
    exact ⟨fun hn => ⟨h.1, List.all_eq_true.mp h.2, (Option.some.inj hn).symm⟩,
      fun hs => by rw [hs.2.2]⟩
  · rename_i h
    exact ⟨nofun, fun hs => absurd ⟨hs.1, List.all_eq_true.mpr hs.2.1⟩ h⟩

/-- A sign is looked for in front only, so text that starts with a digit is read as a plain
number. -/
theorem readSigned?_of_isDigit {c : Char} (hc : isDigit c = true) (s : List Char) :
    readSigned? (c :: s) = (readNat? (c :: s)).map Int.ofNat := by
  have hplus : c ≠ '+' := by rintro rfl; exact absurd hc (by decide)
  have hminus : c ≠ '-' := by rintro rfl; exact absurd hc (by decide)
  unfold readSigned?
  split
  · rename_i h; exact absurd (List.cons.inj h).1 hplus
  · rename_i h; exact absurd (List.cons.inj h).1 hminus
  · rfl

theorem int64Min_le_natCast (n : Nat) : int64Min ≤ (n : Int) := by
  unfold int64Min
  omega

/-- **Text that starts with a digit reads as a 64-bit integer exactly when it is an index**, and
then it reads as its value. -/
theorem readInt64?_of_startsWithDigit {c : Char} (hc : isDigit c = true) (s : List Char)
    (i : Int) :
    readInt64? (c :: s) = some i ↔
      IsIndex (c :: s) ∧ i = (digitsValue (c :: s) : Int) := by
  unfold readInt64?
  rw [readSigned?_of_isDigit hc, Option.filter_eq_some_iff]
  constructor
  · rintro ⟨hread, hfits⟩
    obtain ⟨n, hn, rfl⟩ := Option.map_eq_some_iff.mp hread
    obtain ⟨hne, hdigits, rfl⟩ := (readNat?_eq_some_iff _ n).mp hn
    exact ⟨⟨hne, hdigits, (of_decide_eq_true hfits).2⟩, rfl⟩
  · rintro ⟨hindex, rfl⟩
    have hn := (readNat?_eq_some_iff (c :: s) _).mpr ⟨hindex.ne_nil, hindex.digits, rfl⟩
    exact ⟨by rw [hn]; rfl, decide_eq_true ⟨int64Min_le_natCast _, hindex.fits⟩⟩

theorem digitsValue_eq_ofDigitChars (s : List Char) :
    digitsValue s = Nat.ofDigitChars 10 s 0 := by
  rw [Nat.ofDigitChars_eq_foldl]
  rfl

@[simp] theorem digitsValue_toString (n : Nat) : digitsValue (toString n).toList = n := by
  rw [Nat.toString_eq_repr, Nat.toList_repr, digitsValue_eq_ofDigitChars,
    Nat.ofDigitChars_ten_toDigits]

theorem isDigit_of_mem_toString {n : Nat} {c : Char} (h : c ∈ (toString n).toList) :
    isDigit c = true := by
  rw [Nat.toString_eq_repr, Nat.toList_repr] at h
  have hd := Nat.isDigit_of_mem_toDigits (by decide) (by decide) h
  simpa [Char.isDigit, isDigit, Char.le_def] using hd

/-- A printed number is an index as long as it fits. -/
theorem isIndex_toString {n : Nat} (h : (n : Int) ≤ int64Max) : IsIndex (toString n).toList where
  ne_nil := by
    rw [Nat.toString_eq_repr, Nat.toList_repr]
    exact Nat.toDigits_ne_nil
  digits := fun _ hc => isDigit_of_mem_toString hc
  fits := by rw [digitsValue_toString]; exact h

/-! ### Words without blanks -/

theorem words_singleton {c : Char} (hc : isBlank c = false) : words [c] = [[c]] := by
  change (if isBlank c then [] else [[c]]) = [[c]]
  rw [hc]
  rfl

theorem words_cons_of_solid {c d : Char} (hc : isBlank c = false) (hd : isBlank d = false)
    {rest w : List Char} {ws : List (List Char)} (h : words (d :: rest) = w :: ws) :
    words (c :: d :: rest) = (c :: w) :: ws := by
  change (if isBlank c then words (d :: rest)
    else if isBlank d then [c] :: words (d :: rest) else _) = (c :: w) :: ws
  rw [hc, hd, h]
  rfl

section NoBlanks
variable {s : List Char} (h : ∀ c ∈ s, isBlank c = false)
include h

theorem dropWhile_isBlank_of_solid : s.dropWhile isBlank = s := by
  cases s with
  | nil => rfl
  | cons c rest => rw [List.dropWhile_cons_of_neg (by simp [h c List.mem_cons_self])]

theorem trim_of_solid : trim s = s := by
  unfold trim trimEnd trimStart
  rw [dropWhile_isBlank_of_solid h,
    dropWhile_isBlank_of_solid (fun c hc => h c (List.mem_reverse.mp hc)), List.reverse_reverse]

/-- Text without blanks is one word. -/
theorem words_of_solid (hne : s ≠ []) : words s = [s] := by
  induction s with
  | nil => exact absurd rfl hne
  | cons c rest ih =>
    have hc : isBlank c = false := h c List.mem_cons_self
    cases rest with
    | nil => exact words_singleton hc
    | cons d rest =>
      have hrest := ih (fun x hx => h x (List.mem_cons_of_mem _ hx)) (by simp)
      exact words_cons_of_solid hc (h d (by simp)) hrest

end NoBlanks

/-! ### Lines -/

section Lines
variable {α : Type} [DecidableEq α] {lf cr : α}

/-- A line that holds no line end and does not finish in a `cr` is cut off whole. -/
theorem cutLines_append {l : List α} (hlf : lf ∉ l) (hcr : l.getLast? ≠ some cr)
    (rest : List α) : cutLines lf cr (l ++ lf :: rest) = l :: cutLines lf cr rest := by
  induction l with
  | nil => simp [cutLines]
  | cons a l ih =>
    have ha : a ≠ lf := fun he => hlf (he ▸ List.mem_cons_self)
    have hl : lf ∉ l := fun hm => hlf (List.mem_cons_of_mem a hm)
    -- a `cr` before the line end could only be the last character of the line
    have hend : ¬ (a = cr ∧ (l ++ lf :: rest).head? = some lf) := by
      rintro ⟨rfl, hhead⟩
      cases l with
      | nil => exact hcr rfl
      | cons b l => exact hl (by simp at hhead; simp [hhead])
    have hcr' : l.getLast? ≠ some cr := by
      intro hlast
      apply hcr
      rw [List.getLast?_cons, hlast, Option.getD_some]
    rw [List.cons_append, cutLines, if_neg ha, if_neg hend, ih hl hcr']

/-- **Cutting undoes ending each line.** -/
theorem cutLines_flatMap {ls : List (List α)}
    (h : ∀ l ∈ ls, lf ∉ l ∧ l.getLast? ≠ some cr) :
    cutLines lf cr (ls.flatMap (· ++ [lf])) = ls := by
  induction ls with
  | nil => rfl
  | cons l ls ih =>
    obtain ⟨hlf, hcr⟩ := h l List.mem_cons_self
    rw [List.flatMap_cons, List.append_assoc, List.singleton_append, cutLines_append hlf hcr,
      ih (fun x hx => h x (List.mem_cons_of_mem l hx))]

end Lines

theorem lines_join {ls : List String}
    (h : ∀ l ∈ ls, '\n' ∉ l.toList ∧ l.toList.getLast? ≠ some '\r') :
    lines (String.join (ls.map (· ++ "\n"))) = ls := by
  have htext : (String.join (ls.map (· ++ "\n"))).toList
      = (ls.map String.toList).flatMap (· ++ ['\n']) := by
    rw [String.toList_join, List.flatMap_map, List.flatMap_map]
    simp
  have hcut : cutLines '\n' '\r' ((ls.map String.toList).flatMap (· ++ ['\n']))
      = ls.map String.toList := by
    apply cutLines_flatMap
    intro l hl
    obtain ⟨l', hl', rfl⟩ := List.mem_map.mp hl
    exact h l' hl'
  rw [lines, htext, hcut, List.map_map]
  simp

end FlatFile.Text
