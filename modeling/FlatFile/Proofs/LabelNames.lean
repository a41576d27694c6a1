import FlatFile.Proofs.ColumnReading

/-!
# Which labels have an identifier

A label matters through its words only.  What the words of a text are is said without cutting it
(`Text.Spaced`), and a text has exactly the words that `words` finds (`spaced_iff`); so blanks around
and between them play no part.

Of the case change only word characters are looked at afterwards.  A **casing** (`Casing`) may
therefore give any forms to a character, as long as the word characters among them are those of the
tables, and the camel-cased label has the same word characters under all of them
(`Casing.filter_camel`).  A label has an identifier exactly when a letter comes out, or a digit behind
an underscore (`nameable_iff`): leading digits are dropped, but an underscore stops that.
-/

namespace FlatFile.Text

/-! ### The words of a text -/

/-- **A text and its words.**  A word has at least one character and no blank; behind it the text
ends or goes on with a blank. -/
inductive Spaced : List Char → List (List Char) → Prop where
  | nil : Spaced [] []
  | blank {c : Char} {text : List Char} {ws : List (List Char)} (gap : isBlank c = true)
      (tail : Spaced text ws) : Spaced (c :: text) ws
  | word {w text : List Char} {ws : List (List Char)} (ne : w ≠ [])
      (solid : ∀ c ∈ w, isBlank c = false) (apart : ∀ c ∈ text.head?, isBlank c = true)
      (tail : Spaced text ws) : Spaced (w ++ text) (w :: ws)

theorem words_cons_of_blank {c : Char} (hc : isBlank c = true) (text : List Char) :
    words (c :: text) = words text := by
  change (if isBlank c then words text else _) = words text
  rw [if_pos hc]

theorem words_cons_of_gap {c d : Char} (hc : isBlank c = false) (hd : isBlank d = true)
    (text : List Char) : words (c :: d :: text) = [c] :: words (d :: text) := by
  change (if isBlank c then words (d :: text)
    else if isBlank d then [c] :: words (d :: text) else _) = [c] :: words (d :: text)
  rw [hc, hd]
  rfl

/-- The first word of a text that starts with one. -/
theorem words_append {w text : List Char} (ne : w ≠ []) (solid : ∀ c ∈ w, isBlank c = false)
    (apart : ∀ c ∈ text.head?, isBlank c = true) : words (w ++ text) = w :: words text := by
  induction w with
  | nil => exact absurd rfl ne
  | cons c w ih =>
    have hc := solid c List.mem_cons_self
    cases w with
    | nil =>
      cases text with
      | nil => exact words_singleton hc
      | cons d text => exact words_cons_of_gap hc (apart d rfl) text
    | cons d w =>
      have hrest := ih (by simp) (fun x hx => solid x (List.mem_cons_of_mem c hx))
      exact words_cons_of_solid hc (solid d (by simp)) hrest

/-- A text that starts with no blank starts with a word. -/
theorem Spaced.of_solid_head {c : Char} {text : List Char} {ws : List (List Char)}
    (hc : isBlank c = false) (h : Spaced (c :: text) ws) :
    ∃ w rest ws', text = w ++ rest ∧ ws = (c :: w) :: ws' ∧ (∀ d ∈ c :: w, isBlank d = false) ∧
      (∀ d ∈ rest.head?, isBlank d = true) ∧ Spaced rest ws' := by
  generalize hs : c :: text = s at h
  cases h with
  | nil => cases hs
  | blank gap _ =>
    obtain ⟨rfl, -⟩ := List.cons.inj hs
    rw [hc] at gap
    cases gap
  | @word w rest ws' ne solid apart tail =>
    cases w with
    | nil => exact absurd rfl ne
    | cons d w =>
      obtain ⟨rfl, rfl⟩ := List.cons.inj hs
      exact ⟨w, rest, ws', rfl, rfl, solid, apart, tail⟩

theorem spaced_words (text : List Char) : Spaced text (words text) := by
  induction text with
  | nil => exact .nil
  | cons c text ih =>
    by_cases hc : isBlank c = true
    · rw [words_cons_of_blank hc]
      exact .blank hc ih
    rw [Bool.not_eq_true] at hc
    cases text with
    | nil =>
      rw [words_singleton hc]
      exact @Spaced.word [c] [] [] (by simp) (by simpa using hc) (by simp) .nil
    | cons d text =>
      by_cases hd : isBlank d = true
      · rw [words_cons_of_gap hc hd]
        exact @Spaced.word [c] (d :: text) _ (by simp) (by simpa using hc) (by simpa using hd) ih
      · -- the word that `d` starts goes on to the left
        rw [Bool.not_eq_true] at hd
        obtain ⟨w, rest, ws, rfl, hws, solid, apart, tail⟩ := ih.of_solid_head hd
        rw [words_cons_of_solid hc hd hws]
        refine @Spaced.word (c :: d :: w) rest ws (by simp) ?_ apart tail
        intro x hx
        rcases List.mem_cons.mp hx with rfl | hx
        · exact hc
        · exact solid x hx

/-- **The words of a text are the ones that `words` finds.** -/
theorem spaced_iff {text : List Char} {ws : List (List Char)} :
    Spaced text ws ↔ words text = ws := by
  constructor
  · intro h
    induction h with
    | nil => rfl
    | blank gap _ ih => rw [words_cons_of_blank gap, ih]
    | word ne solid apart _ ih => rw [words_append ne solid apart, ih]
  · rintro rfl
    exact spaced_words text

/-! ### Blanks around and between the words -/

theorem Spaced.blanks_append {gap text : List Char} {ws : List (List Char)}
    (hgap : ∀ c ∈ gap, isBlank c = true) (h : Spaced text ws) : Spaced (gap ++ text) ws := by
  induction gap with
  | nil => exact h
  | cons c gap ih =>
    exact .blank (hgap c List.mem_cons_self) (ih fun d hd => hgap d (List.mem_cons_of_mem c hd))

theorem Spaced.append_blanks {gap text : List Char} {ws : List (List Char)}
    (hgap : ∀ c ∈ gap, isBlank c = true) (h : Spaced text ws) : Spaced (text ++ gap) ws := by
  induction h with
  | nil => simpa using Spaced.nil.blanks_append hgap
  | blank hc _ ih => exact .blank hc ih
  | @word w text ws ne solid apart _ ih =>
    rw [List.append_assoc]
    refine .word ne solid ?_ ih
    intro c hc
    cases text with
    | nil => exact hgap c (List.mem_of_mem_head? hc)
    | cons d text => exact apart c hc

theorem words_trim (text : List Char) : words (trim text) = words text := by
  obtain ⟨front, back, hsplit, hfront, hback⟩ := (trimmed_trim text).split
  have h := ((spaced_words (trim text)).blanks_append hfront).append_blanks hback
  rw [← hsplit] at h
  exact (spaced_iff.mp h).symm

theorem Spaced.words_proper {text : List Char} {ws : List (List Char)} (h : Spaced text ws) :
    ∀ w ∈ ws, w ≠ [] ∧ ∀ c ∈ w, isBlank c = false := by
  induction h with
  | nil => simp
  | blank _ _ ih => exact ih
  | word ne solid _ _ ih => exact List.forall_mem_cons.mpr ⟨⟨ne, solid⟩, ih⟩

/-- Words joined by single spaces. -/
theorem spaced_intercalate {ws : List (List Char)}
    (h : ∀ w ∈ ws, w ≠ [] ∧ ∀ c ∈ w, isBlank c = false) : Spaced ([' '].intercalate ws) ws := by
  induction ws with
  | nil => exact .nil
  | cons w ws ih =>
    obtain ⟨⟨ne, solid⟩, hws⟩ := List.forall_mem_cons.mp h
    cases ws with
    | nil => simpa using Spaced.word ne solid (by simp) Spaced.nil
    | cons v ws =>
      rw [List.intercalate_cons_cons, List.append_assoc, List.singleton_append]
      exact .word ne solid (by simp [isBlank]) (.blank (by decide) (ih hws))

end FlatFile.Text

namespace FlatFile.Schema
open Text

/-! ### Casings -/

/-- **A casing**: the lower-case and upper-case forms of every character, of which only the word
characters are fixed. -/
structure Casing where
  lower : Char → List Char
  upper : Char → List Char
  lower_word : ∀ c, (lower c).filter isWordChar = (lowerForm c).filter isWordChar
  upper_word : ∀ c, (upper c).filter isWordChar = (upperForm c).filter isWordChar

namespace Casing

/-- The casing of the tables. -/
def tables : Casing := ⟨lowerForm, upperForm, fun _ => rfl, fun _ => rfl⟩

/-- The words in camel case under a casing. -/
def camel (k : Casing) : List (List Char) → List Char
  | [] => []
  | w :: ws => recase k.lower w ++ ws.flatMap (recase k.upper)

theorem filter_recase {form form' : Char → List Char}
    (h : ∀ c, (form c).filter isWordChar = (form' c).filter isWordChar) (w : List Char) :
    (recase form w).filter isWordChar = (recase form' w).filter isWordChar := by
  cases w with
  | nil => rfl
  | cons c w => rw [recase, recase, List.filter_append, List.filter_append, h]

/-- **All casings agree on the word characters of a label.** -/
theorem filter_camel (k : Casing) (ws : List (List Char)) :
    (k.camel ws).filter isWordChar = (camelWords ws).filter isWordChar := by
  cases ws with
  | nil => rfl
  | cons w ws =>
    simp only [camel, camelWords, List.filter_append, List.filter_flatMap,
      filter_recase k.lower_word, filter_recase k.upper_word]

theorem wordPart_camel (k : Casing) (ws : List (List Char)) :
    wordPart (k.camel ws) = wordPart (camelWords ws) := by
  rw [wordPart, filter_camel, wordPart]

end Casing

/-! ### Something to name -/

/-- **A camel-cased label that can be named**: it holds a letter, or a digit somewhere behind an
underscore. -/
def Nameable (camel : List Char) : Prop :=
  (∃ c ∈ camel, c.isAlpha = true) ∨
    ∃ before after, camel = before ++ '_' :: after ∧ ∃ d ∈ after, isDigit d = true

theorem isWordChar_of_isAlpha {c : Char} (h : c.isAlpha = true) : isWordChar c = true := by
  simp [isWordChar, Char.isAlphanum, h]

theorem isDigit_of_isAlpha {c : Char} (h : c.isAlpha = true) : isDigit c = false := by
  have hcode : (65 ≤ c.toNat ∧ c.toNat ≤ 90) ∨ (97 ≤ c.toNat ∧ c.toNat ≤ 122) := by
    simpa [Char.isAlpha, Char.isUpper, Char.isLower, UInt32.le_iff_toNat_le] using h
  rw [← Bool.not_eq_true, isDigit_iff]
  omega

theorem mem_dropWhile_of_not {α : Type} {p : α → Bool} {a : α} {s : List α} (h : a ∈ s)
    (hp : p a = false) : a ∈ s.dropWhile p := by
  rw [← List.takeWhile_append_dropWhile (p := p) (l := s)] at h
  rcases List.mem_append.mp h with h | h
  · rw [List.mem_takeWhile_imp h] at hp
    cases hp
  · exact h

/-- Digits are dropped up to an underscore at most. -/
theorem suffix_dropWhile_isDigit (before after : List Char) :
    '_' :: after <:+ (before ++ '_' :: after).dropWhile isDigit := by
  induction before with
  | nil => rw [List.nil_append, List.dropWhile_cons_of_neg (by decide)]
  | cons c before ih =>
    rw [List.cons_append]
    by_cases hc : isDigit c = true
    · rw [List.dropWhile_cons_of_pos hc]
      exact ih
    · rw [List.dropWhile_cons_of_neg hc, ← List.cons_append]
      exact List.suffix_append _ _

theorem exists_of_nameable {camel : List Char} (h : Nameable camel) :
    ∃ c ∈ wordPart camel, c ≠ '_' := by
  rcases h with ⟨c, hc, halpha⟩ | ⟨before, after, rfl, d, hd, hdigit⟩
  · refine ⟨c, mem_dropWhile_of_not (List.mem_filter.mpr ⟨hc, isWordChar_of_isAlpha halpha⟩)
      (isDigit_of_isAlpha halpha), ?_⟩
    rintro rfl
    exact absurd halpha (by decide)
  · refine ⟨d, ?_, ?_⟩
    · have hword : d ∈ '_' :: after.filter isWordChar :=
        List.mem_cons_of_mem _ (List.mem_filter.mpr ⟨hd, isWordChar_of_isDigit hdigit⟩)
      rw [wordPart, List.filter_append, List.filter_cons_of_pos (by decide)]
      exact (suffix_dropWhile_isDigit _ _).subset hword
    · rintro rfl
      exact absurd hdigit (by decide)

theorem nameable_of_exists {camel : List Char} {c : Char} (hc : c ∈ wordPart camel)
    (hne : c ≠ '_') : Nameable camel := by
  have hmem : ∀ x ∈ wordPart camel, x ∈ camel := fun x hx =>
    (List.mem_filter.mp ((List.dropWhile_sublist _).subset hx)).1
  obtain ⟨lead, rest, hpart⟩ := List.exists_cons_of_ne_nil (List.ne_nil_of_mem hc)
  have hlead : lead ∈ wordPart camel := by rw [hpart]; exact List.mem_cons_self
  rcases isAlpha_or_underscore (isWordChar_of_mem_wordPart hlead) (isDigit_head_wordPart hpart)
    with halpha | rfl
  · exact Or.inl ⟨lead, hmem lead hlead, halpha⟩
  by_cases hdigit : isDigit c = true
  · -- the part starts with an underscore, and the digit is behind it
    have hbehind : c ∈ rest := by
      rw [hpart] at hc
      exact (List.mem_cons.mp hc).resolve_left hne
    have hcut := List.takeWhile_append_dropWhile (p := isDigit) (l := camel.filter isWordChar)
    rw [show (camel.filter isWordChar).dropWhile isDigit = '_' :: rest from hpart] at hcut
    obtain ⟨front, back, rfl, -, hback⟩ := List.filter_eq_append_iff.mp hcut.symm
    obtain ⟨skipped, after, rfl, -, -, hafter⟩ := List.filter_eq_cons_iff.mp hback
    refine Or.inr ⟨front ++ skipped, after, by simp, c, ?_, hdigit⟩
    rw [← hafter] at hbehind
    exact (List.mem_filter.mp hbehind).1
  · rw [Bool.not_eq_true] at hdigit
    rcases isAlpha_or_underscore (isWordChar_of_mem_wordPart hc) hdigit with halpha | h
    · exact Or.inl ⟨c, hmem c hc, halpha⟩
    · exact absurd h hne

/-- **What is left of a camel-cased label is more than underscores exactly when it can be named.** -/
theorem nameable_iff (camel : List Char) :
    Nameable camel ↔ (wordPart camel).all (· == '_') = false := by
  rw [List.all_eq_false]
  constructor
  · intro h
    obtain ⟨c, hc, hne⟩ := exists_of_nameable h
    exact ⟨c, hc, by simpa using hne⟩
  · rintro ⟨c, hc, hne⟩
    exact nameable_of_exists hc (by simpa using hne)

/-! ### Identifiers -/

theorem identifier?_of_spaced {label : String} {ws : List (List Char)}
    (h : Spaced label.toList ws) :
    identifier? label =
      if (wordPart (camelWords ws)).all (· == '_') then none
      else some (String.ofList (uncapitalize (wordPart (camelWords ws)))) := by
  rw [identifier?, identifierChars?_eq, camelCase, spaced_iff.mp h]
  split <;> rfl

/-- **Labels with the same words have the same identifier.** -/
theorem identifier?_congr {label label' : String} {ws : List (List Char)}
    (h : Spaced label.toList ws) (h' : Spaced label'.toList ws) :
    identifier? label' = identifier? label := by
  rw [identifier?_of_spaced h, identifier?_of_spaced h']

theorem identifier?_eq_none_iff (k : Casing) {label : String} {ws : List (List Char)}
    (h : Spaced label.toList ws) : identifier? label = none ↔ ¬ Nameable (k.camel ws) := by
  rw [nameable_iff, k.wordPart_camel, Bool.not_eq_false, identifier?_of_spaced h]
  split
  · simp [*]
  · simp [*]

theorem isName_of_identifier? {label name : String} (h : identifier? label = some name) :
    IsName name.toList := by
  obtain ⟨chars, hchars, rfl⟩ := Option.map_eq_some_iff.mp h
  rw [String.toList_ofList]
  exact isName_of_identifierChars? hchars

/-- The identifier of a label is what follows the leading digits among the word characters of the
camel-cased label, with its first character in lower case. -/
theorem identifier?_parts (k : Casing) {label name : String} {ws : List (List Char)}
    (h : Spaced label.toList ws) (hname : identifier? label = some name) :
    ∃ digits c rest, (k.camel ws).filter isWordChar = digits ++ c :: rest ∧
      (∀ d ∈ digits, isDigit d = true) ∧ isDigit c = false ∧ name.toList = c.toLower :: rest := by
  rw [identifier?_of_spaced h, ← k.wordPart_camel] at hname
  split at hname
  · cases hname
  · rename_i husable
    obtain rfl := Option.some.inj hname
    cases hpart : wordPart (k.camel ws) with
    | nil =>
      rw [hpart] at husable
      exact absurd rfl husable
    | cons c rest =>
      refine ⟨((k.camel ws).filter isWordChar).takeWhile isDigit, c, rest, ?_,
        fun d hd => List.mem_takeWhile_imp hd, isDigit_head_wordPart hpart,
        String.toList_ofList⟩
      rw [← hpart, wordPart, List.takeWhile_append_dropWhile]

/-- **Identifiers of labels.**  A label has words, and whatever casing puts them in camel case, its
identifier is fixed by the word characters that come out: it is what follows the leading digits, with
a first character in lower case.  Such an identifier is a name, and its own identifier.  There is
none exactly when no letter comes out and no digit behind an underscore.  Every label with the same
words has the same identifier; so has the label without its outer blanks, and so have its words
joined by single spaces. -/
theorem identifier?_canonical (k : Casing) (label : String) :
    ∃ ws, Spaced label.toList ws ∧
      (∀ name, identifier? label = some name →
        IsName name.toList ∧ identifier? name = some name ∧
        ∃ digits c rest, (k.camel ws).filter isWordChar = digits ++ c :: rest ∧
          (∀ d ∈ digits, isDigit d = true) ∧ isDigit c = false ∧
          name.toList = c.toLower :: rest) ∧
      (identifier? label = none ↔ ¬ Nameable (k.camel ws)) ∧
      (∀ label', Spaced label'.toList ws → identifier? label' = identifier? label) ∧
      identifier? (String.ofList (trim label.toList)) = identifier? label ∧
      identifier? (String.ofList ([' '].intercalate ws)) = identifier? label := by
  have hwords := spaced_words label.toList
  refine ⟨words label.toList, hwords, ?_, identifier?_eq_none_iff k hwords,
    fun label' h => identifier?_congr hwords h, identifier?_congr hwords ?_,
    identifier?_congr hwords ?_⟩
  · intro name hname
    have hshape := isName_of_identifier? hname
    exact ⟨hshape, identifier?_of_isName hshape, identifier?_parts k hwords hname⟩
  · rw [String.toList_ofList, ← words_trim]
    exact spaced_words _
  · rw [String.toList_ofList]
    exact spaced_intercalate hwords.words_proper

/-- A digit in front, a letter that becomes two, and blanks of several kinds. -/
theorem identifier?_canonical_sharp_s :
    identifier? " 9\u2003ßtra\t" = some "sStra" ∧ IsName "sStra".toList ∧
      identifier? "sStra" = some "sStra" ∧ identifier? "9 ßtra" = some "sStra" := by
  have hlabel : identifier? " 9\u2003ßtra\t" = some "sStra" := by decide +kernel
  obtain ⟨ws, hspaced, hname, -, hsame, -⟩ :=
    identifier?_canonical .tables " 9\u2003ßtra\t"
  obtain ⟨hshape, hself, -⟩ := hname _ hlabel
  have hother : Spaced "9 ßtra".toList ws := by
    rw [← spaced_iff.mp hspaced, spaced_iff]
    decide +kernel
  exact ⟨hlabel, hshape, hself, (hsame _ hother).trans hlabel⟩

end FlatFile.Schema
