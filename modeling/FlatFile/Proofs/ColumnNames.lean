import FlatFile.Proofs.TextLaws
import FlatFile.Schema.Identifier

/-!
# Column names

Every name the compiler gives is a **name** in one fixed sense (`IsName`): word characters only, led
by a lower-case letter or an underscore, and not made of underscores alone.  Labels may hold any
characters, and the case change of a word may turn one of them into several, but the filter for word
characters comes after it, so that only what the filter lets through has to be looked at
(`isName_of_identifierChars?`).  The fallback is a name as well, hence `isName_nameOf`.  Conversely a
name is its own identifier (`identifier?_of_isName`): as a label it is a single word, and no step
changes it.
-/

namespace FlatFile.Schema
open Text

/-- The characters of a name: word characters, led by a lower-case letter or an underscore, at
least one of them no underscore. -/
structure IsName (s : List Char) : Prop where
  word : ∀ c ∈ s, isWordChar c = true
  lead : ∃ c rest, s = c :: rest ∧ (c.isLower = true ∨ c = '_')
  usable : ∃ c ∈ s, c ≠ '_'

theorem isName_iff (s : List Char) :
    IsName s ↔ s.all isWordChar = true ∧ s.head?.any (fun c => c.isLower || c == '_') = true ∧
      s.any (· != '_') = true := by
  cases s with
  | nil =>
    refine ⟨fun h => ?_, fun h => absurd h.2.1 (by simp)⟩
    obtain ⟨_, _, hs, _⟩ := h.lead
    cases hs
  | cons c rest =>
    simp only [List.all_eq_true, List.any_eq_true, List.head?_cons, Option.any_some,
      Bool.or_eq_true, beq_iff_eq, bne_iff_ne]
    refine ⟨fun h => ⟨h.word, ?_, h.usable⟩, fun h => ⟨h.1, ⟨c, rest, rfl, h.2.1⟩, h.2.2⟩⟩
    obtain ⟨_, _, hs, hlead⟩ := h.lead
    obtain ⟨rfl, rfl⟩ := List.cons.inj hs
    exact hlead

instance decIsName (s : List Char) : Decidable (IsName s) :=
  decidable_of_iff _ (isName_iff s).symm

theorem IsName.ne_nil {s : List Char} (h : IsName s) : s ≠ [] := by
  obtain ⟨c, rest, rfl, _⟩ := h.lead
  exact List.cons_ne_nil c rest

theorem IsName.solid {s : List Char} (h : IsName s) : ∀ c ∈ s, isBlank c = false :=
  fun c hc => isBlank_of_isWordChar (h.word c hc)

/-! ### What an identifier looks like -/

theorem isWordChar_of_mem_wordPart {camel : List Char} {c : Char} (h : c ∈ wordPart camel) :
    isWordChar c = true :=
  (List.mem_filter.mp ((List.dropWhile_sublist _).subset h)).2

theorem isDigit_head_wordPart {camel rest : List Char} {c : Char}
    (h : wordPart camel = c :: rest) : isDigit c = false := by
  have hhead := List.head?_dropWhile_not isDigit (camel.filter isWordChar)
  rw [show (camel.filter isWordChar).dropWhile isDigit = c :: rest from h] at hhead
  exact hhead

/-- A word character that is no digit is a letter or the underscore. -/
theorem isAlpha_or_underscore {c : Char} (hw : isWordChar c = true) (hd : isDigit c = false) :
    c.isAlpha = true ∨ c = '_' := by
  have hd' : ¬ c.isDigit = true := by
    simpa [Char.isDigit, isDigit, Char.le_def] using hd
  simp only [isWordChar, Char.isAlphanum, Bool.or_eq_true, beq_iff_eq] at hw
  rcases hw with (hw | hw) | hw
  · exact Or.inl hw
  · exact absurd hw hd'
  · exact Or.inr hw

theorem isWordChar_of_isLower {c : Char} (h : c.isLower = true) : isWordChar c = true := by
  simp [isWordChar, Char.isAlphanum, Char.isAlpha, h]

theorem ne_underscore_of_isLower {c : Char} (h : c.isLower = true) : c ≠ '_' := by
  rintro rfl
  exact absurd h (by decide)

/-- **What is left of a label is a name once its first character goes to lower case.** -/
theorem isName_uncapitalize {s : List Char} (hword : ∀ c ∈ s, isWordChar c = true)
    (hdigit : ∀ c rest, s = c :: rest → isDigit c = false) (husable : ∃ c ∈ s, c ≠ '_') :
    IsName (uncapitalize s) := by
  cases s with
  | nil =>
    obtain ⟨c, hc, _⟩ := husable
    cases hc
  | cons c rest =>
    have hc := isAlpha_or_underscore (hword c List.mem_cons_self) (hdigit c rest rfl)
    have hlead : c.toLower.isLower = true ∨ c.toLower = '_' := by
      rcases hc with hc | rfl
      · exact Or.inl (by rw [Char.isLower_toLower_eq_isAlpha, hc])
      · exact Or.inr rfl
    refine ⟨?_, ⟨c.toLower, rest, rfl, hlead⟩, ?_⟩
    · intro d hd
      rcases List.mem_cons.mp hd with rfl | hd
      · rcases hlead with hl | hl
        · exact isWordChar_of_isLower hl
        · rw [hl]; decide
      · exact hword d (List.mem_cons_of_mem c hd)
    · obtain ⟨d, hd, hne⟩ := husable
      rcases List.mem_cons.mp hd with rfl | hd
      · refine ⟨d.toLower, List.mem_cons_self, ne_underscore_of_isLower ?_⟩
        rw [Char.isLower_toLower_eq_isAlpha]
        exact hc.resolve_right hne
      · exact ⟨d, List.mem_cons_of_mem _ hd, hne⟩

theorem identifierChars?_eq (label : List Char) :
    identifierChars? label =
      if (wordPart (camelCase label)).all (· == '_') then none
      else some (uncapitalize (wordPart (camelCase label))) := rfl

theorem isName_of_identifierChars? {label s : List Char} (h : identifierChars? label = some s) :
    IsName s := by
  rw [identifierChars?_eq] at h
  split at h
  · cases h
  · rename_i hall
    obtain rfl := Option.some.inj h
    refine isName_uncapitalize (fun c hc => isWordChar_of_mem_wordPart hc)
      (fun c rest hs => isDigit_head_wordPart hs) ?_
    simpa using hall

theorem isName_fallbackName : IsName fallbackName.toList := by decide

/-- **Every name a label is given is a name.** -/
theorem isName_nameOf (label : String) : IsName (nameOf label).toList := by
  unfold nameOf identifier?
  cases h : identifierChars? label.toList with
  | none => exact isName_fallbackName
  | some s =>
    rw [Option.map_some, Option.getD_some, String.toList_ofList]
    exact isName_of_identifierChars? h

/-! ### A name is its own identifier -/

theorem toLower_of_lead {c : Char} (h : c.isLower = true ∨ c = '_') : c.toLower = c := by
  rcases h with h | rfl
  · exact Char.toLower_eq_of_not_isUpper (Char.not_isUpper_of_isLower h)
  · rfl

theorem lowerForm_of_lead {c : Char} (h : c.isLower = true ∨ c = '_') : lowerForm c = [c] := by
  have hne : ∀ d : Char, d.isLower = false → d ≠ '_' → c ≠ d := by
    rintro d hd hd' rfl
    rcases h with h | h
    · rw [hd] at h; cases h
    · exact hd' h
  have h1 : (c == '\u0130') = false := beq_eq_false_iff_ne.mpr (hne _ (by decide) (by decide))
  have h2 : (c == '\u212a') = false := beq_eq_false_iff_ne.mpr (hne _ (by decide) (by decide))
  simp [lowerForm, lowerForms, List.lookup, h1, h2, toLower_of_lead h]

theorem camelCase_of_isName {s : List Char} (h : IsName s) : camelCase s = s := by
  obtain ⟨c, rest, rfl, hc⟩ := h.lead
  unfold camelCase
  rw [words_of_solid h.solid h.ne_nil]
  simp [camelWords, recase, lowerForm_of_lead hc]

theorem wordPart_of_isName {s : List Char} (h : IsName s) : wordPart s = s := by
  unfold wordPart
  rw [List.filter_eq_self.mpr h.word]
  obtain ⟨c, rest, rfl, hc⟩ := h.lead
  have hd : isDigit c = false := by
    rcases hc with hc | rfl
    · simp only [Char.isLower, Bool.and_eq_true, decide_eq_true_eq, ge_iff_le] at hc
      simp only [isDigit, Bool.and_eq_false_iff, decide_eq_false_iff_not, Char.le_def]
      exact Or.inr fun h9 => absurd (UInt32.le_trans hc.1 h9) (by decide)
    · decide
  rw [List.dropWhile_cons_of_neg (by simp [hd])]

theorem identifier?_of_isName {name : String} (h : IsName name.toList) :
    identifier? name = some name := by
  obtain ⟨d, hd, hne⟩ := h.usable
  have hall : name.toList.all (· == '_') = false := by
    rw [List.all_eq_false]
    exact ⟨d, hd, by simpa using hne⟩
  have huncap : uncapitalize name.toList = name.toList := by
    obtain ⟨c, rest, hs, hc⟩ := h.lead
    rw [hs, uncapitalize, toLower_of_lead hc]
  unfold identifier?
  rw [identifierChars?_eq, camelCase_of_isName h, wordPart_of_isName h, hall, huncap]
  simp

end FlatFile.Schema
