import FlatFile.Proofs.LineGrammar

/-!
# Token lists

Cutting a line into its tokens loses nothing but the spaces at its boundaries.  The lists that come
out are the **proper** ones (`ProperTokens`): no token has a boundary of its own, and where two
tokens meet, the first ends in a character that is not blank and the second starts with a digit.

Both directions go through a list from its front.  A proper list is a first token that may stand
before a proper rest (`properTokens_cons_cons_iff`), `tokens_eq_cons_cons` takes such a token off a
line, and `tokens_append` puts it back.  What the rest of a line starts with is what its first token
starts with (`ProperTokens.startsWithDigit_join`), so that the digit behind a boundary may be looked
for in either.
-/

namespace FlatFile.Schema
open Text

/-! ### Taking tokens off a line and putting them back -/

theorem tokens_eq_singleton_iff (t : String) : tokens t = [t] ↔ ¬ HasBoundary t.toList := by
  rw [tokens_eq_iff_chars, ← tokensFrom_eq_singleton_iff]
  rfl

theorem eq_of_tokens_singleton {line t : String} (h : tokens line = [t]) : line = t :=
  String.toList_inj.mp (eq_of_tokensFrom_singleton ((tokens_eq_iff_chars _ _).mp h))

theorem tokens_append {t rest : String} (ht : tokens t = [t]) (hsolid : EndsSolid t.toList)
    (hrest : startsWithDigit rest.toList = true) :
    tokens (t ++ " " ++ rest) = t :: tokens rest := by
  have hchars := tokensFrom_append ((tokens_eq_iff_chars _ _).mp ht)
    ((solidAfter_false_iff _).mpr hsolid) hrest
  rw [tokens_eq_iff_chars, List.map_cons, ← (tokens_eq_iff_chars rest _).mp rfl, ← hchars]
  simp

theorem tokens_eq_cons_cons {line t u : String} {us : List String}
    (h : tokens line = t :: u :: us) :
    ∃ rest, line = t ++ " " ++ rest ∧ tokens t = [t] ∧ EndsSolid t.toList ∧
      startsWithDigit rest.toList = true ∧ tokens rest = u :: us := by
  obtain ⟨rest, hline, ht, hsolid, hdigit, hrest⟩ :=
    tokensFrom_eq_cons_cons ((tokens_eq_iff_chars _ _).mp h)
  refine ⟨String.ofList rest, ?_, (tokens_eq_iff_chars _ _).mpr ht,
    (solidAfter_false_iff _).mp hsolid, ?_, (tokens_eq_iff_chars _ _).mpr ?_⟩
  · apply String.toList_inj.mp
    rw [hline]
    simp
  · rwa [String.toList_ofList]
  · rwa [String.toList_ofList]

/-! ### Proper lists -/

/-- **A proper list of tokens**: there is one, each is a single token by itself, all but the first
start with a digit, and all but the last are not empty and end in a character that is not blank. -/
structure ProperTokens (ts : List String) : Prop where
  ne_nil : ts ≠ []
  uncut : ∀ t ∈ ts, tokens t = [t]
  digit : ∀ t ∈ ts.tail, startsWithDigit t.toList = true
  solid : ∀ t ∈ ts.dropLast, EndsSolid t.toList

theorem properTokens_singleton_iff (t : String) : ProperTokens [t] ↔ tokens t = [t] := by
  refine ⟨fun h => h.uncut t List.mem_cons_self, fun h => ⟨List.cons_ne_nil t [], ?_, ?_, ?_⟩⟩
  · intro u hu
    rwa [List.mem_singleton.mp hu]
  · exact fun u hu => absurd hu List.not_mem_nil
  · exact fun u hu => absurd hu List.not_mem_nil

/-- A proper list of two tokens or more is a token that may stand before a proper list. -/
theorem properTokens_cons_cons_iff (t u : String) (us : List String) :
    ProperTokens (t :: u :: us) ↔
      tokens t = [t] ∧ EndsSolid t.toList ∧ startsWithDigit u.toList = true ∧
        ProperTokens (u :: us) := by
  constructor
  · intro h
    refine ⟨h.uncut t List.mem_cons_self, h.solid t List.mem_cons_self,
      h.digit u List.mem_cons_self, List.cons_ne_nil u us, ?_, ?_, ?_⟩
    · exact fun v hv => h.uncut v (List.mem_cons_of_mem t hv)
    · exact fun v hv => h.digit v (List.mem_cons_of_mem u hv)
    · exact fun v hv => h.solid v (List.mem_cons_of_mem t hv)
  · rintro ⟨ht, hsolid, hdigit, h⟩
    refine ⟨List.cons_ne_nil t _, ?_, ?_, ?_⟩
    · intro v hv
      rcases List.mem_cons.mp hv with rfl | hv
      · exact ht
      · exact h.uncut v hv
    · intro v hv
      rcases List.mem_cons.mp hv with rfl | hv
      · exact hdigit
      · exact h.digit v hv
    · intro v hv
      rcases List.mem_cons.mp hv with rfl | hv
      · exact hsolid
      · exact h.solid v hv

/-- A joined list starts with a digit exactly when its first token does. -/
theorem ProperTokens.startsWithDigit_join {t : String} {ts : List String}
    (h : ProperTokens (t :: ts)) :
    startsWithDigit (" ".intercalate (t :: ts)).toList = startsWithDigit t.toList := by
  cases ts with
  | nil => rw [String.intercalate_singleton]
  | cons u us =>
    obtain ⟨before, c, ht, -⟩ := h.solid t List.mem_cons_self
    rw [String.intercalate_cons_cons, String.toList_append, String.toList_append, List.append_assoc,
      startsWithDigit_append (by simp [ht])]

/-- **The tokens of a line are proper, and joined they are the line.** -/
theorem proper_of_tokens {line : String} {ts : List String} (h : tokens line = ts) :
    ProperTokens ts ∧ " ".intercalate ts = line := by
  induction ts generalizing line with
  | nil =>
    have hnil := (tokens_eq_iff_chars _ _).mp h
    exact absurd hnil (tokensFrom_ne_nil false _)
  | cons t ts ih =>
    cases ts with
    | nil =>
      obtain rfl := eq_of_tokens_singleton h
      exact ⟨(properTokens_singleton_iff line).mpr h, String.intercalate_singleton⟩
    | cons u us =>
      obtain ⟨rest, rfl, ht, hsolid, hdigit, hrest⟩ := tokens_eq_cons_cons h
      obtain ⟨hproper, rfl⟩ := ih hrest
      rw [hproper.startsWithDigit_join] at hdigit
      exact ⟨(properTokens_cons_cons_iff t u us).mpr ⟨ht, hsolid, hdigit, hproper⟩,
        String.intercalate_cons_cons⟩

/-- **A proper list is cut out of its joined text again.** -/
theorem ProperTokens.tokens_join {ts : List String} (h : ProperTokens ts) :
    tokens (" ".intercalate ts) = ts := by
  induction ts with
  | nil => exact absurd rfl h.ne_nil
  | cons t ts ih =>
    cases ts with
    | nil =>
      rw [String.intercalate_singleton]
      exact (properTokens_singleton_iff t).mp h
    | cons u us =>
      obtain ⟨ht, hsolid, hdigit, hproper⟩ := (properTokens_cons_cons_iff t u us).mp h
      rw [← hproper.startsWithDigit_join] at hdigit
      rw [String.intercalate_cons_cons, tokens_append ht hsolid hdigit, ih hproper]

/-- **Cutting lines is a bijection onto the proper lists.**  The tokens of every line are a proper
list and give the line back when they are joined by single spaces; every proper list is the list of
tokens of its joined text.  That a text is a single token means that no space of it stands right
after a character that is not blank and right before a digit. -/
theorem tokens_bijective_onto_proper :
    (∀ line, ProperTokens (tokens line) ∧ " ".intercalate (tokens line) = line) ∧
    (∀ ts, ProperTokens ts → tokens (" ".intercalate ts) = ts) ∧
    (∀ t, tokens t = [t] ↔ ¬ HasBoundary t.toList) :=
  ⟨fun _ => proper_of_tokens rfl, fun _ h => h.tokens_join, tokens_eq_singleton_iff⟩

/-- A first token with blanks before its digits, one that ends in a sign and one that ends in a
blank. -/
theorem tokens_bijective_blanks :
    ProperTokens ["\t1 né  2", "3 -", "4x "] ∧
      tokens "\t1 né  2 3 - 4x " = ["\t1 né  2", "3 -", "4x "] := by
  have hproper : ProperTokens ["\t1 né  2", "3 -", "4x "] := by
    refine ⟨by decide, by decide, by decide, ?_⟩
    intro t ht
    have hsolid : ∀ t ∈ ["\t1 né  2", "3 -"], solidAfter false t.toList = true := by decide
    exact (solidAfter_false_iff _).mp (hsolid t ht)
  refine ⟨hproper, ?_⟩
  have hjoin := tokens_bijective_onto_proper.2.1 _ hproper
  rwa [show " ".intercalate ["\t1 né  2", "3 -", "4x "] = "\t1 né  2 3 - 4x " from by
    decide +kernel] at hjoin

end FlatFile.Schema
