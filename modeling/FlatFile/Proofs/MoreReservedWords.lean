import FlatFile.Proofs.CompileRun

/-!
# More reserved words

Two runs of the compiler go over the same lines, and the second one has more reserved words.  As
long as both go on, their states differ in the words only (`Progress.reserving`), and what the second
one does with a line is read off what the first one does (`step_reserving`): it takes the line in
alike, or it refuses it for a word the first one did not know.  The reserved words are asked before
the names taken, so that a duplicate may be refused as a reserved word as well, but on the same line.
-/

namespace FlatFile
open Schema

/-- The same state with other reserved words. -/
def Progress.reserving (s : Progress) (reserved : ReservedWords) : Progress :=
  ⟨s.cursor, ⟨reserved, s.names.taken⟩⟩

namespace SchemaError

/-- The error that more reserved words make of an error: a name that was refused as a duplicate is
refused as a reserved word when it is one. -/
def reserving (reserved : ReservedWords) : SchemaError → SchemaError
  | .duplicate name n raw =>
    if reserved.contains name then .reserved name n raw else .duplicate name n raw
  | e => e

theorem reserving_cases (reserved : ReservedWords) (e : SchemaError) :
    e.reserving reserved = e ∨ ∃ name n raw, e.reserving reserved = .reserved name n raw := by
  cases e with
  | duplicate name n raw =>
    by_cases hres : reserved.contains name = true
    · exact Or.inr ⟨name, n, raw, if_pos hres⟩
    · exact Or.inl (if_neg hres)
  | invalidLine => exact Or.inl rfl
  | invalidStart => exact Or.inl rfl
  | invalidRange => exact Or.inl rfl
  | reserved => exact Or.inl rfl
  | emptySchema => exact Or.inl rfl

end SchemaError

/-! ### One step of both -/

/-- The error of a line that is refused before it is named does not depend on the words. -/
theorem Schema.reserving_check_error {cursor : Cursor} {n : Nat} {raw : String} {e : SchemaError}
    (h : cursor.check n raw (tokens raw) = .error e) (reserved : ReservedWords) :
    e.reserving reserved = e := by
  rcases check_error_cases h with rfl | rfl | rfl
  · rfl
  · rfl
  · rfl

/-- **Naming a label with more reserved words.** -/
theorem Schema.Naming.give_reserving {names : Naming} {reserved : ReservedWords}
    (hsub : ∀ w, names.reserved.contains w = true → reserved.contains w = true)
    (label : String) (n : Nat) (raw : String) :
    (give ⟨reserved, names.taken⟩ label n raw).result =
      match (names.give label n raw).result with
      | (.error e, names') => (.error (e.reserving reserved), ⟨reserved, names'.taken⟩)
      | (.ok named, names') =>
        if reserved.contains named.name then
          (.error (.reserved named.name n raw), ⟨reserved, names.taken⟩)
        else (.ok named, ⟨reserved, names'.taken⟩) := by
  simp only [give]
  by_cases hold : names.reserved.contains (nameOf label) = true
  · rw [if_pos hold, if_pos (hsub _ hold)]
    rfl
  · rw [if_neg hold]
    by_cases htaken : names.taken.contains (nameOf label) = true
    · rw [if_pos htaken, if_pos htaken]
      simp only [SchemaError.reserving]
      split <;> rfl
    · rw [if_neg htaken, if_neg htaken]

namespace Compilation

section Steps
variable {s s' : Progress} {reserved : ReservedWords} {n : Nat} {raw : String}

theorem reserved_of_step {a : Accepted} (h : (step s n raw).result = .ok (a, s')) :
    s'.names.reserved = s.names.reserved := by
  obtain ⟨_, _, _, _, _, _, rfl⟩ := (step_eq_ok_iff _ _ _ _ _).mp h
  rfl

/-- **One line with more reserved words.**  The line is taken in as before, unless its name is one
of the words; and if it was refused, it is refused. -/
theorem step_reserving
    (hsub : ∀ w, s.names.reserved.contains w = true → reserved.contains w = true)
    (n : Nat) (raw : String) :
    (step (s.reserving reserved) n raw).result =
      match (step s n raw).result with
      | .error e => .error (e.reserving reserved)
      | .ok (a, s') =>
        if reserved.contains a.column.name then .error (.reserved a.column.name n raw)
        else .ok (a, s'.reserving reserved) := by
  rw [step_result, step_result]
  simp only [Progress.reserving]
  cases hcheck : s.cursor.check n raw (tokens raw) with
  | error e => simp only [reserving_check_error hcheck]
  | ok placed =>
    obtain ⟨p, cursor⟩ := placed
    simp only [Naming.give_reserving hsub]
    rcases (s.names.give p.label n raw).result with ⟨e | named, names⟩
    · rfl
    · by_cases hres : reserved.contains named.name = true
      · simp only [hres, if_true, accept]
      · simp only [hres, Bool.false_eq_true, if_false, accept]

theorem step_reserving_eq_ok_iff
    (hsub : ∀ w, s.names.reserved.contains w = true → reserved.contains w = true)
    {a : Accepted} {t : Progress} :
    (step (s.reserving reserved) n raw).result = .ok (a, t) ↔
      ∃ s', (step s n raw).result = .ok (a, s') ∧ t = s'.reserving reserved ∧
        reserved.contains a.column.name = false := by
  rw [step_reserving hsub]
  constructor
  · intro h
    split at h
    · cases h
    · rename_i b s' hstep
      by_cases hres : reserved.contains b.column.name = true
      · rw [if_pos hres] at h
        cases h
      · rw [if_neg hres] at h
        obtain ⟨rfl, rfl⟩ := Prod.mk.inj (Except.ok.inj h)
        exact ⟨s', hstep, rfl, by simpa using hres⟩
  · rintro ⟨s', hstep, rfl, hfree⟩
    simp only [hstep, hfree, Bool.false_eq_true, if_false]

end Steps

/-! ### Runs of both -/

section Runs
variable {s t : Progress} {reserved : ReservedWords} {n : Nat} {raws : List String}
  {as : List Accepted}

theorem Run.reserved_eq (h : Run s n raws as t) : t.names.reserved = s.names.reserved := by
  induction h with
  | nil => rfl
  | cons head _ ih => rw [ih, reserved_of_step head]

/-- **A run with more reserved words** is a run without them that gave none of them as a name. -/
theorem run_reserving_iff
    (hsub : ∀ w, s.names.reserved.contains w = true → reserved.contains w = true) :
    Run (s.reserving reserved) n raws as t ↔
      ∃ s', Run s n raws as s' ∧ t = s'.reserving reserved ∧
        ∀ a ∈ as, reserved.contains a.column.name = false := by
  induction raws generalizing s n as with
  | nil =>
    constructor
    · intro h
      cases h
      exact ⟨s, Run.nil s n, rfl, by simp⟩
    · rintro ⟨s', h, rfl, _⟩
      cases h
      exact Run.nil _ n
  | cons raw raws ih =>
    constructor
    · intro h
      cases h with
      | cons head tail =>
        obtain ⟨s₁, hstep, rfl, hfree⟩ := (step_reserving_eq_ok_iff hsub).mp head
        rw [← reserved_of_step hstep] at hsub
        obtain ⟨s', hrun, rfl, hrest⟩ := (ih hsub).mp tail
        exact ⟨s', Run.cons hstep hrun, rfl, List.forall_mem_cons.mpr ⟨hfree, hrest⟩⟩
    · rintro ⟨s', h, rfl, hfree⟩
      cases h with
      | cons head tail =>
        obtain ⟨hfirst, hrest⟩ := List.forall_mem_cons.mp hfree
        refine Run.cons ((step_reserving_eq_ok_iff hsub).mpr ⟨_, head, rfl, hfirst⟩) ?_
        rw [← reserved_of_step head] at hsub
        exact (ih hsub).mpr ⟨s', tail, rfl, hrest⟩

/-- Where a run cannot go on, a run with more reserved words stops there or before. -/
theorem acceptFrom_reserving_error {before : List String} {raw : String} {e : SchemaError}
    (hsub : ∀ w, s.names.reserved.contains w = true → reserved.contains w = true)
    (hrun : Run s n before as t) (herr : (step t (n + before.length) raw).result = .error e)
    (after : List String) :
    ∃ e' k, (acceptFrom (s.reserving reserved) n (before ++ raw :: after)).result = .error e' ∧
      e'.line? = some k ∧ k ≤ n + before.length := by
  induction hrun with
  | nil s n =>
    have hstep : (step (s.reserving reserved) n raw).result = .error (e.reserving reserved) := by
      rw [step_reserving hsub, show (step s n raw).result = .error e from herr]
    refine ⟨e.reserving reserved, n, ?_, (line_of_step_error hstep).1, by omega⟩
    rw [List.nil_append, acceptFrom_cons_result, hstep]
  | @cons s s₁ t n line before a as head tail ih =>
    rw [List.cons_append, acceptFrom_cons_result, step_reserving hsub, head]
    by_cases hres : reserved.contains a.column.name = true
    · exact ⟨.reserved a.column.name n line, n, by simp only [hres, if_true], rfl, by omega⟩
    · rw [← reserved_of_step head] at hsub
      rw [List.length_cons, show n + (before.length + 1) = n + 1 + before.length from by omega] at *
      obtain ⟨e', k, hrest, hline, hk⟩ := ih hsub herr
      refine ⟨e', k, ?_, hline, hk⟩
      simp only [hres, Bool.false_eq_true, if_false, hrest, Except.map]

end Runs

/-! ### Whole compilations -/

/-- **Reserved words only ever restrict.**  With more of them a schema compiles exactly when it
compiled before, to the same columns and findings, and none of its columns is named after one of
them.  An error other than that for a reserved word was the error before; and where there was an
error on a line, there is one on that line or an earlier one. -/
theorem ofLines_more_reserved (reserved reserved' : ReservedWords)
    (hsub : ∀ w, reserved.contains w = true → reserved'.contains w = true) (raws : List String) :
    (∀ c, (ofLines reserved' raws).result = .ok c ↔
      (ofLines reserved raws).result = .ok c ∧
        ∀ col ∈ c.layout.columns, reserved'.contains col.name = false) ∧
    (∀ e, (ofLines reserved' raws).result = .error e →
      (∀ name line raw, e ≠ .reserved name line raw) →
      (ofLines reserved raws).result = .error e) ∧
    (∀ e k, (ofLines reserved raws).result = .error e → e.line? = some k →
      ∃ e' k', (ofLines reserved' raws).result = .error e' ∧ e'.line? = some k' ∧ k' ≤ k) := by
  have hrun : ∀ {raws as t}, Run (initial reserved') 1 raws as t ↔ _ :=
    run_reserving_iff (s := initial reserved) hsub
  refine ⟨?_, ?_, ?_⟩
  · intro c
    rw [ofLines_eq_ok_iff, ofLines_eq_ok_iff]
    constructor
    · rintro ⟨hne, as, t, h, rfl⟩
      obtain ⟨s, hs, -, hfree⟩ := hrun.mp h
      exact ⟨⟨hne, as, s, hs, rfl⟩, List.forall_mem_map.mpr hfree⟩
    · rintro ⟨⟨hne, as, s, hs, rfl⟩, hfree⟩
      exact ⟨hne, as, _, hrun.mpr ⟨s, hs, rfl, List.forall_mem_map.mp hfree⟩, rfl⟩
  · intro e h hother
    rcases ofLines_eq_error_iff.mp h with ⟨rfl, rfl⟩ | ⟨before, raw, after, as, t, rfl, ht, herr⟩
    · rfl
    obtain ⟨s, hs, rfl, -⟩ := hrun.mp ht
    refine ofLines_eq_error_iff.mpr (Or.inr ⟨before, raw, after, as, s, rfl, hs, ?_⟩)
    rw [step_reserving (by rwa [hs.reserved_eq])] at herr
    split at herr
    · rename_i e₀ hstep
      obtain rfl := Except.error.inj herr
      rcases e₀.reserving_cases reserved' with hsame | ⟨name, n, raw', hnew⟩
      · rw [hsame, hstep]
      · exact absurd hnew (hother name n raw')
    · -- a line that was taken in before is refused for a reserved word only
      split at herr
      · exact absurd (Except.error.inj herr).symm (hother _ _ _)
      · cases herr
  · intro e k h hk
    obtain ⟨before, raw, after, as, s, rfl, rfl, -, hs, herr⟩ := step_error_of_line h hk
    obtain ⟨e', k', haccept, hline, hle⟩ :=
      acceptFrom_reserving_error hsub hs herr after
    refine ⟨e', k', ?_, hline, by omega⟩
    rw [ofLines_result, show initial reserved' = (initial reserved).reserving reserved' from rfl,
      haccept]

/-- The fallback becomes a reserved word: the second line is refused now, before the duplicate on
the third, and the first line alone compiles as it did. -/
theorem ofLines_more_reserved_fallback :
    (ofLines (.ofList ["fun"]) ["balance 1 10", "## 11 12", "Balance 13 14"]).result
        = .error (.duplicate "balance" 3 "Balance 13 14") ∧
      (∃ e k, (ofLines (.ofList ["fun", "unknown"])
          ["balance 1 10", "## 11 12", "Balance 13 14"]).result = .error e ∧
        e.line? = some k ∧ k ≤ 3) ∧
      (ofLines (.ofList ["fun", "unknown"]) ["balance 1 10"]).result
        = .ok ⟨⟨[⟨"balance", 1, 10⟩]⟩, ⟨[]⟩⟩ := by
  have hsub : ∀ w, (ReservedWords.ofList ["fun"]).contains w = true →
      (ReservedWords.ofList ["fun", "unknown"]).contains w = true := by
    intro w hw
    simp only [ReservedWords.ofList, ReservedWords.contains_extend, Bool.or_eq_true,
      List.contains_iff_mem, List.mem_cons] at hw ⊢
    tauto
  have herr : (ofLines (.ofList ["fun"]) ["balance 1 10", "## 11 12", "Balance 13 14"]).result
      = .error (.duplicate "balance" 3 "Balance 13 14") := by decide +kernel
  have hfirst : (ofLines (.ofList ["fun"]) ["balance 1 10"]).result
      = .ok ⟨⟨[⟨"balance", 1, 10⟩]⟩, ⟨[]⟩⟩ := rfl
  have hfree : ∀ col ∈ [(⟨"balance", 1, 10⟩ : Column)],
      (ReservedWords.ofList ["fun", "unknown"]).contains col.name = false := by decide +kernel
  exact ⟨herr, (ofLines_more_reserved _ _ hsub _).2.2 _ 3 herr rfl,
    ((ofLines_more_reserved _ _ hsub ["balance 1 10"]).1 _).mpr ⟨hfirst, hfree⟩⟩

end Compilation

end FlatFile
