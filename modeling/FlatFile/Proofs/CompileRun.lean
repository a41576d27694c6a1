import FlatFile.Compile
import FlatFile.Proofs.LineGrammar

/-!
# Runs of the compiler

A **run** (`Run`) takes lines in one after the other, each step from the state the step before it
left.  The compiler accepts a list of lines exactly when a run covers it (`acceptFrom_eq_ok_iff`), and
fails exactly when a run covers the lines before one that the next step refuses
(`acceptFrom_eq_error_iff`); lines behind that one are never looked at.  Everything about a
compilation is read off these two facts and off what one step does (`step_eq_ok_iff`,
`line_of_step_error`).

The first result is that compilation is fail-fast: an error names the first line that cannot be taken
in, and it depends on the lines up to that one only (`ofLines_fails_fast`).
-/

namespace FlatFile
open Schema

/-! ### One step -/

namespace Schema.Naming

/-- A label is named exactly when its name is neither reserved nor taken. -/
theorem give_eq_ok_iff (names : Naming) (label : String) (n : Nat) (raw : String) (named : Named)
    (names' : Naming) :
    (names.give label n raw).result = (.ok named, names') ↔
      names.reserved.contains (nameOf label) = false ∧ nameOf label ∉ names.taken ∧
        named = ⟨nameOf label, (identifier? label).isNone⟩ ∧
        names' = ⟨names.reserved, nameOf label :: names.taken⟩ := by
  unfold give
  by_cases hres : names.reserved.contains (nameOf label) = true
  · simp [hres]
  · by_cases htaken : nameOf label ∈ names.taken
    · simp [hres, htaken]
    · simp [hres, htaken, eq_comm]

theorem line_of_give_error {names : Naming} {label : String} {n : Nat} {raw : String}
    {e : SchemaError} (h : (names.give label n raw).result.1 = .error e) :
    e.line? = some n ∧ e.raw? = some raw := by
  simp only [give] at h
  split at h
  · obtain rfl := Except.error.inj h
    exact ⟨rfl, rfl⟩
  · split at h
    · obtain rfl := Except.error.inj h
      exact ⟨rfl, rfl⟩
    · cases h

end Schema.Naming

/-- A check fails in one of three ways. -/
theorem Schema.check_error_cases {cursor : Cursor} {n : Nat} {raw : String}
    {e : SchemaError} (h : cursor.check n raw (tokens raw) = .error e) :
    e = .invalidLine n raw ∨ e = .invalidStart n raw ∨ e = .invalidRange n raw := by
  rcases check_cases cursor n raw with
    ⟨hc, _⟩ | ⟨_, _, _, _, ⟨hc, _⟩ | ⟨hc, _⟩ | ⟨hc, _⟩⟩
  · exact Or.inl (Except.error.inj (h.symm.trans hc))
  · exact Or.inr (Or.inl (Except.error.inj (h.symm.trans hc)))
  · exact Or.inr (Or.inr (Except.error.inj (h.symm.trans hc)))
  · rw [hc] at h
    cases h

theorem Schema.line_of_check_error {cursor : Cursor} {n : Nat} {raw : String}
    {e : SchemaError} (h : cursor.check n raw (tokens raw) = .error e) :
    e.line? = some n ∧ e.raw? = some raw := by
  rcases check_error_cases h with rfl | rfl | rfl
  · exact ⟨rfl, rfl⟩
  · exact ⟨rfl, rfl⟩
  · exact ⟨rfl, rfl⟩

namespace Compilation

/-- A step is a check and then a naming; the first that fails decides. -/
theorem step_result (s : Progress) (n : Nat) (raw : String) :
    (step s n raw).result =
      match s.cursor.check n raw (tokens raw) with
      | .error e => .error e
      | .ok (p, cursor) =>
        match (s.names.give p.label n raw).result with
        | (.error e, _) => .error e
        | (.ok named, names) => .ok (accept n p named, ⟨cursor, names⟩) := by
  unfold step
  cases s.cursor.check n raw (tokens raw) with
  | error e => rfl
  | ok pc =>
    obtain ⟨p, cursor⟩ := pc
    simp only [Traced.andThen_result]
    rcases (s.names.give p.label n raw).result with ⟨e | named, names⟩
    · rfl
    · rfl

/-- **What a step does when it accepts a line.** -/
theorem step_eq_ok_iff (s : Progress) (n : Nat) (raw : String) (a : Accepted) (s' : Progress) :
    (step s n raw).result = .ok (a, s') ↔
      ∃ p cursor, s.cursor.check n raw (tokens raw) = .ok (p, cursor) ∧
        s.names.reserved.contains (nameOf p.label) = false ∧
        nameOf p.label ∉ s.names.taken ∧
        a = accept n p ⟨nameOf p.label, (identifier? p.label).isNone⟩ ∧
        s' = ⟨cursor, ⟨s.names.reserved, nameOf p.label :: s.names.taken⟩⟩ := by
  rw [step_result]
  constructor
  · intro h
    split at h
    · cases h
    · rename_i p cursor hcheck
      split at h
      · cases h
      · rename_i named names hgive
        obtain ⟨hres, htaken, rfl, rfl⟩ := (Naming.give_eq_ok_iff _ _ _ _ _ _).mp hgive
        obtain ⟨rfl, rfl⟩ := Prod.mk.inj (Except.ok.inj h)
        exact ⟨p, cursor, hcheck, hres, htaken, rfl, rfl⟩
  · rintro ⟨p, cursor, hcheck, hres, htaken, rfl, rfl⟩
    have hgive := (Naming.give_eq_ok_iff s.names p.label n raw _ _).mpr ⟨hres, htaken, rfl, rfl⟩
    rw [hcheck]
    simp only [hgive]

/-- A step that fails gives the number and the text of its own line. -/
theorem line_of_step_error {s : Progress} {n : Nat} {raw : String} {e : SchemaError}
    (h : (step s n raw).result = .error e) : e.line? = some n ∧ e.raw? = some raw := by
  rw [step_result] at h
  split at h
  · rename_i e' hcheck
    obtain rfl := Except.error.inj h
    exact line_of_check_error hcheck
  · split at h
    · rename_i e' names hgive
      obtain rfl := Except.error.inj h
      exact Naming.line_of_give_error (congrArg Prod.fst hgive)
    · cases h

/-! ### Runs -/

/-- **A run of the compiler** from a state `s` over lines counted from `n`: what it accepts, one
after the other, and the state it reaches. -/
inductive Run : Progress → Nat → List String → List Accepted → Progress → Prop where
  | nil (s : Progress) (n : Nat) : Run s n [] [] s
  | cons {s s' s'' : Progress} {n : Nat} {raw : String} {raws : List String} {a : Accepted}
      {as : List Accepted} (head : (step s n raw).result = .ok (a, s'))
      (tail : Run s' (n + 1) raws as s'') : Run s n (raw :: raws) (a :: as) s''

section Facts
variable {s s' s'' : Progress} {n : Nat} {raws raws' : List String} {as as' : List Accepted}

theorem Run.length_eq (h : Run s n raws as s') : as.length = raws.length := by
  induction h with
  | nil => rfl
  | cons _ _ ih => rw [List.length_cons, List.length_cons, ih]

/-- A run over one list of lines and then another splits into a run over each. -/
theorem Run.split (h : Run s n (raws ++ raws') as s'') :
    ∃ as₁ as₂ s', as = as₁ ++ as₂ ∧ Run s n raws as₁ s' ∧
      Run s' (n + raws.length) raws' as₂ s'' := by
  induction raws generalizing s n as with
  | nil => exact ⟨[], as, s, rfl, Run.nil s n, h⟩
  | cons raw raws ih =>
    cases h with
    | cons head tail =>
      obtain ⟨as₁, as₂, s', rfl, h₁, h₂⟩ := ih tail
      refine ⟨_ :: as₁, as₂, s', rfl, Run.cons head h₁, ?_⟩
      -- the second run starts at the number the first one ended before
      rw [List.length_cons, show n + (raws.length + 1) = n + 1 + raws.length from by omega]
      exact h₂

theorem acceptFrom_cons_result (raw : String) :
    (acceptFrom s n (raw :: raws)).result =
      match (step s n raw).result with
      | .error e => .error e
      | .ok (a, s') => (acceptFrom s' (n + 1) raws).result.map (a :: ·) := by
  rw [acceptFrom, Traced.andThen_result]
  cases (step s n raw).result with
  | error e => rfl
  | ok as' => rfl

/-- **The compiler accepts exactly the lines that a run covers.** -/
theorem acceptFrom_eq_ok_iff :
    (acceptFrom s n raws).result = .ok as ↔ ∃ s', Run s n raws as s' := by
  induction raws generalizing s n as with
  | nil =>
    constructor
    · intro h
      obtain rfl := Except.ok.inj h
      exact ⟨s, Run.nil s n⟩
    · rintro ⟨_, h⟩
      cases h
      rfl
  | cons raw raws ih =>
    rw [acceptFrom_cons_result]
    constructor
    · intro h
      split at h
      · cases h
      · rename_i a s₁ hstep
        cases hrest : (acceptFrom s₁ (n + 1) raws).result with
        | error e => rw [hrest] at h; cases h
        | ok as₁ =>
          rw [hrest] at h
          obtain rfl := Except.ok.inj h
          obtain ⟨s', hrun⟩ := ih.mp hrest
          exact ⟨s', Run.cons hstep hrun⟩
    · rintro ⟨s', h⟩
      cases h with
      | cons head tail => simp only [head, ih.mpr ⟨s', tail⟩, Except.map]

/-- **The compiler fails exactly where a run cannot go on**: the lines before the failing one are
covered by a run, and the step at that line gives the error. -/
theorem acceptFrom_eq_error_iff {e : SchemaError} :
    (acceptFrom s n raws).result = .error e ↔
      ∃ before raw after as s', raws = before ++ raw :: after ∧ Run s n before as s' ∧
        (step s' (n + before.length) raw).result = .error e := by
  induction raws generalizing s n with
  | nil =>
    constructor
    · intro h
      cases h
    · rintro ⟨before, raw, after, _, _, h, _⟩
      simp at h
  | cons raw raws ih =>
    rw [acceptFrom_cons_result]
    constructor
    · intro h
      split at h
      · rename_i e' hstep
        obtain rfl := Except.error.inj h
        exact ⟨[], raw, raws, [], s, rfl, Run.nil s n, hstep⟩
      · rename_i a s₁ hstep
        cases hrest : (acceptFrom s₁ (n + 1) raws).result with
        | ok as₁ => rw [hrest] at h; cases h
        | error e' =>
          rw [hrest] at h
          obtain rfl := Except.error.inj h
          obtain ⟨before, raw', after, as, s', rfl, hrun, herr⟩ := ih.mp hrest
          refine ⟨raw :: before, raw', after, a :: as, s', rfl, Run.cons hstep hrun, ?_⟩
          rw [List.length_cons, show n + (before.length + 1) = n + 1 + before.length from by omega]
          exact herr
    · rintro ⟨before, raw', after, as, s', hraws, hrun, herr⟩
      -- an empty run fails at the first line, any other one behind it
      cases hrun with
      | nil =>
        obtain ⟨rfl, rfl⟩ := List.cons.inj hraws
        simp only [show (step s n raw).result = .error e from herr]
      | cons head tail =>
        obtain ⟨rfl, rfl⟩ := List.cons.inj hraws
        rw [List.length_cons, show ∀ k, n + (k + 1) = n + 1 + k from by omega] at herr
        simp only [head, ih.mpr ⟨_, raw', after, _, s', rfl, tail, herr⟩, Except.map]

end Facts

/-! ### Whole compilations -/

/-- The state before the first line. -/
def initial (reserved : ReservedWords) : Progress := { names := { reserved := reserved } }

section Whole
variable {reserved : ReservedWords} {raws : List String}

theorem ofLines_result :
    (ofLines reserved raws).result =
      match (acceptFrom (initial reserved) 1 raws).result with
      | .error e => .error e
      | .ok [] => .error .emptySchema
      | .ok as => .ok (ofAccepted as) := rfl

theorem ofLines_eq_ok_iff {c : Compilation} :
    (ofLines reserved raws).result = .ok c ↔
      raws ≠ [] ∧ ∃ as s, Run (initial reserved) 1 raws as s ∧ c = ofAccepted as := by
  rw [ofLines_result]
  constructor
  · intro h
    split at h
    · cases h
    · cases h
    · rename_i as hne haccept
      obtain ⟨s, hrun⟩ := acceptFrom_eq_ok_iff.mp haccept
      refine ⟨?_, as, s, hrun, (Except.ok.inj h).symm⟩
      rintro rfl
      cases hrun
      exact hne rfl
  · rintro ⟨hne, as, s, hrun, rfl⟩
    rw [acceptFrom_eq_ok_iff.mpr ⟨s, hrun⟩]
    cases as with
    | nil => exact absurd (List.eq_nil_of_length_eq_zero hrun.length_eq.symm) hne
    | cons a as => rfl

theorem ofLines_eq_error_iff {e : SchemaError} :
    (ofLines reserved raws).result = .error e ↔
      (raws = [] ∧ e = .emptySchema) ∨
      ∃ before raw after as s, raws = before ++ raw :: after ∧
        Run (initial reserved) 1 before as s ∧
        (step s (1 + before.length) raw).result = .error e := by
  rw [ofLines_result]
  constructor
  · intro h
    split at h
    · rename_i e' haccept
      obtain rfl := Except.error.inj h
      exact Or.inr (acceptFrom_eq_error_iff.mp haccept)
    · rename_i haccept
      obtain rfl := Except.error.inj h
      obtain ⟨s, hrun⟩ := acceptFrom_eq_ok_iff.mp haccept
      exact Or.inl ⟨List.eq_nil_of_length_eq_zero hrun.length_eq.symm, rfl⟩
    · cases h
  · rintro (⟨rfl, rfl⟩ | h)
    · rfl
    · rw [acceptFrom_eq_error_iff.mpr h]

/-- Every prefix of the lines a run covers compiles to the columns at its front. -/
theorem ofLines_prefix {before after : List String} {as : List Accepted} {s : Progress}
    (h : Run (initial reserved) 1 (before ++ after) as s) (hne : before ≠ []) :
    ∃ c, (ofLines reserved before).result = .ok c ∧
      c.layout.columns = (ofAccepted as).layout.columns.take before.length := by
  obtain ⟨as₁, as₂, s', rfl, h₁, _⟩ := h.split
  refine ⟨ofAccepted as₁, ofLines_eq_ok_iff.mpr ⟨hne, as₁, s', h₁, rfl⟩, ?_⟩
  simp [ofAccepted, ← h₁.length_eq]

/-- An error with a line is one of a step: the lines before it are covered by a run. -/
theorem step_error_of_line {e : SchemaError} {k : Nat}
    (h : (ofLines reserved raws).result = .error e) (hk : e.line? = some k) :
    ∃ before raw after as s, raws = before ++ raw :: after ∧ k = before.length + 1 ∧
      e.raw? = some raw ∧ Run (initial reserved) 1 before as s ∧
      (step s (1 + before.length) raw).result = .error e := by
  rcases ofLines_eq_error_iff.mp h with ⟨_, rfl⟩ | ⟨before, raw, after, as, s, hraws, hrun, herr⟩
  · cases hk
  · obtain ⟨hline, hraw⟩ := line_of_step_error herr
    have hkn : k = 1 + before.length := Option.some.inj (hk.symm.trans hline)
    exact ⟨before, raw, after, as, s, hraws, by omega, hraw, hrun, herr⟩

theorem ofLines_eq_emptySchema_iff :
    (ofLines reserved raws).result = .error .emptySchema ↔ raws = [] := by
  constructor
  · intro h
    rcases ofLines_eq_error_iff.mp h with ⟨hraws, _⟩ | ⟨_, _, _, _, _, _, _, herr⟩
    · exact hraws
    · cases (line_of_step_error herr).1
  · rintro rfl
    rfl

end Whole

/-- **Compilation is fail-fast and determined by prefixes.**  An error of line `k` names a line of
the schema and gives its text; every shorter prefix that is not empty compiles, and every schema
with the same first `k` lines fails with the same error.  Of a schema that compiles, every prefix
that is not empty compiles to the columns at the front.  A schema is empty exactly when it has no
lines. -/
theorem ofLines_fails_fast (reserved : ReservedWords) (raws : List String) :
    (∀ e k, (ofLines reserved raws).result = .error e → e.line? = some k →
      1 ≤ k ∧ k ≤ raws.length ∧
      (∃ raw, raws[k - 1]? = some raw ∧ e.raw? = some raw) ∧
      (∀ before, before <+: raws → before ≠ [] → before.length < k →
        ∃ c, (ofLines reserved before).result = .ok c) ∧
      (∀ raws', raws'.take k = raws.take k → (ofLines reserved raws').result = .error e)) ∧
    (∀ c, (ofLines reserved raws).result = .ok c → ∀ before, before <+: raws → before ≠ [] →
      ∃ c', (ofLines reserved before).result = .ok c' ∧
        c'.layout.columns = c.layout.columns.take before.length) ∧
    ((ofLines reserved raws).result = .error .emptySchema ↔ raws = []) := by
  refine ⟨?_, ?_, ofLines_eq_emptySchema_iff⟩
  · intro e k h hk
    obtain ⟨before, raw, after, as, s, rfl, rfl, hraw, hrun, herr⟩ := step_error_of_line h hk
    refine ⟨by omega, by simp, ⟨raw, by simp, hraw⟩, ?_, ?_⟩
    · intro front hfront hne hlt
      -- a shorter prefix ends before the failing line, inside what the run covers
      obtain ⟨rest, rfl⟩ : front <+: before :=
        List.prefix_of_prefix_length_le hfront (List.prefix_append _ _) (by omega)
      obtain ⟨c, hc, _⟩ := ofLines_prefix hrun hne
      exact ⟨c, hc⟩
    · intro raws' htake
      -- the other schema agrees up to and including the failing line
      have hraws' : raws' = before ++ raw :: raws'.drop (before.length + 1) := by
        have hsplit := List.take_append_drop (before.length + 1) raws'
        rw [htake, List.take_length_add_append, List.append_assoc] at hsplit
        exact hsplit.symm
      rw [hraws']
      exact ofLines_eq_error_iff.mpr
        (Or.inr ⟨before, raw, _, as, s, rfl, hrun, herr⟩)
  · rintro c h before ⟨after, rfl⟩ hne
    obtain ⟨_, as, s, hrun, rfl⟩ := ofLines_eq_ok_iff.mp h
    exact ofLines_prefix hrun hne

/-- The second line starts before the first ends; the reserved word behind it plays no part. -/
theorem ofLines_fails_fast_second_line :
    (ofLines (.ofList ["fun"]) ["balance 1 10", "today 4 8", "fun 9 9"]).result
        = .error (.invalidStart 2 "today 4 8") ∧
      (∃ c, (ofLines (.ofList ["fun"]) ["balance 1 10"]).result = .ok c) ∧
      (ofLines (.ofList ["fun"]) ["balance 1 10", "today 4 8", ""]).result
        = .error (.invalidStart 2 "today 4 8") := by
  have herr : (ofLines (.ofList ["fun"]) ["balance 1 10", "today 4 8", "fun 9 9"]).result
      = .error (.invalidStart 2 "today 4 8") := rfl
  obtain ⟨_, _, _, hbefore, hsame⟩ :=
    (ofLines_fails_fast (.ofList ["fun"]) ["balance 1 10", "today 4 8", "fun 9 9"]).1 _ 2 herr rfl
  exact ⟨herr, hbefore ["balance 1 10"] ⟨_, rfl⟩ (by decide) (by decide), hsame _ rfl⟩

end Compilation

end FlatFile
