import FlatFile.Proofs.CompiledLayout

/-!
# Findings of the compiler

A line is found fault with when its label has no identifier, and its column is named after the
fallback then.  Nothing counts these lines, but names are distinct: a second line of the kind, or a
line whose label is the fallback itself, would be a duplicate.  So what each line leaves (`Notes`,
`Run.notes`) and that names are distinct (`Run.lawful`) say all there is about the findings of a
schema that compiles.
-/

namespace FlatFile
open Schema Text

/-- The label of a schema line: the label of its shape without outer blanks. -/
def Labels (raw label : String) : Prop :=
  ∃ outer first last, Shape raw outer first last ∧ label = String.ofList (trim outer.toList)

theorem Labels.unique {raw label label' : String} (h : Labels raw label) (h' : Labels raw label') :
    label = label' := by
  obtain ⟨outer, first, last, hshape, rfl⟩ := h
  obtain ⟨outer', first', last', hshape', rfl⟩ := h'
  obtain ⟨rfl, -, -⟩ := hshape.unique hshape'
  rfl

namespace Compilation

/-- **What line `n` leaves**, by its label: a column with the name of the label, and a finding when
the label has no identifier. -/
structure Notes (n : Nat) (raw label : String) (a : Accepted) : Prop where
  labels : Labels raw label
  name : a.column.name = nameOf label
  finding : a.finding =
    if identifier? label = none then some (Diagnostic.fallback n label fallbackName) else none

section Notes
variable {n : Nat} {raw label : String} {a : Accepted}

theorem Notes.of_none (h : Notes n raw label a) (hnone : identifier? label = none) :
    a.column.name = fallbackName ∧ a.finding = some (Diagnostic.fallback n label fallbackName) := by
  rw [h.name, h.finding, if_pos hnone, nameOf, hnone]
  exact ⟨rfl, rfl⟩

theorem Notes.finding_eq_none (h : Notes n raw label a) (hname : a.column.name ≠ fallbackName) :
    a.finding = none := by
  rw [h.finding, if_neg]
  intro hnone
  exact hname (h.of_none hnone).1

theorem notes_of_step {s s' : Progress} (h : (step s n raw).result = .ok (a, s')) :
    ∃ label, Notes n raw label a := by
  obtain ⟨p, cursor, hcheck, -, -, rfl, -⟩ := (step_eq_ok_iff _ _ _ _ _).mp h
  obtain ⟨outer, first, last, hshape, -, -, rfl, -⟩ := (check_eq_ok_iff _ _ _ _ _).mp hcheck
  -- the label is made opaque, since its name cannot be computed
  obtain ⟨label, hlabel⟩ : ∃ label, label = String.ofList (trim outer.toList) := ⟨_, rfl⟩
  refine ⟨label, ⟨outer, first, last, hshape, hlabel⟩, ?_, ?_⟩
  · simp only [accept, hlabel]
  · simp only [accept, ← hlabel, Option.isNone_iff_eq_none]
    by_cases hnone : identifier? label = none
    · rw [if_pos hnone, if_pos hnone, nameOf, hnone, Option.getD_none]
    · rw [if_neg hnone, if_neg hnone]

end Notes

section Runs
variable {s s' : Progress} {n : Nat} {raws : List String} {as : List Accepted}

/-- **What a run leaves**, line by line. -/
theorem Run.notes (h : Run s n raws as s') {i : Nat} {raw : String} (hraw : raws[i]? = some raw) :
    ∃ a label, as[i]? = some a ∧ Notes (n + i) raw label a := by
  induction h generalizing i with
  | nil => cases hraw
  | @cons s s₁ s'' n line raws a as head tail ih =>
    cases i with
    | zero =>
      obtain rfl := Option.some.inj hraw
      obtain ⟨label, hnotes⟩ := notes_of_step head
      exact ⟨a, label, rfl, hnotes⟩
    | succ i =>
      obtain ⟨b, label, hb, hnotes⟩ := ih hraw
      refine ⟨b, label, hb, ?_⟩
      rw [show n + (i + 1) = n + 1 + i from by omega]
      exact hnotes

/-- Of what a run accepts, each part comes from a line. -/
theorem Run.notes_of_accepted (h : Run s n raws as s') {i : Nat} {a : Accepted}
    (ha : as[i]? = some a) : ∃ raw label, raws[i]? = some raw ∧ Notes (n + i) raw label a := by
  have hi : i < raws.length := by
    rw [← h.length_eq]
    exact (List.getElem?_eq_some_iff.mp ha).1
  obtain ⟨b, label, hb, hnotes⟩ := h.notes (List.getElem?_eq_getElem hi)
  obtain rfl := Option.some.inj (ha.symm.trans hb)
  exact ⟨raws[i], label, List.getElem?_eq_getElem hi, hnotes⟩

/-- No two columns of a run share a name, so a name stands at one place only. -/
theorem Run.index_unique (h : Run s n raws as s') {i j : Nat} {a b : Accepted}
    (ha : as[i]? = some a) (hb : as[j]? = some b) (hname : a.column.name = b.column.name) :
    i = j := by
  have hdistinct := h.lawful.1.distinct
  rw [List.map_map] at hdistinct
  refine (List.getElem?_inj ?_ hdistinct).mp ?_
  · rw [List.length_map]
    exact (List.getElem?_eq_some_iff.mp ha).1
  · simp [ha, hb, hname]

end Runs

/-- A list with one finding. -/
theorem findings_eq_singleton {as : List Accepted} {i : Nat} {a : Accepted} {d : Diagnostic}
    (ha : as[i]? = some a) (hd : a.finding = some d)
    (hothers : ∀ j b, as[j]? = some b → j ≠ i → b.finding = none) :
    as.filterMap Accepted.finding = [d] := by
  obtain ⟨hi, rfl⟩ := List.getElem?_eq_some_iff.mp ha
  have hbefore : (as.take i).filterMap Accepted.finding = [] := by
    refine List.filterMap_eq_nil_iff.mpr fun b hb => ?_
    obtain ⟨k, hk⟩ := List.mem_iff_getElem?.mp hb
    have hlt : k < i := by
      have hlength := (List.getElem?_eq_some_iff.mp hk).1
      rw [List.length_take] at hlength
      omega
    rw [List.getElem?_take_of_lt hlt] at hk
    exact hothers k b hk (by omega)
  have hbehind : (as.drop (i + 1)).filterMap Accepted.finding = [] := by
    refine List.filterMap_eq_nil_iff.mpr fun b hb => ?_
    obtain ⟨k, hk⟩ := List.mem_iff_getElem?.mp hb
    rw [List.getElem?_drop] at hk
    exact hothers _ b hk (by omega)
  rw [← List.take_append_drop i as, List.drop_eq_getElem_cons hi, List.filterMap_append,
    List.filterMap_cons_some hd, hbefore, hbehind]
  rfl

/-- **The findings of a run**: none when every label has an identifier, and otherwise the one of the
line whose label has none. -/
theorem Run.findings {s s' : Progress} {n : Nat} {raws : List String} {as : List Accepted}
    (h : Run s n raws as s') :
    (as.filterMap Accepted.finding = [] ∧
      ∀ (i : Nat) raw label, raws[i]? = some raw → Labels raw label → identifier? label ≠ none) ∨
    ∃ (i : Nat) (raw label : String) (a : Accepted),
      raws[i]? = some raw ∧ Labels raw label ∧ identifier? label = none ∧
      as[i]? = some a ∧ a.column.name = fallbackName ∧
      as.filterMap Accepted.finding = [Diagnostic.fallback (n + i) label fallbackName] := by
  by_cases hall : ∀ (i : Nat) raw label,
      raws[i]? = some raw → Labels raw label → identifier? label ≠ none
  · refine Or.inl ⟨List.filterMap_eq_nil_iff.mpr ?_, hall⟩
    intro a ha
    obtain ⟨i, hi⟩ := List.mem_iff_getElem?.mp ha
    obtain ⟨raw, label, hraw, hnotes⟩ := h.notes_of_accepted hi
    rw [hnotes.finding, if_neg (hall i raw label hraw hnotes.labels)]
  · push Not at hall
    obtain ⟨i, raw, label, hraw, hlabels, hnone⟩ := hall
    obtain ⟨a, label', ha, hnotes⟩ := h.notes hraw
    obtain rfl := hlabels.unique hnotes.labels
    obtain ⟨hname, hfinding⟩ := hnotes.of_none hnone
    refine Or.inr ⟨i, raw, label, a, hraw, hlabels, hnone, ha, hname, ?_⟩
    refine findings_eq_singleton ha hfinding ?_
    intro j b hb hne
    obtain ⟨_, _, _, hnotes'⟩ := h.notes_of_accepted hb
    exact hnotes'.finding_eq_none fun he => hne (h.index_unique hb ha (he.trans hname.symm))

theorem message_fallback (n : Nat) (label : String) :
    (Diagnostic.fallback n label fallbackName).message = "'" ++ label ++
      "' is not a valid variable name so it is renamed to 'unknown'. Please provide a better columnName instead." := by
  have htail : "' is not a valid variable name so it is renamed to '" ++
      (fallbackName ++ "'. Please provide a better columnName instead.") =
      "' is not a valid variable name so it is renamed to 'unknown'. Please provide a better columnName instead." := by
    decide +kernel
  simp only [Diagnostic.fallback, String.append_assoc, htail]

/-- **Findings are exact.**  Every line of a schema that compiles has one label.  There is at most
one finding, and there is one exactly when the label of some line has no identifier.  No other line
is like that one then, the finding is a `W001` of that line and names its label, and the column of
the line is named `unknown`. -/
theorem ofLines_findings_exact (reserved : ReservedWords) (raws : List String) (c : Compilation)
    (h : (ofLines reserved raws).result = .ok c) :
    (∀ raw ∈ raws, ∃! label, Labels raw label) ∧
    c.diagnostics.items.length ≤ 1 ∧
    (c.diagnostics.items ≠ [] ↔ ∃ (i : Nat) (raw label : String),
      raws[i]? = some raw ∧ Labels raw label ∧ identifier? label = none) ∧
    (∀ (i : Nat) (raw label : String),
      raws[i]? = some raw → Labels raw label → identifier? label = none →
      (∀ (j : Nat) (raw' label' : String),
        raws[j]? = some raw' → Labels raw' label' → identifier? label' = none → j = i) ∧
      (∃ d, c.diagnostics.items = [d] ∧ d.line = i + 1 ∧ d.code.code = "W001" ∧
        d.message = "'" ++ label ++
          "' is not a valid variable name so it is renamed to 'unknown'. Please provide a better columnName instead.") ∧
      ∃ col, c.layout.columns[i]? = some col ∧ col.name = "unknown") := by
  obtain ⟨-, as, s, hrun, rfl⟩ := ofLines_eq_ok_iff.mp h
  have hlabels : ∀ raw ∈ raws, ∃! label, Labels raw label := by
    intro raw hraw
    obtain ⟨i, hi⟩ := List.mem_iff_getElem?.mp hraw
    obtain ⟨_, label, -, hnotes⟩ := hrun.notes hi
    exact ⟨label, hnotes.labels, fun label' h' => h'.unique hnotes.labels⟩
  refine ⟨hlabels, ?_⟩
  change (as.filterMap Accepted.finding).length ≤ 1 ∧ (as.filterMap Accepted.finding ≠ [] ↔ _) ∧ _
  rcases hrun.findings with ⟨hnil, hall⟩ | ⟨i, raw, label, a, hraw, hlabel, hnone, ha, hname, hone⟩
  · rw [hnil]
    refine ⟨Nat.zero_le 1, ⟨fun hne => absurd rfl hne, ?_⟩, ?_⟩
    · rintro ⟨i, raw, label, hraw, hlabel, hnone⟩
      exact absurd hnone (hall i raw label hraw hlabel)
    · intro i raw label hraw hlabel hnone
      exact absurd hnone (hall i raw label hraw hlabel)
  · -- a line whose label has no identifier is the one with the fallback, since names are distinct
    have honly : ∀ (j : Nat) (raw' label' : String), raws[j]? = some raw' → Labels raw' label' →
        identifier? label' = none → j = i := by
      intro j raw' label' hraw' hlabel' hnone'
      obtain ⟨b, _, hb, hnotes⟩ := hrun.notes hraw'
      obtain rfl := hlabel'.unique hnotes.labels
      exact hrun.index_unique hb ha ((hnotes.of_none hnone').1.trans hname.symm)
    refine ⟨by rw [hone]; exact Nat.le_refl 1, ⟨fun _ => ⟨i, raw, label, hraw, hlabel, hnone⟩,
      fun _ => by rw [hone]; exact List.cons_ne_nil _ _⟩, ?_⟩
    intro j raw' label' hraw' hlabel' hnone'
    obtain rfl := honly j raw' label' hraw' hlabel' hnone'
    obtain rfl := Option.some.inj (hraw.symm.trans hraw')
    obtain rfl := hlabel.unique hlabel'
    refine ⟨honly, ⟨_, hone, Nat.add_comm 1 j, rfl, message_fallback _ _⟩, a.column, ?_, hname⟩
    simp [ofAccepted, ha]

/-- The label of the second line is nothing but signs, with blanks before it. -/
theorem ofLines_findings_exact_signs :
    (ofLines (.ofList ["fun"]) ["balance 1 10", "  #! 11 12", "3rd 12 14"]).result
        = .ok ⟨⟨[⟨"balance", 1, 10⟩, ⟨"unknown", 11, 12⟩, ⟨"rd", 12, 14⟩]⟩,
          ⟨[Diagnostic.fallback 2 "#!" "unknown"]⟩⟩ ∧
      Labels "  #! 11 12" "#!" ∧ identifier? "#!" = none ∧
      (∀ (j : Nat) (raw label : String),
        ["balance 1 10", "  #! 11 12", "3rd 12 14"][j]? = some raw → Labels raw label →
        identifier? label = none → j = 1) ∧
      (Diagnostic.fallback 2 "#!" "unknown").message = "'#!' is not a valid variable name so it is renamed to 'unknown'. Please provide a better columnName instead." := by
  have h : (ofLines (.ofList ["fun"]) ["balance 1 10", "  #! 11 12", "3rd 12 14"]).result
      = .ok ⟨⟨[⟨"balance", 1, 10⟩, ⟨"unknown", 11, 12⟩, ⟨"rd", 12, 14⟩]⟩,
        ⟨[Diagnostic.fallback 2 "#!" "unknown"]⟩⟩ := by decide +kernel
  have hshape : Shape "  #! 11 12" "  #!" "11" "12" :=
    (shape_iff_tokens _ _ _ _).mpr (by decide +kernel)
  have hlabel : Labels "  #! 11 12" "#!" := ⟨"  #!", "11", "12", hshape, by decide +kernel⟩
  have hnone : identifier? "#!" = none := by decide +kernel
  obtain ⟨-, -, -, hexact⟩ := ofLines_findings_exact _ _ _ h
  obtain ⟨honly, ⟨d, hd, -, -, hmessage⟩, -⟩ := hexact 1 "  #! 11 12" "#!" rfl hlabel hnone
  obtain rfl := (List.cons.inj hd).1
  exact ⟨h, hlabel, hnone, honly, hmessage.trans (by decide +kernel)⟩

end Compilation

end FlatFile
