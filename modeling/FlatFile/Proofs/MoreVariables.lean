import FlatFile.Proofs.Rendering

/-!
# More variables

A template is rendered in two scopes, and the second one binds more.  A variable that the first one
binds has the same value in both, inside a row as well: the rows of a section are part of the value
of its variable, and what a row leaves open is looked up behind it (`Stronger.row`).  So both
renderings go the same way until the first meets a variable it does not know (`Kept`).
-/

namespace FlatFile.Template

/-! ### Scopes that bind more -/

/-- **Scopes that bind more**: a variable found in the first scopes has the same value in the
others. -/
def Stronger (scopes scopes' : List Scope) : Prop :=
  ∀ name v, find scopes name = .ok v → find scopes' name = .ok v

theorem find_eq_unknown {scopes : List Scope} {name : String} {e : TemplateError}
    (h : find scopes name = .error e) : e = .unknownVariable name := by
  unfold find at h
  split at h
  · cases h
  · exact (Except.error.inj h).symm

theorem find_singleton_eq_ok_iff {s : Scope} {name : String} {v : Value} :
    find [s] name = .ok v ↔ s.lookup name = some v := by
  rw [find_cons]
  cases s.lookup name with
  | none => simp [find]
  | some w => simp

theorem stronger_singleton {s s' : Scope}
    (h : ∀ name v, s.lookup name = some v → s'.lookup name = some v) : Stronger [s] [s'] := by
  intro name v hv
  exact find_singleton_eq_ok_iff.mpr (h name v (find_singleton_eq_ok_iff.mp hv))

/-- A row in front hides the same names of both. -/
theorem Stronger.row {scopes scopes' : List Scope} (h : Stronger scopes scopes') (row : Scope) :
    Stronger (row :: scopes) (row :: scopes') := by
  intro name v hv
  rw [find_cons] at hv ⊢
  cases hrow : row.lookup name with
  | some w =>
    rw [hrow] at hv
    exact hv
  | none =>
    rw [hrow] at hv
    exact h name v hv

/-! ### Results that stay -/

/-- **What more variables make of a result**: a text and a list that is no text stay, and only where
a variable was unknown anything may come. -/
inductive Kept {α : Type} : Except TemplateError α → Except TemplateError α → Prop where
  | ok (a : α) : Kept (.ok a) (.ok a)
  | notScalar (name : String) : Kept (.error (.notScalar name)) (.error (.notScalar name))
  | unknown (name : String) (r : Except TemplateError α) : Kept (.error (.unknownVariable name)) r

section Kept
variable {α β : Type}

/-- Going on from a result that stays, in a way that stays. -/
theorem Kept.bind {r r' : Except TemplateError α} {f f' : α → Except TemplateError β}
    (h : Kept r r') (hf : ∀ a, Kept (f a) (f' a)) : Kept (r >>= f) (r' >>= f') := by
  cases h with
  | ok a => exact hf a
  | notScalar name => exact .notScalar name
  | unknown name r => exact .unknown name _

theorem kept_mapM {f f' : α → Except TemplateError β} {items : List α}
    (h : ∀ a ∈ items, Kept (f a) (f' a)) : Kept (items.mapM f) (items.mapM f') := by
  induction items with
  | nil => exact .ok []
  | cons a items ih =>
    rw [List.mapM_cons, List.mapM_cons]
    refine (h a List.mem_cons_self).bind fun b => ?_
    exact (ih fun c hc => h c (List.mem_cons_of_mem a hc)).bind fun bs => .ok (b :: bs)

/-- A section that is left out in both, or rendered in both. -/
theorem Kept.shown (shown : Prop) [Decidable shown] {r r' : Except TemplateError String}
    (h : Kept r r') : Kept (if shown then r else .ok "") (if shown then r' else .ok "") := by
  by_cases hshown : shown
  · rw [if_pos hshown, if_pos hshown]
    exact h
  · rw [if_neg hshown, if_neg hshown]
    exact .ok ""

end Kept

/-! ### Rendering in both -/

theorem renderNodes_cons (n : Node) (ns : List Node) (scopes : List Scope) :
    renderNodes (n :: ns) scopes
      = renderNode n scopes >>= fun s => renderNodes ns scopes >>= fun t => .ok (s ++ t) := by
  rw [renderNodes]
  cases renderNode n scopes with
  | error e => rfl
  | ok s =>
    cases renderNodes ns scopes with
    | error e => rfl
    | ok t => rfl

theorem renderNode_list {name : String} {scopes : List Scope} {rows : List Scope}
    (h : find scopes name = .ok (.list rows)) (body : List Node) :
    renderNode (.group name false body) scopes
      = rows.mapM (fun row => renderNodes body (row :: scopes)) >>= fun ts =>
          .ok (String.join ts) := by
  rw [renderNode, h]
  simp only [Bool.false_eq_true, if_false]
  cases rows.mapM fun row => renderNodes body (row :: scopes) with
  | error e => rfl
  | ok ts => rfl

mutual

/-- **A node in scopes that bind more.** -/
theorem kept_renderNode (n : Node) {scopes scopes' : List Scope} (h : Stronger scopes scopes') :
    Kept (renderNode n scopes) (renderNode n scopes') := by
  match n with
  | .text s => exact .ok s
  | .value name =>
    cases hv : find scopes name with
    | error e =>
      obtain rfl := find_eq_unknown hv
      rw [renderNode, hv]
      exact .unknown name _
    | ok v =>
      rw [renderNode, renderNode, hv, h name v hv]
      cases v with
      | text s => exact .ok s
      | flag b => exact .ok (flagText b)
      | list rows => exact .notScalar name
  | .group name inverted body =>
    cases hv : find scopes name with
    | error e =>
      obtain rfl := find_eq_unknown hv
      rw [renderNode, hv]
      exact .unknown name _
    | ok v =>
      have hv' := h name v hv
      cases v with
      | text s =>
        rw [renderNode_text hv, renderNode_text hv']
        exact (kept_renderNodes body h).shown _
      | flag b =>
        rw [renderNode_flag hv, renderNode_flag hv']
        exact (kept_renderNodes body h).shown _
      | list rows =>
        cases inverted with
        | true =>
          rw [renderNode_no_rows hv, renderNode_no_rows hv']
          exact (kept_renderNodes body h).shown _
        | false =>
          rw [renderNode_list hv, renderNode_list hv']
          refine (kept_mapM fun row _ => ?_).bind fun ts => .ok (String.join ts)
          exact kept_renderNodes body (h.row row)

/-- **Nodes in scopes that bind more.**  The first error is the first in both. -/
theorem kept_renderNodes (ns : List Node) {scopes scopes' : List Scope}
    (h : Stronger scopes scopes') : Kept (renderNodes ns scopes) (renderNodes ns scopes') := by
  match ns with
  | [] => exact .ok ""
  | n :: ns =>
    rw [renderNodes_cons, renderNodes_cons]
    refine (kept_renderNode n h).bind fun s => ?_
    exact (kept_renderNodes ns h).bind fun t => .ok (s ++ t)

end

/-- **Rendering is stable under new variables.**  Let a scope bind all that another binds, with the
same values.  A template that meets no unknown variable in the smaller one gives a text there or
finds a list in the place of a text, and in the larger one it gives the same. -/
theorem render_more_variables (t : Template) (s s' : Scope)
    (hsub : ∀ name v, s.lookup name = some v → s'.lookup name = some v)
    (hknown : ∀ name, t.render s ≠ .error (.unknownVariable name)) :
    t.render s' = t.render s ∧
      ((∃ text, t.render s = .ok text) ∨ ∃ name, t.render s = .error (.notScalar name)) := by
  have hkept : Kept (t.render s) (t.render s') := kept_renderNodes t.nodes (stronger_singleton hsub)
  generalize t.render s = r at *
  generalize t.render s' = r' at *
  cases hkept with
  | ok text => exact ⟨rfl, Or.inl ⟨text, rfl⟩⟩
  | notScalar name => exact ⟨rfl, Or.inr ⟨name, rfl⟩⟩
  | unknown name r' => exact absurd rfl (hknown name)

/-- Two rows that bind `a` themselves and, in the second, `b` as well: that the root binds `a` too
changes nothing. -/
theorem render_more_variables_hidden :
    let t : Template := ⟨[.group "rows" false [.value "a", .value "b", .text ";"]]⟩
    let s : Scope := [("rows", .list [[("a", .text "1")], [("a", .text "2"), ("b", .flag true)]]),
      ("b", .text "0")]
    let more : Scope := [("a", .text "9"), ("c", .list [])]
    t.render s = .ok "10;2true;" ∧ t.render (s ++ more) = .ok "10;2true;" := by
  intro t s more
  have hs : t.render s = .ok "10;2true;" := by decide +kernel
  have hsub : ∀ name v, s.lookup name = some v → (s ++ more).lookup name = some v := by
    intro name v hv
    rw [List.lookup_append, hv]
    rfl
  have hknown : ∀ name, t.render s ≠ .error (.unknownVariable name) := by
    intro name herr
    cases hs.symm.trans herr
  exact ⟨hs, (render_more_variables t s _ hsub hknown).1.trans hs⟩

end FlatFile.Template
