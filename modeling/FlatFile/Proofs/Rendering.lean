import FlatFile.Target.Scope
import Mathlib

/-!
# Templates that always render

Rendering fails on a variable that is not bound, and on a list where a text is asked for.  A
template that is well scoped for the kinds of its variables meets neither: in every scope that binds
variables of those kinds it renders, and scopes that agree on these variables give the same text
(`exists_renderNodes`).  The scope of a layout and a profile binds the variables of `scopeKinds`
(`agree_scope`).
-/

namespace FlatFile.Template

/-! ### Kinds of variables -/

/-- What a variable holds: a text or a flag, or rows that bind the same names to texts and flags. -/
inductive VarKind where
  | scalar
  | rows (names : List String)
  deriving DecidableEq

/-- The kinds of variables. -/
abbrev Kinds := List (String × VarKind)

/-- A value is of a kind. -/
inductive Value.HasKind : Value → VarKind → Prop where
  | text (s : String) : HasKind (.text s) .scalar
  | flag (b : Bool) : HasKind (.flag b) .scalar
  | list {rows : List Scope} {names : List String}
      (keys : ∀ row ∈ rows, row.map Prod.fst = names)
      (scalars : ∀ row ∈ rows, ∀ p ∈ row, HasKind p.2 .scalar) :
      HasKind (.list rows) (.rows names)

/-- The kinds in the rows of a section, which hide the kinds outside. -/
def Kinds.inRow (kinds : Kinds) (names : List String) : Kinds :=
  names.map (fun name => (name, .scalar)) ++ kinds

mutual

/-- A node uses each variable as its kind allows. -/
def Node.scoped : Node → Kinds → Bool
  | .text _, _ => true
  | .value name, kinds => kinds.lookup name = some .scalar
  | .group name inverted body, kinds =>
    match kinds.lookup name with
    | none => false
    | some .scalar => scopedAll body kinds
    | some (.rows names) => scopedAll body (if inverted then kinds else kinds.inRow names)

/-- Nodes use each variable as its kind allows. -/
def scopedAll : List Node → Kinds → Bool
  | [], _ => true
  | n :: ns, kinds => n.scoped kinds && scopedAll ns kinds

end

theorem scopedAll_iff {ns : List Node} {kinds : Kinds} :
    scopedAll ns kinds = true ↔ ∀ n ∈ ns, n.scoped kinds = true := by
  induction ns with
  | nil => simp [scopedAll]
  | cons n ns ih => simp [scopedAll, ih]

/-! ### Scopes that bind variables of their kinds -/

theorem find_cons (row : Scope) (scopes : List Scope) (name : String) :
    find (row :: scopes) name
      = match row.lookup name with
        | some v => .ok v
        | none => find scopes name := by
  rw [find, List.findSome?_cons]
  cases row.lookup name with
  | none => rfl
  | some v => rfl

/-- **Two stacks of scopes agree**: both bind the variables, to the same values, and these are of
their kinds. -/
def Agree (kinds : Kinds) (scopes scopes' : List Scope) : Prop :=
  ∀ name kind, kinds.lookup name = some kind →
    ∃ v, find scopes name = .ok v ∧ find scopes' name = .ok v ∧ v.HasKind kind

theorem Agree.of_mem {kinds : Kinds} {scopes scopes' : List Scope}
    (h : ∀ p ∈ kinds,
      ∃ v, find scopes p.1 = .ok v ∧ find scopes' p.1 = .ok v ∧ v.HasKind p.2) :
    Agree kinds scopes scopes' := by
  intro name kind hlookup
  obtain ⟨before, after, hsplit, -⟩ := List.lookup_eq_some_iff.mp hlookup
  exact h (name, kind) (by rw [hsplit]; simp)

theorem lookup_inRow_of_mem {kinds : Kinds} {names : List String} {name : String}
    (h : name ∈ names) : (kinds.inRow names).lookup name = some .scalar := by
  rw [Kinds.inRow, List.lookup_append, List.lookup_graph (fun _ => VarKind.scalar) h]
  rfl

theorem lookup_inRow_of_not_mem {kinds : Kinds} {names : List String} {name : String}
    (h : name ∉ names) : (kinds.inRow names).lookup name = kinds.lookup name := by
  have hnone : (names.map fun name => (name, VarKind.scalar)).lookup name = none := by
    rw [List.lookup_eq_none_iff]
    simp only [List.mem_map, forall_exists_index, and_imp, forall_apply_eq_imp_iff₂]
    intro n hn
    simpa using fun he : name = n => h (he ▸ hn)
  rw [Kinds.inRow, List.lookup_append, hnone]
  rfl

/-- A row over scopes that agree: the names of the row are found in it, all others behind it. -/
theorem Agree.row {kinds : Kinds} {scopes scopes' : List Scope} (h : Agree kinds scopes scopes')
    {row : Scope} {names : List String} (hkeys : row.map Prod.fst = names)
    (hscalar : ∀ p ∈ row, p.2.HasKind .scalar) :
    Agree (kinds.inRow names) (row :: scopes) (row :: scopes') := by
  intro name kind hkind
  rw [find_cons, find_cons]
  cases hv : row.lookup name with
  | some v =>
    obtain ⟨before, after, hrow, -⟩ := List.lookup_eq_some_iff.mp hv
    have hmem : (name, v) ∈ row := by rw [hrow]; simp
    have hname : name ∈ names := hkeys ▸ List.mem_map_of_mem hmem
    rw [lookup_inRow_of_mem hname] at hkind
    obtain rfl := Option.some.inj hkind
    exact ⟨v, rfl, rfl, hscalar _ hmem⟩
  | none =>
    have hname : name ∉ names := by
      rw [← hkeys]
      intro hmem
      obtain ⟨p, hp, rfl⟩ := List.mem_map.mp hmem
      simpa using List.lookup_eq_none_iff.mp hv p hp
    rw [lookup_inRow_of_not_mem hname] at hkind
    exact h name kind hkind

/-! ### Rendering -/

/-- When every element has a result, so has the list. -/
theorem mapM_eq_ok {α : Type} {f : α → Except TemplateError String} {g : α → String}
    {items : List α} (h : ∀ a ∈ items, f a = .ok (g a)) : items.mapM f = .ok (items.map g) := by
  induction items with
  | nil => rfl
  | cons a items ih =>
    rw [List.mapM_cons, h a List.mem_cons_self, ih fun b hb => h b (List.mem_cons_of_mem a hb)]
    rfl

section Group
variable {name : String} {scopes : List Scope}

/-- A section over a text is rendered when the text is not empty, an inverted one when it is. -/
theorem renderNode_text {s : String} (h : find scopes name = .ok (.text s)) (inverted : Bool)
    (body : List Node) :
    renderNode (.group name inverted body) scopes
      = if s.isEmpty = inverted then renderNodes body scopes else .ok "" := by
  rw [renderNode, h]

/-- A section over a flag is rendered when the flag is set, an inverted one when it is not. -/
theorem renderNode_flag {b : Bool} (h : find scopes name = .ok (.flag b)) (inverted : Bool)
    (body : List Node) :
    renderNode (.group name inverted body) scopes
      = if b ≠ inverted then renderNodes body scopes else .ok "" := by
  rw [renderNode, h]
  exact (ite_not _ _ _).symm

/-- A text that is left out where a flag is set. -/
theorem renderNode_unless {b : Bool} (h : find scopes name = .ok (.flag b)) (s : String) :
    renderNode (.group name true [.text s]) scopes = .ok (if b then "" else s) := by
  rw [renderNode_flag h]
  cases b with
  | false => simp [renderNodes, renderNode]
  | true => rfl

theorem renderNode_no_rows {rows : List Scope} (h : find scopes name = .ok (.list rows))
    (body : List Node) :
    renderNode (.group name true body) scopes
      = if rows.isEmpty then renderNodes body scopes else .ok "" := by
  rw [renderNode, h]
  rfl

/-- **A section over rows that all render** is their texts, one after the other. -/
theorem renderNode_rows {α : Type} {items : List α} {row : α → Scope} {body : List Node}
    {g : α → String} (h : find scopes name = .ok (.list (items.map row)))
    (hrow : ∀ a ∈ items, renderNodes body (row a :: scopes) = .ok (g a)) :
    renderNode (.group name false body) scopes = .ok (String.join (items.map g)) := by
  rw [renderNode, h]
  simp only [Bool.false_eq_true, if_false, List.mapM_map, Function.comp_def]
  rw [mapM_eq_ok hrow]
  rfl

end Group

/-- A section that is rendered or left out has a text when its body has one. -/
theorem exists_shown (shown : Prop) [Decidable shown] {r r' : Except TemplateError String}
    (h : ∃ out, r = .ok out ∧ r' = .ok out) :
    ∃ out, (if shown then r else .ok "") = .ok out ∧ (if shown then r' else .ok "") = .ok out := by
  by_cases hshown : shown
  · simpa only [if_pos hshown] using h
  · simp only [if_neg hshown]
    exact ⟨"", rfl, rfl⟩

theorem renderNodes_cons_ok {n : Node} {ns : List Node} {scopes : List Scope} {s t : String}
    (hn : renderNode n scopes = .ok s) (hns : renderNodes ns scopes = .ok t) :
    renderNodes (n :: ns) scopes = .ok (s ++ t) := by
  rw [renderNodes, hn, hns]

theorem renderNodes_singleton_ok {n : Node} {scopes : List Scope} {s : String}
    (hn : renderNode n scopes = .ok s) : renderNodes [n] scopes = .ok s := by
  rw [renderNodes, hn, renderNodes]
  simp only [String.append_empty]

theorem renderNodes_append_ok {ms ns : List Node} {scopes : List Scope} {s t : String}
    (hms : renderNodes ms scopes = .ok s) (hns : renderNodes ns scopes = .ok t) :
    renderNodes (ms ++ ns) scopes = .ok (s ++ t) := by
  induction ms generalizing s with
  | nil =>
    obtain rfl := Except.ok.inj hms
    rw [List.nil_append, String.empty_append, hns]
  | cons m ms ih =>
    rw [renderNodes] at hms
    cases hm : renderNode m scopes with
    | error e => rw [hm] at hms; exact nomatch hms
    | ok a =>
      cases hrest : renderNodes ms scopes with
      | error e => rw [hm, hrest] at hms; exact nomatch hms
      | ok b =>
        rw [hm, hrest] at hms
        obtain rfl := Except.ok.inj hms
        rw [List.cons_append, String.append_assoc]
        exact renderNodes_cons_ok hm (ih hrest)

mutual

/-- **A well-scoped node renders**, and to the same text in scopes that agree on its variables. -/
theorem exists_renderNode (n : Node) {kinds : Kinds} {scopes scopes' : List Scope}
    (hn : n.scoped kinds = true) (h : Agree kinds scopes scopes') :
    ∃ out, renderNode n scopes = .ok out ∧ renderNode n scopes' = .ok out := by
  match n with
  | .text s => exact ⟨s, rfl, rfl⟩
  | .value name =>
    obtain ⟨v, hv, hv', hkind⟩ := h name .scalar (of_decide_eq_true hn)
    rw [renderNode, renderNode, hv, hv']
    cases hkind with
    | text s => exact ⟨s, rfl, rfl⟩
    | flag b => exact ⟨flagText b, rfl, rfl⟩
  | .group name inverted body =>
    rw [Node.scoped] at hn
    cases hlookup : kinds.lookup name with
    | none => rw [hlookup] at hn; exact nomatch hn
    | some kind =>
      rw [hlookup] at hn
      obtain ⟨v, hv, hv', hkind⟩ := h name kind hlookup
      cases hkind with
      | text s =>
        rw [renderNode_text hv, renderNode_text hv']
        exact exists_shown _ (exists_renderNodes body hn h)
      | flag b =>
        rw [renderNode_flag hv, renderNode_flag hv']
        exact exists_shown _ (exists_renderNodes body hn h)
      | @list rows names hkeys hscalars =>
        cases inverted with
        | true =>
          rw [renderNode_no_rows hv, renderNode_no_rows hv']
          exact exists_shown _ (exists_renderNodes body hn h)
        | false =>
          -- each row hides the same names in both stacks, so the body agrees in its scope
          have hbody : ∀ row ∈ rows, ∃ out,
              renderNodes body (row :: scopes) = .ok out ∧
                renderNodes body (row :: scopes') = .ok out :=
            fun row hrow =>
              exists_renderNodes body hn (h.row (hkeys row hrow) (hscalars row hrow))
          choose! g hg using hbody
          rw [← List.map_id rows] at hv hv'
          exact ⟨String.join (rows.map g), renderNode_rows hv fun row hrow => (hg row hrow).1,
            renderNode_rows hv' fun row hrow => (hg row hrow).2⟩

/-- **Well-scoped nodes render**, and to the same text in scopes that agree on their variables. -/
theorem exists_renderNodes (ns : List Node) {kinds : Kinds} {scopes scopes' : List Scope}
    (hns : scopedAll ns kinds = true) (h : Agree kinds scopes scopes') :
    ∃ out, renderNodes ns scopes = .ok out ∧ renderNodes ns scopes' = .ok out := by
  match ns with
  | [] => exact ⟨"", rfl, rfl⟩
  | n :: ns =>
    rw [scopedAll, Bool.and_eq_true] at hns
    obtain ⟨s, hs, hs'⟩ := exists_renderNode n hns.1 h
    obtain ⟨t, ht, ht'⟩ := exists_renderNodes ns hns.2 h
    exact ⟨s ++ t, renderNodes_cons_ok hs ht, renderNodes_cons_ok hs' ht'⟩

end

end FlatFile.Template

namespace FlatFile.Target

open Template

/-- The names that a column binds. -/
def columnNames : List String :=
  ["name", "pascal_name", "start", "end", "offset", "width", "index", "first", "last"]

/-- The kinds of the variables that a layout and a profile bind. -/
def scopeKinds : Kinds :=
  [("columns", .rows columnNames), ("line_end", .scalar), ("record_name", .scalar),
   ("parser_name", .scalar), ("package", .scalar), ("language", .scalar)]

theorem hasKind_columnScopes (columns : List Column) :
    (Value.list (columnScopes columns)).HasKind (.rows columnNames) := by
  constructor
  · intro row hrow
    obtain ⟨p, -, rfl⟩ := List.mem_map.mp hrow
    rfl
  · intro row hrow
    obtain ⟨p, -, rfl⟩ := List.mem_map.mp hrow
    simp only [columnScope, number, List.forall_mem_cons]
    exact ⟨.text _, .text _, .text _, .text _, .text _, .text _, .text _, .flag _, .flag _, nofun⟩

theorem agree_scope (layout : Layout) (p : Profile) :
    Agree scopeKinds [scope layout p] [scope layout p] := by
  refine Agree.of_mem ?_
  simp only [scopeKinds, List.forall_mem_cons]
  exact ⟨⟨_, rfl, rfl, hasKind_columnScopes _⟩, ⟨_, rfl, rfl, .text _⟩, ⟨_, rfl, rfl, .text _⟩,
    ⟨_, rfl, rfl, .text _⟩, ⟨_, rfl, rfl, .text _⟩, ⟨_, rfl, rfl, .text _⟩, nofun⟩

end FlatFile.Target
