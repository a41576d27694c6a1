import FlatFile.Proofs.ColumnNames
import FlatFile.Proofs.CompileRun

/-!
# Compiled layouts

Which layouts come out of the compiler, and that it reads each of them back from its printed form.

Both directions turn on one description of the columns that may follow a state of the compiler
(`Lawful`): they stand in range one behind the other, from the cursor on, and have names of their own
that are neither reserved nor taken.  A list of columns is lawful exactly when its first column may
follow and the others are lawful behind it (`lawful_cons_iff`), which is how the compiler goes
through them.  So every run leaves lawful columns (`Run.lawful`), and lawful columns, printed one a
line, are taken in as they are (`run_of_lawful`).
-/

namespace FlatFile
open Schema Text

/-! ### Columns that may follow a state -/

/-- The state behind a column. -/
def Progress.after (s : Progress) (c : Column) : Progress :=
  ⟨⟨some c.last⟩, ⟨s.names.reserved, c.name :: s.names.taken⟩⟩

/-- **A column that may come next.** -/
structure Fits (s : Progress) (c : Column) : Prop where
  range : c.first ≤ c.last
  bounded : (c.last : Int) ≤ int64Max
  ahead : ¬ s.cursor.Behind c.first
  free : s.names.reserved.contains c.name = false
  fresh : c.name ∉ s.names.taken
  named : IsName c.name.toList

/-- **Columns that may come next**, all of them in this order. -/
structure Lawful (s : Progress) (columns : List Column) : Prop where
  fits : ∀ c ∈ columns, Fits s c
  ordered : columns.Pairwise fun a b => a.last ≤ b.first
  distinct : (columns.map Column.name).Nodup

theorem lawful_nil (s : Progress) : Lawful s [] := ⟨by simp, by simp, by simp⟩

/-- A column fits behind another exactly when it fits before it, starts at or after its end and has
another name. -/
theorem fits_after_iff {s : Progress} {c d : Column} (hc : Fits s c) :
    Fits (s.after c) d ↔ Fits s d ∧ c.last ≤ d.first ∧ d.name ≠ c.name := by
  constructor
  · intro h
    have hle : c.last ≤ d.first := Nat.le_of_not_lt fun hlt => h.ahead ⟨c.last, rfl, hlt⟩
    obtain ⟨hne, hfresh⟩ := List.ne_and_not_mem_of_not_mem_cons h.fresh
    refine ⟨⟨h.range, h.bounded, ?_, h.free, hfresh, h.named⟩, hle, hne⟩
    -- what lies before the old cursor lies before the column that was put there
    rintro ⟨e, he, hlt⟩
    exact hc.ahead ⟨e, he, by have := hc.range; omega⟩
  · rintro ⟨h, hle, hne⟩
    refine ⟨h.range, h.bounded, ?_, h.free, List.not_mem_cons_of_ne_of_not_mem hne h.fresh, h.named⟩
    rintro ⟨e, he, hlt⟩
    obtain rfl := Option.some.inj he
    omega

/-- **The compiler's view of lawful columns**: the first fits, and the others are lawful behind
it. -/
theorem lawful_cons_iff (s : Progress) (c : Column) (columns : List Column) :
    Lawful s (c :: columns) ↔ Fits s c ∧ Lawful (s.after c) columns := by
  constructor
  · intro h
    have hc := h.fits c List.mem_cons_self
    obtain ⟨hbehind, hordered⟩ := List.pairwise_cons.mp h.ordered
    obtain ⟨hnew, hdistinct⟩ := List.nodup_cons.mp h.distinct
    refine ⟨hc, fun d hd => (fits_after_iff hc).mpr ?_, hordered, hdistinct⟩
    refine ⟨h.fits d (List.mem_cons_of_mem c hd), hbehind d hd, fun he => hnew ?_⟩
    rw [← he]
    exact List.mem_map_of_mem hd
  · rintro ⟨hc, h⟩
    have hall : ∀ d ∈ columns, Fits s d ∧ c.last ≤ d.first ∧ d.name ≠ c.name :=
      fun d hd => (fits_after_iff hc).mp (h.fits d hd)
    refine ⟨?_, List.pairwise_cons.mpr ⟨fun d hd => (hall d hd).2.1, h.ordered⟩,
      List.nodup_cons.mpr ⟨?_, h.distinct⟩⟩
    · intro d hd
      rcases List.mem_cons.mp hd with rfl | hd
      · exact hc
      · exact (hall d hd).1
    · intro hm
      obtain ⟨d, hd, he⟩ := List.mem_map.mp hm
      exact (hall d hd).2.2 he

/-- In a lawful list the last column ends last. -/
theorem Lawful.max_last {s : Progress} {columns : List Column} (h : Lawful s columns)
    (hne : columns ≠ []) :
    (columns.map Column.last).max? = some (Layout.lineLength ⟨columns⟩) := by
  rcases List.eq_nil_or_concat columns with rfl | ⟨before, c, rfl⟩
  · exact absurd rfl hne
  · rw [List.concat_eq_append] at h ⊢
    have hlength : Layout.lineLength ⟨before ++ [c]⟩ = c.last := by simp [Layout.lineLength]
    rw [hlength, List.max?_eq_some_iff]
    refine ⟨by simp, ?_⟩
    intro e he
    obtain ⟨d, hd, rfl⟩ := List.mem_map.mp he
    rcases List.mem_append.mp hd with hd | hd
    · have hle := (List.pairwise_append.mp h.ordered).2.2 d hd c List.mem_cons_self
      have hrange := (h.fits c (by simp)).range
      omega
    · rw [List.mem_singleton.mp hd]

/-! ### What the compiler returns -/

/-- The column that a line declares: the shape of the line gives its place, and the label of the
shape its name. -/
def Declares (raw : String) (c : Column) : Prop :=
  ∃ label first last, Shape raw label first last ∧
    c = ⟨nameOf (String.ofList (trim label.toList)), digitsValue first.toList,
      digitsValue last.toList⟩

namespace Compilation

variable {s s' : Progress} {n : Nat} {raws : List String} {as : List Accepted}

/-- A step accepts a column that fits and that its line declares. -/
theorem fits_of_step {raw : String} {a : Accepted} (h : (step s n raw).result = .ok (a, s')) :
    Fits s a.column ∧ Declares raw a.column ∧ s' = s.after a.column := by
  obtain ⟨p, cursor, hcheck, hfree, hfresh, rfl, rfl⟩ := (step_eq_ok_iff _ _ _ _ _).mp h
  obtain ⟨label, first, last, hshape, hahead, hrange, rfl, rfl⟩ :=
    (check_eq_ok_iff _ _ _ _ _).mp hcheck
  have hname := isName_nameOf (String.ofList (trim label.toList))
  -- the projections are reduced first, since `nameOf` cannot be computed on an unknown label
  refine ⟨?_, ⟨label, first, last, hshape, ?_⟩, ?_⟩
  · constructor <;> dsimp only [accept] at *
    · exact hrange
    · exact hshape.last_index.fits
    · exact hahead
    · exact hfree
    · exact hfresh
    · exact hname
  · dsimp only [accept]
  · dsimp only [accept, Progress.after]

/-- **Every run leaves lawful columns**, those its lines declare. -/
theorem Run.lawful (h : Run s n raws as s') :
    Lawful s (as.map Accepted.column) ∧ List.Forall₂ Declares raws (as.map Accepted.column) := by
  induction h with
  | nil s n => exact ⟨lawful_nil s, List.Forall₂.nil⟩
  | cons head tail ih =>
    obtain ⟨hfits, hdeclares, rfl⟩ := fits_of_step head
    exact ⟨(lawful_cons_iff _ _ _).mpr ⟨hfits, ih.1⟩, List.Forall₂.cons hdeclares ih.2⟩

theorem lawful_of_ofLines {reserved : ReservedWords} {c : Compilation}
    (h : (ofLines reserved raws).result = .ok c) :
    c.layout.columns ≠ [] ∧ Lawful (initial reserved) c.layout.columns ∧
      List.Forall₂ Declares raws c.layout.columns := by
  obtain ⟨hne, as, s, hrun, rfl⟩ := ofLines_eq_ok_iff.mp h
  obtain ⟨hlawful, hdeclares⟩ := hrun.lawful
  refine ⟨?_, hlawful, hdeclares⟩
  rw [← List.length_pos_iff] at hne ⊢
  exact hdeclares.length_eq ▸ hne

/-- **Compilation is sound.**  A schema that compiles gives one column a line, in the order of the
lines and as they declare them.  Each column ends no sooner than it starts, each starts at or after
the end of every earlier one, and the line length is the greatest end.  The names are distinct,
none of them is reserved, and each is a name. -/
theorem ofLines_sound (reserved : ReservedWords) (raws : List String) (c : Compilation)
    (h : (ofLines reserved raws).result = .ok c) :
    c.layout.columns.length = raws.length ∧ 1 ≤ c.layout.columns.length ∧
    List.Forall₂ Declares raws c.layout.columns ∧
    (∀ col ∈ c.layout.columns, col.first ≤ col.last) ∧
    c.layout.columns.Pairwise (fun a b => a.last ≤ b.first) ∧
    (c.layout.columns.map Column.last).max? = some c.layout.lineLength ∧
    (c.layout.columns.map Column.name).Nodup ∧
    (∀ col ∈ c.layout.columns, reserved.contains col.name = false) ∧
    (∀ col ∈ c.layout.columns, IsName col.name.toList) := by
  obtain ⟨hne, hlawful, hdeclares⟩ := lawful_of_ofLines h
  exact ⟨hdeclares.length_eq.symm, List.length_pos_iff.mpr hne, hdeclares,
    fun col hcol => (hlawful.fits col hcol).range, hlawful.ordered, hlawful.max_last hne,
    hlawful.distinct, fun col hcol => (hlawful.fits col hcol).free,
    fun col hcol => (hlawful.fits col hcol).named⟩

/-- A label of two words and one that has no identifier, on columns that touch. -/
theorem ofLines_sound_fallback :
    (ofLines (.ofList ["fun"]) ["First name 1 10", "### 10 12"]).result
        = .ok ⟨⟨[⟨"firstName", 1, 10⟩, ⟨"unknown", 10, 12⟩]⟩,
          ⟨[Diagnostic.fallback 2 "###" "unknown"]⟩⟩ ∧
      [10, 12].max? = some 12 ∧ IsName "firstName".toList ∧ IsName "unknown".toList := by
  have h : (ofLines (.ofList ["fun"]) ["First name 1 10", "### 10 12"]).result
      = .ok ⟨⟨[⟨"firstName", 1, 10⟩, ⟨"unknown", 10, 12⟩]⟩,
        ⟨[Diagnostic.fallback 2 "###" "unknown"]⟩⟩ := rfl
  obtain ⟨_, _, _, _, _, hmax, _, _, hnamed⟩ := ofLines_sound _ _ _ h
  exact ⟨h, hmax, hnamed ⟨"firstName", 1, 10⟩ (by simp), hnamed ⟨"unknown", 10, 12⟩ (by simp)⟩

end Compilation

/-! ### Printing a layout as a schema -/

/-- The schema line of a column. -/
def Column.schemaLine (c : Column) : String :=
  c.name ++ " " ++ toString c.first ++ " " ++ toString c.last

/-- A layout as the text of a schema, one line a column. -/
def Layout.schemaText (l : Layout) : String :=
  String.join (l.columns.map fun c => c.schemaLine ++ "\n")

section Printed
variable {s : Progress} {c : Column} (h : Fits s c)
include h

/-- The line of a column has the shape it is printed in. -/
theorem Fits.shape :
    Shape c.schemaLine c.name (toString c.first) (toString c.last) where
  text := rfl
  solid := endsSolid_of_solid h.named.ne_nil h.named.solid
  uncut := (tokensFrom_eq_singleton_iff _).mp
    (tokensFrom_of_no_space (space_not_mem_of_solid h.named.solid) false)
  first_index := isIndex_toString (by have := h.range; have := h.bounded; omega)
  last_index := isIndex_toString h.bounded

theorem Fits.nameOf_eq : nameOf c.name = c.name := by
  rw [nameOf, identifier?_of_isName h.named, Option.getD_some]

/-- **A column that fits is read back from its line**, with no finding. -/
theorem Fits.step_schemaLine (n : Nat) :
    (Compilation.step s n c.schemaLine).result = .ok (⟨c, none⟩, s.after c) := by
  have htrim : String.ofList (trim c.name.toList) = c.name := by
    rw [trim_of_solid h.named.solid, String.ofList_toList]
  have hcheck := (check_eq_ok_iff s.cursor n c.schemaLine ⟨c.name, c.first, c.last⟩
    ⟨some c.last⟩).mpr ⟨c.name, toString c.first, toString c.last, h.shape,
      by rw [digitsValue_toString]; exact h.ahead,
      by rw [digitsValue_toString, digitsValue_toString]; exact h.range,
      by rw [digitsValue_toString, digitsValue_toString, htrim],
      by rw [digitsValue_toString]⟩
  refine (Compilation.step_eq_ok_iff _ _ _ _ _).mpr ⟨_, _, hcheck, ?_, ?_, ?_, ?_⟩
  · dsimp only
    rw [h.nameOf_eq]
    exact h.free
  · dsimp only
    rw [h.nameOf_eq]
    exact h.fresh
  · dsimp only [Compilation.accept]
    rw [h.nameOf_eq, identifier?_of_isName h.named]
    simp
  · dsimp only [Progress.after]
    rw [h.nameOf_eq]

/-- A printed line holds no line end. -/
theorem Fits.schemaLine_no_end :
    '\n' ∉ c.schemaLine.toList ∧ c.schemaLine.toList.getLast? ≠ some '\r' := by
  have hchars : ∀ ch ∈ c.schemaLine.toList, ch = ' ' ∨ isBlank ch = false := by
    intro ch hch
    rw [h.shape.toList] at hch
    simp only [List.mem_append, List.mem_cons] at hch
    rcases hch with hch | rfl | hch | rfl | hch
    · exact Or.inr (h.named.solid ch hch)
    · exact Or.inl rfl
    · exact Or.inr (isBlank_of_isDigit (isDigit_of_mem_toString hch))
    · exact Or.inl rfl
    · exact Or.inr (isBlank_of_isDigit (isDigit_of_mem_toString hch))
  constructor
  · intro hm
    rcases hchars '\n' hm with he | he <;> exact absurd he (by decide)
  · intro hlast
    rcases hchars '\r' (List.mem_of_getLast? hlast) with he | he <;> exact absurd he (by decide)

end Printed

namespace Compilation

/-- **Lawful columns, printed one a line, are taken in as they are.** -/
theorem run_of_lawful {s : Progress} {columns : List Column} (h : Lawful s columns) (n : Nat) :
    ∃ s', Run s n (columns.map Column.schemaLine) (columns.map fun c => ⟨c, none⟩) s' := by
  induction columns generalizing s n with
  | nil => exact ⟨s, Run.nil s n⟩
  | cons c columns ih =>
    obtain ⟨hfits, hrest⟩ := (lawful_cons_iff s c columns).mp h
    obtain ⟨s', hrun⟩ := ih hrest (n + 1)
    exact ⟨s', Run.cons (hfits.step_schemaLine n) hrun⟩

theorem ofAccepted_no_findings (columns : List Column) :
    ofAccepted (columns.map fun c => ⟨c, none⟩) = ⟨⟨columns⟩, ⟨[]⟩⟩ := by
  simp [ofAccepted, Function.comp_def]

theorem ofText_of_lawful {reserved : ReservedWords} {columns : List Column}
    (hne : columns ≠ []) (h : Lawful (initial reserved) columns) :
    (ofText reserved (Layout.schemaText ⟨columns⟩)).result = .ok ⟨⟨columns⟩, ⟨[]⟩⟩ := by
  have hlines : Text.lines (Layout.schemaText ⟨columns⟩) = columns.map Column.schemaLine := by
    have hends : ∀ l ∈ columns.map Column.schemaLine,
        '\n' ∉ l.toList ∧ l.toList.getLast? ≠ some '\r' := by
      intro l hl
      obtain ⟨c, hc, rfl⟩ := List.mem_map.mp hl
      exact (h.fits c hc).schemaLine_no_end
    have hjoin := lines_join hends
    rwa [List.map_map] at hjoin
  obtain ⟨s, hrun⟩ := run_of_lawful h 1
  rw [ofText, hlines]
  exact ofLines_eq_ok_iff.mpr ⟨by simpa using hne, _, s, hrun, (ofAccepted_no_findings _).symm⟩

/-- Columns in range that each start behind the one before start behind all before. -/
theorem pairwise_of_isChain {columns : List Column}
    (hrange : ∀ c ∈ columns, c.first ≤ c.last)
    (hchain : columns.IsChain fun a b => a.last ≤ b.first) :
    columns.Pairwise fun a b => a.last ≤ b.first := by
  induction columns with
  | nil => exact List.Pairwise.nil
  | cons c columns ih =>
    have hrest := ih (fun d hd => hrange d (List.mem_cons_of_mem c hd)) hchain.tail
    refine List.pairwise_cons.mpr ⟨?_, hrest⟩
    cases columns with
    | nil => simp
    | cons d columns =>
      have hcd : c.last ≤ d.first := (List.isChain_cons_cons.mp hchain).1
      intro e he
      rcases List.mem_cons.mp he with rfl | he
      · exact hcd
      · have hde := (List.pairwise_cons.mp hrest).1 e he
        have hd := hrange d (by simp)
        omega

/-- **The compiler undoes printing a layout.**  Columns with distinct names that are free, in range
and one behind the other, up to the greatest 64-bit end, compile from their printed form to exactly
themselves, without a finding.  In particular every layout that was compiled compiles to itself when
it is printed. -/
theorem ofText_schemaText (reserved : ReservedWords) :
    (∀ columns : List Column, columns ≠ [] →
      (columns.map Column.name).Nodup →
      (∀ c ∈ columns, reserved.contains c.name = false) →
      (∀ c ∈ columns, IsName c.name.toList) →
      (∀ c ∈ columns, c.first ≤ c.last) →
      columns.IsChain (fun a b => a.last ≤ b.first) →
      (∀ c ∈ columns, (c.last : Int) ≤ int64Max) →
      (ofText reserved (Layout.schemaText ⟨columns⟩)).result = .ok ⟨⟨columns⟩, ⟨[]⟩⟩) ∧
    (∀ raws c, (ofLines reserved raws).result = .ok c →
      (ofText reserved c.layout.schemaText).result = .ok ⟨c.layout, ⟨[]⟩⟩) := by
  constructor
  · intro columns hne hdistinct hfree hnamed hrange hchain hbounded
    have hfits : ∀ c ∈ columns, Fits (initial reserved) c := by
      intro c hc
      refine ⟨hrange c hc, hbounded c hc, ?_, hfree c hc, List.not_mem_nil, hnamed c hc⟩
      rintro ⟨e, he, _⟩
      cases he
    exact ofText_of_lawful hne ⟨hfits, pairwise_of_isChain hrange hchain, hdistinct⟩
  · intro raws c h
    obtain ⟨hne, hlawful, _⟩ := lawful_of_ofLines h
    exact ofText_of_lawful hne hlawful

/-- Names that end in a digit, a column of no width and the greatest end. -/
theorem ofText_schemaText_extremes :
    (ofText (.ofList ["fun"])
      (Layout.schemaText ⟨[⟨"a1", 0, 0⟩, ⟨"_B", 0, 9223372036854775807⟩]⟩)).result
        = .ok ⟨⟨[⟨"a1", 0, 0⟩, ⟨"_B", 0, 9223372036854775807⟩]⟩, ⟨[]⟩⟩ := by
  exact (ofText_schemaText (.ofList ["fun"])).1 _ (by decide) (by decide) (by decide) (by decide)
    (by decide) (by decide) (by decide)

end Compilation

end FlatFile
