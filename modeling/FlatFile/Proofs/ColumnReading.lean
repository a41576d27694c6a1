import FlatFile.Proofs.CompiledLayout
import FlatFile.Record

/-!
# Reading with a compiled layout

A line that has the length of a compiled layout is wide enough for every column: a column lies in
range (`Fits.offset_le`) and ends no later than the last one (`Lawful.last_le`).  So each column
has a cell of exactly its own characters in the line (`Fits.cell_slice`), and since the names are
distinct, a field is found again under the name of its column (`Lawful.get?_fields`).

Columns may touch: one may start at the position where the one before it ends, and then they share
that position, the last of the one and the first of the other (`overlap_of_ordered`).
-/

namespace FlatFile
open Schema Text

/-! ### Without the outer blanks -/

/-- **`t` is `s` without its outer blanks**: blanks stand on both sides of it, and none at its own
ends. -/
structure Text.Trimmed (s t : List Char) : Prop where
  split : ∃ front back, s = front ++ t ++ back ∧
    (∀ c ∈ front, isBlank c = true) ∧ ∀ c ∈ back, isBlank c = true
  head : ∀ c ∈ t.head?, isBlank c = false
  last : ∀ c ∈ t.getLast?, isBlank c = false

theorem Text.head?_dropWhile_isBlank {s : List Char} {c : Char}
    (h : c ∈ (s.dropWhile isBlank).head?) : isBlank c = false := by
  have hnot := List.head?_dropWhile_not isBlank s
  rw [Option.mem_def.mp h] at hnot
  exact hnot

/-- What is left in front of the blanks at the end starts as the whole does. -/
theorem Text.trimEnd_append (s : List Char) :
    s = trimEnd s ++ (s.reverse.takeWhile isBlank).reverse := by
  unfold trimEnd
  rw [← List.reverse_append, List.takeWhile_append_dropWhile, List.reverse_reverse]

theorem Text.trimmed_trim (s : List Char) : Trimmed s (trim s) where
  split := by
    refine ⟨s.takeWhile isBlank, ((trimStart s).reverse.takeWhile isBlank).reverse, ?_, ?_, ?_⟩
    · rw [List.append_assoc, trim, ← trimEnd_append, trimStart, List.takeWhile_append_dropWhile]
    · exact fun c hc => List.mem_takeWhile_imp hc
    · exact fun c hc => List.mem_takeWhile_imp (List.mem_reverse.mp hc)
  head := by
    intro c hc
    -- a text that is not all blank keeps its first character when it loses blanks at the end
    have hwhole : c ∈ (trimStart s).head? := by
      rw [trimEnd_append (trimStart s), List.head?_append]
      rw [trim, Option.mem_def] at hc
      rw [hc]
      rfl
    exact head?_dropWhile_isBlank hwhole
  last := by
    intro c hc
    rw [trim, trimEnd, List.getLast?_reverse] at hc
    exact head?_dropWhile_isBlank hc

/-! ### Cells -/

/-- **The characters of a line in a column**: those from the first position on, or from the start
of the line when that is zero, up to and including the last one. -/
def Column.Cell (c : Column) (line cell : List Char) : Prop :=
  ∃ before after, line = before ++ cell ++ after ∧
    before.length = max c.first 1 - 1 ∧ before.length + cell.length = c.last

/-- The positions of a column, counted from zero. -/
def Column.span (c : Column) : Finset Nat := Finset.Ico c.offset c.last

theorem Fits.offset_le {s : Progress} {c : Column} (h : Fits s c) : c.offset ≤ c.last := by
  have hrange := h.range
  unfold Column.offset
  omega

/-- A line that reaches to the end of a column has a cell there, and the column reads it. -/
theorem Fits.cell_slice {s : Progress} {c : Column} (h : Fits s c) {line : List Char}
    (hline : c.last ≤ line.length) :
    ∃ cell, c.Cell line cell ∧ Trimmed cell (c.slice line) := by
  have hoffset := h.offset_le
  refine ⟨(line.drop c.offset).take c.width, ⟨line.take c.offset, line.drop c.last, ?_, ?_, ?_⟩,
    trimmed_trim _⟩
  · have hrest : (line.drop c.offset).drop c.width = line.drop c.last := by
      rw [List.drop_drop, Column.width, Nat.add_sub_cancel' hoffset]
    rw [List.append_assoc, ← hrest, List.take_append_drop, List.take_append_drop]
  · rw [List.length_take, Column.offset]
    unfold Column.offset at hoffset
    omega
  · rw [List.length_take, List.length_take, List.length_drop, Column.width]
    omega

section Lawful
variable {s : Progress} {columns : List Column} (h : Lawful s columns)
include h

/-- No column ends behind the line length. -/
theorem Lawful.last_le {c : Column} (hc : c ∈ columns) :
    c.last ≤ Layout.lineLength ⟨columns⟩ := by
  have hmax := h.max_last (List.ne_nil_of_mem hc)
  exact (List.max?_eq_some_iff.mp hmax).2 c.last (List.mem_map_of_mem hc)

/-- **A field is found under the name of its column.** -/
theorem Lawful.get?_fields (value : Column → String) {c : Column} (hc : c ∈ columns) :
    Record.get? ⟨columns.map fun c => (c.name, value c)⟩ c.name = some (value c) := by
  have hfind : columns.find? (fun d => d.name == c.name) = some c := by
    obtain ⟨before, after, rfl⟩ := List.append_of_mem hc
    rw [List.find?_eq_some_iff_append]
    refine ⟨beq_self_eq_true _, before, after, rfl, fun d hd => ?_⟩
    -- a column before it with the same name would make the names repeat
    have hdistinct := h.distinct
    rw [List.map_append, List.map_cons] at hdistinct
    have hne := (List.nodup_append.mp hdistinct).2.2 d.name (List.mem_map_of_mem hd) c.name
      List.mem_cons_self
    simpa using hne
  rw [Record.get?, List.find?_map]
  simp only [Function.comp_def, hfind, Option.map_some]

end Lawful

/-- Of two columns in order, the first and the second share at most the position where the first
ends and the second starts. -/
theorem overlap_of_ordered {a b : Column} (h : a.last ≤ b.first) {p : Nat}
    (hp : p ∈ a.span ∩ b.span) : p = a.last - 1 ∧ p = b.offset := by
  simp only [Column.span, Finset.mem_inter, Finset.mem_Ico, Column.offset] at hp ⊢
  omega

theorem read?_isSome_iff (l : Layout) (line : String) :
    (l.read? line).isSome ↔ line.length = l.lineLength := by
  rw [Layout.read?, String.length_toList]
  by_cases h : line.length = l.lineLength
  · rw [if_pos h]
    exact iff_of_true rfl h
  · rw [if_neg h]
    exact iff_of_false nofun h

namespace Compilation

/-- **Reading with a compiled layout is safe and exact.**  A column never ends before it starts, nor
behind a line that has the layout's length.  A line is read exactly when it has that length; its
record then has a field for each column, in order, with the name of the column and the characters of
its cell without the outer blanks, and looking the name up gives that field.  Two columns share at
most one position, the last one of the first and the first one of the second. -/
theorem read?_safe_and_exact (reserved : ReservedWords) (raws : List String) (c : Compilation)
    (h : (ofLines reserved raws).result = .ok c) (line : String) :
    (∀ col ∈ c.layout.columns, col.offset ≤ col.last ∧
      (line.length = c.layout.lineLength → col.last ≤ line.length)) ∧
    ((c.layout.read? line).isSome ↔ line.length = c.layout.lineLength) ∧
    (∀ r, c.layout.read? line = some r →
      List.Forall₂ (fun col field => field.1 = col.name ∧
        (∃ cell, col.Cell line.toList cell ∧ Trimmed cell field.2.toList) ∧
        r.get? col.name = some field.2) c.layout.columns r.fields) ∧
    c.layout.columns.Pairwise (fun a b => (a.span ∩ b.span).card ≤ 1 ∧
      ∀ p ∈ a.span ∩ b.span, p = a.last - 1 ∧ p = b.offset) := by
  obtain ⟨-, hlawful, -⟩ := lawful_of_ofLines h
  refine ⟨?_, read?_isSome_iff _ _, ?_, ?_⟩
  · intro col hcol
    refine ⟨(hlawful.fits col hcol).offset_le, fun hlength => ?_⟩
    rw [hlength]
    exact hlawful.last_le hcol
  · intro r hr
    have hlength := (read?_isSome_iff _ _).mp (Option.isSome_of_eq_some hr)
    rw [Layout.read?, String.length_toList, if_pos hlength] at hr
    obtain rfl := Option.some.inj hr
    rw [List.forall₂_map_right_iff, List.forall₂_same]
    intro col hcol
    refine ⟨rfl, ?_, hlawful.get?_fields _ hcol⟩
    have hreach : col.last ≤ line.toList.length := by
      rw [String.length_toList, hlength]
      exact hlawful.last_le hcol
    rw [String.toList_ofList]
    exact (hlawful.fits col hcol).cell_slice hreach
  · refine hlawful.ordered.imp fun hle => ⟨?_, fun p hp => overlap_of_ordered hle hp⟩
    rw [Finset.card_le_one]
    intro p hp q hq
    rw [(overlap_of_ordered hle hp).2, (overlap_of_ordered hle hq).2]

/-- A column that starts at zero and one behind it that starts at its end: both read the first
character. -/
theorem read?_shared_position :
    (ofLines (.ofList ["fun"]) ["flag 0 1", "name 1 3"]).result
        = .ok ⟨⟨[⟨"flag", 0, 1⟩, ⟨"name", 1, 3⟩]⟩, ⟨[]⟩⟩ ∧
      Layout.read? ⟨[⟨"flag", 0, 1⟩, ⟨"name", 1, 3⟩]⟩ "é x"
        = some ⟨[("flag", "é"), ("name", "é x")]⟩ ∧
      Record.get? ⟨[("flag", "é"), ("name", "é x")]⟩ "name" = some "é x" ∧
      0 ∈ (⟨"flag", 0, 1⟩ : Column).span ∩ (⟨"name", 1, 3⟩ : Column).span ∧
      ∀ p ∈ (⟨"flag", 0, 1⟩ : Column).span ∩ (⟨"name", 1, 3⟩ : Column).span, p = 0 := by
  have hc : (ofLines (.ofList ["fun"]) ["flag 0 1", "name 1 3"]).result
      = .ok ⟨⟨[⟨"flag", 0, 1⟩, ⟨"name", 1, 3⟩]⟩, ⟨[]⟩⟩ := rfl
  have hr : Layout.read? ⟨[⟨"flag", 0, 1⟩, ⟨"name", 1, 3⟩]⟩ "é x"
      = some ⟨[("flag", "é"), ("name", "é x")]⟩ := by decide
  obtain ⟨_, _, hfields, hspans⟩ := read?_safe_and_exact _ _ _ hc "é x"
  obtain ⟨_, hbehind⟩ := List.forall₂_cons.mp (hfields _ hr)
  obtain ⟨⟨_, _, hname⟩, _⟩ := List.forall₂_cons.mp hbehind
  obtain ⟨hoverlap, _⟩ := List.pairwise_cons.mp hspans
  exact ⟨hc, hr, hname, by decide, fun p hp => ((hoverlap _ (by simp)).2 p hp).2⟩

end Compilation

end FlatFile
