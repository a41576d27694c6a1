import FlatFile.Proofs.ColumnReading

/-!
# Data lines are read or skipped

A text is cut into lines (`Text.Lines`), and each line either gives a record or is skipped with a
finding.  The lines are taken in one by one, and what has been read grows at its ends; in the end
the records are those of the lines that can be read, and there is a finding and a report for each of
the others (`takeFrom_eq`).

`Sorts` tells how one line after the other goes to one of the two lists, with the number of the next
line; from it, by induction, no line is lost, none goes to both and the order is kept
(`Sorts.partition`).
-/

namespace FlatFile

/-! ### The lines of a text -/

/-- **A text and its lines.**  A line ends at `\n`, with the `\r` right before it when there is one;
what follows the last end is a line unless it is empty. -/
inductive Text.Lines : List Char → List (List Char) → Prop where
  | nil : Lines [] []
  | last {line : List Char} (ne : line ≠ []) (plain : '\n' ∉ line) : Lines line [line]
  | newline {line rest : List Char} {lines : List (List Char)} (plain : '\n' ∉ line)
      (bare : line.getLast? ≠ some '\r') (tail : Lines rest lines) :
      Lines (line ++ '\n' :: rest) (line :: lines)
  | carriageReturn {line rest : List Char} {lines : List (List Char)} (plain : '\n' ∉ line)
      (tail : Lines rest lines) : Lines (line ++ '\r' :: '\n' :: rest) (line :: lines)

namespace Text

/-- A character that starts no line end goes to the first line. -/
theorem Lines.cons {s : List Char} {lines : List (List Char)} {c : Char} (hc : c ≠ '\n')
    (hcr : ¬ (c = '\r' ∧ s.head? = some '\n')) :
    Lines s lines → Lines (c :: s) (match lines with
      | [] => [[c]]
      | line :: rest => (c :: line) :: rest) := by
  intro h
  have hplain {line : List Char} (plain : '\n' ∉ line) : '\n' ∉ c :: line := by
    simpa using ⟨Ne.symm hc, plain⟩
  cases h with
  | nil => exact .last (by simp) (by simpa using Ne.symm hc)
  | last ne plain => exact .last (by simp) (hplain plain)
  | @newline line rest lines plain bare tail =>
    refine @Lines.newline (c :: line) rest lines (hplain plain) ?_ tail
    cases line with
    | nil => simpa using hcr
    | cons d line => simpa using bare
  | @carriageReturn line rest lines plain tail =>
    exact @Lines.carriageReturn (c :: line) rest lines (hplain plain) tail

theorem lines_cutLines (s : List Char) : Lines s (cutLines '\n' '\r' s) := by
  induction hn : s.length using Nat.strong_induction_on generalizing s with
  | _ n ih =>
    match s with
    | [] => exact .nil
    | c :: s =>
      rw [List.length_cons] at hn
      rw [cutLines]
      by_cases hlf : c = '\n'
      · rw [if_pos hlf, hlf]
        exact @Lines.newline [] s _ (by simp) (by simp) (ih s.length (by omega) s rfl)
      · rw [if_neg hlf]
        by_cases hcr : c = '\r' ∧ s.head? = some '\n'
        · obtain ⟨rest, rfl⟩ := List.head?_eq_some_iff.mp hcr.2
          rw [List.length_cons] at hn
          rw [if_pos hcr, cutLines, if_pos rfl, hcr.1]
          exact @Lines.carriageReturn [] rest _ (by simp) (ih rest.length (by omega) rest rfl)
        · rw [if_neg hcr]
          have hrest := Lines.cons hlf hcr (ih s.length (by omega) s rfl)
          cases hcut : cutLines '\n' '\r' s <;> rw [hcut] at hrest <;> exact hrest

/-- The lines of a text are its lines. -/
theorem lines_lines (s : String) : Lines s.toList ((lines s).map String.toList) := by
  have hid : String.toList ∘ String.ofList = id := funext fun l => String.toList_ofList
  rw [lines, List.map_map, hid, List.map_id]
  exact lines_cutLines s.toList

end Text

/-! ### Line by line -/

namespace Reading

variable {l : Layout} {n : Nat} {lines : List String} {records : List Record}
  {findings : List Diagnostic}

/-- The lines that are skipped, with their numbers, from line `n` on. -/
def skippedFrom (l : Layout) (n : Nat) (lines : List String) : List (String × Nat) :=
  (lines.zipIdx n).filter fun p => (l.read? p.1).isNone

/-- The findings of lines, from line `n` on. -/
def findingsFrom (l : Layout) (n : Nat) (lines : List String) : List Diagnostic :=
  (skippedFrom l n lines).map fun p => .malformed p.2 p.1

/-- The reports of lines, from line `n` on. -/
def reportsFrom (l : Layout) (n : Nat) (lines : List String) : List Event :=
  (skippedFrom l n lines).map fun p => skippedEvent p.2 p.1

theorem skippedFrom_cons_of_read {line : String} {r : Record} (h : l.read? line = some r) :
    skippedFrom l n (line :: lines) = skippedFrom l (n + 1) lines := by
  rw [skippedFrom, List.zipIdx_cons, List.filter_cons_of_neg (by simp [h]), skippedFrom]

theorem skippedFrom_cons_of_skip {line : String} (h : l.read? line = none) :
    skippedFrom l n (line :: lines) = (line, n) :: skippedFrom l (n + 1) lines := by
  rw [skippedFrom, List.zipIdx_cons, List.filter_cons_of_pos (by simp [h]), skippedFrom]

/-- **What lines add to what has been read.** -/
theorem takeFrom_eq (l : Layout) (r : Reading) (n : Nat) (lines : List String) :
    takeFrom l r n lines =
      ⟨⟨r.records ++ lines.filterMap l.read?, ⟨r.diagnostics.items ++ findingsFrom l n lines⟩⟩,
        reportsFrom l n lines⟩ := by
  induction lines generalizing r n with
  | nil => simp [takeFrom, findingsFrom, reportsFrom, skippedFrom]
  | cons line lines ih =>
    cases hr : l.read? line with
    | some record =>
      simp only [takeFrom, take, hr, Traced.andThen, ih, findingsFrom, reportsFrom,
        skippedFrom_cons_of_read hr, List.filterMap_cons_some hr, List.append_assoc,
        List.singleton_append, List.nil_append]
    | none =>
      simp only [takeFrom, take, hr, Traced.andThen, ih, findingsFrom, reportsFrom,
        skippedFrom_cons_of_skip hr, List.filterMap_cons_none hr, Diagnostics.push,
        List.append_assoc, List.singleton_append, List.map_cons]

theorem ofLines_eq (l : Layout) (lines : List String) :
    ofLines l lines =
      ⟨⟨lines.filterMap l.read?, ⟨findingsFrom l 1 lines⟩⟩, reportsFrom l 1 lines⟩ := by
  rw [ofLines, takeFrom_eq]
  rfl

/-- **How lines are sorted**, from line `n` on: one that has the layout's length gives its record,
every other one a finding with its number. -/
inductive Sorts (l : Layout) : Nat → List String → List Record → List Diagnostic → Prop where
  | nil (n : Nat) : Sorts l n [] [] []
  | read {n : Nat} {line : String} {r : Record} {lines : List String} {records : List Record}
      {findings : List Diagnostic} (fits : line.length = l.lineLength)
      (result : l.read? line = some r) (tail : Sorts l (n + 1) lines records findings) :
      Sorts l n (line :: lines) (r :: records) findings
  | skip {n : Nat} {line : String} {lines : List String} {records : List Record}
      {findings : List Diagnostic} (misfits : line.length ≠ l.lineLength)
      (tail : Sorts l (n + 1) lines records findings) :
      Sorts l n (line :: lines) records (Diagnostic.malformed n line :: findings)

theorem sorts_from (l : Layout) (n : Nat) (lines : List String) :
    Sorts l n lines (lines.filterMap l.read?) (findingsFrom l n lines) := by
  induction lines generalizing n with
  | nil => exact .nil n
  | cons line lines ih =>
    have hread := read?_isSome_iff l line
    rw [findingsFrom]
    cases hr : l.read? line with
    | none =>
      rw [hr] at hread
      rw [List.filterMap_cons_none hr, skippedFrom_cons_of_skip hr]
      exact .skip (fun hfits => by simpa using hread.mpr hfits) (ih (n + 1))
    | some r =>
      rw [hr] at hread
      rw [List.filterMap_cons_some hr, skippedFrom_cons_of_read hr]
      exact .read (hread.mp rfl) hr (ih (n + 1))

theorem sorts_ofLines (l : Layout) (lines : List String) :
    Sorts l 1 lines (ofLines l lines).result.records
      (ofLines l lines).result.diagnostics.items := by
  rw [ofLines_eq]
  exact sorts_from l 1 lines

/-! ### No line is lost -/

/-- A line of a list by its number, when the first one has number `n`. -/
def LineAt (n : Nat) (lines : List String) (m : Nat) (line : String) : Prop :=
  ∃ i, m = n + i ∧ lines[i]? = some line

theorem LineAt.head (n : Nat) (line : String) (lines : List String) :
    LineAt n (line :: lines) n line :=
  ⟨0, rfl, rfl⟩

theorem LineAt.tail {m : Nat} {line other : String} (h : LineAt (n + 1) lines m line) :
    LineAt n (other :: lines) m line := by
  obtain ⟨i, rfl, hi⟩ := h
  exact ⟨i + 1, by omega, by rw [List.getElem?_cons_succ, hi]⟩

/-- The record of a line that has the layout's length. -/
def ReadAt (l : Layout) (n : Nat) (lines : List String) (m : Nat) (r : Record) : Prop :=
  ∃ line, LineAt n lines m line ∧ line.length = l.lineLength ∧ l.read? line = some r

/-- The finding of a line that has another length. -/
def SkippedAt (l : Layout) (n : Nat) (lines : List String) (d : Diagnostic) : Prop :=
  ∃ line, LineAt n lines d.line line ∧ line.length ≠ l.lineLength ∧ d.code.code = "W002" ∧
    d.message = "Data '" ++ line ++ "' is not parsed as it does not follow the schema."

theorem ReadAt.tail {m : Nat} {r : Record} {other : String} (h : ReadAt l (n + 1) lines m r) :
    ReadAt l n (other :: lines) m r := by
  obtain ⟨line, hat, hline⟩ := h
  exact ⟨line, hat.tail, hline⟩

theorem SkippedAt.tail {d : Diagnostic} {other : String} (h : SkippedAt l (n + 1) lines d) :
    SkippedAt l n (other :: lines) d := by
  obtain ⟨line, hat, hline⟩ := h
  exact ⟨line, hat.tail, hline⟩

/-- **Sorting loses no line**: the numbers of the records and those of the findings are increasing,
and together they are the numbers of all lines. -/
theorem Sorts.partition (h : Sorts l n lines records findings) :
    ∃ read : List Nat, read.Pairwise (· < ·) ∧ (findings.map (·.line)).Pairwise (· < ·) ∧
      (read ++ findings.map (·.line)).Perm (List.range' n lines.length) ∧
      List.Forall₂ (ReadAt l n lines) read records ∧ ∀ d ∈ findings, SkippedAt l n lines d := by
  induction h with
  | nil n => exact ⟨[], .nil, .nil, .nil, .nil, by simp⟩
  | @read n line r lines records findings fits result tail ih =>
    obtain ⟨read, hread, hskipped, hperm, hrecords, hfindings⟩ := ih
    have hlater : ∀ m ∈ read, n < m := by
      intro m hm
      have := hperm.mem_iff.mp (List.mem_append_left _ hm)
      rw [List.mem_range'_1] at this
      omega
    refine ⟨n :: read, List.pairwise_cons.mpr ⟨hlater, hread⟩, hskipped, ?_, ?_, ?_⟩
    · rw [List.length_cons, List.range'_succ]
      exact hperm.cons n
    · exact .cons ⟨line, .head n line lines, fits, result⟩ (hrecords.imp fun _ _ => ReadAt.tail)
    · exact fun d hd => (hfindings d hd).tail
  | @skip n line lines records findings misfits tail ih =>
    obtain ⟨read, hread, hskipped, hperm, hrecords, hfindings⟩ := ih
    have hlater : ∀ m ∈ findings.map (·.line), n < m := by
      intro m hm
      have := hperm.mem_iff.mp (List.mem_append_right _ hm)
      rw [List.mem_range'_1] at this
      omega
    refine ⟨read, hread, List.pairwise_cons.mpr ⟨hlater, hskipped⟩, ?_, ?_, ?_⟩
    · rw [List.length_cons, List.range'_succ]
      exact List.perm_middle.trans (hperm.cons n)
    · exact hrecords.imp fun _ _ => ReadAt.tail
    · intro d hd
      rcases List.mem_cons.mp hd with rfl | hd
      · exact ⟨line, .head n line lines, misfits, rfl, rfl⟩
      · exact (hfindings d hd).tail

/-- **Reading a text partitions its lines.**  The records are those of the lines that have the
layout's length, in line order, and the findings are one for each other line, with its number and
its text; the numbers of the two increase and together are the numbers of all lines, so there are as
many records and findings as lines. -/
theorem ofText_partitions (l : Layout) (data : String) :
    Text.Lines data.toList ((Text.lines data).map String.toList) ∧
    ∃ read : List Nat, read.Pairwise (· < ·) ∧
      ((ofText l data).result.diagnostics.items.map (·.line)).Pairwise (· < ·) ∧
      (read ++ (ofText l data).result.diagnostics.items.map (·.line)).Perm
        (List.range' 1 (Text.lines data).length) ∧
      List.Forall₂ (ReadAt l 1 (Text.lines data)) read (ofText l data).result.records ∧
      (∀ d ∈ (ofText l data).result.diagnostics.items, SkippedAt l 1 (Text.lines data) d) ∧
      (ofText l data).result.records.length + (ofText l data).result.diagnostics.items.length =
        (Text.lines data).length := by
  refine ⟨Text.lines_lines data, ?_⟩
  obtain ⟨read, hread, hskipped, hperm, hrecords, hfindings⟩ :=
    (sorts_ofLines l (Text.lines data)).partition
  refine ⟨read, hread, hskipped, hperm, hrecords, hfindings, ?_⟩
  have hlength := hperm.length_eq
  rw [List.length_append, List.length_map, List.length_range', hrecords.length_eq] at hlength
  exact hlength

end Reading

end FlatFile
