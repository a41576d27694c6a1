import FlatFile.Proofs.GeneratedFiles
import FlatFile.Proofs.EditScripts

/-!
# What a drift report says

A generated file is looked at twice: once for its checksum, and once more for its text when the
checksum is another one.  So a file can fail to be compared in two ways (`Artifact.Fails`): it is
there but cannot be read, or it differs and is no text.  A file that can be compared is reported
exactly when it is missing or has another checksum (`Artifact.differs`), and the report says what is
there (`Artifact.ReportedAs`).

The two files are looked at one after the other, the record first, and the first failure ends it.
As texts with different checksums are different, and a diff of different texts prints something, a
report on a file that is there always has a diff to show.
-/

namespace FlatFile

variable {t : FileTree}

/-- A file that is there holds a text or fails to be read as one. -/
theorem FileTree.readText_of_read_ok {path : String} {bytes : ByteArray}
    (h : t.read path = .ok bytes) :
    (∃ s : String, bytes = s.toUTF8 ∧ t.readText path = .ok s) ∨
      (∀ s : String, bytes ≠ s.toUTF8) ∧ t.readText path = .error .notText := by
  rw [FileTree.readText, h]
  simp only []
  cases htext : String.fromUTF8? bytes with
  | none =>
    right
    refine ⟨fun s hs => ?_, rfl⟩
    rw [(Text.fromUTF8?_eq_some_iff _ _).mpr hs] at htext
    cases htext
  | some s => exact .inl ⟨s, (Text.fromUTF8?_eq_some_iff _ _).mp htext, rfl⟩

namespace Artifact

variable {a : Artifact} {dir : String}

/-- The file in a directory is missing, or its bytes have another checksum. -/
def differs (dir : String) (t : FileTree) (a : Artifact) : Bool :=
  match t.read (a.pathIn dir) with
  | .ok bytes => Checksum.ofBytes bytes ≠ a.checksum
  | .error e => e = .notFound

/-- **The file in a directory cannot be compared.** -/
inductive Fails (dir : String) (t : FileTree) (a : Artifact) : FileError → Prop where
  | unreadable {e : FileError} (read : t.read (a.pathIn dir) = .error e)
      (present : e ≠ .notFound) : Fails dir t a e
  | notText {bytes : ByteArray} (read : t.read (a.pathIn dir) = .ok bytes)
      (differs : Checksum.ofBytes bytes ≠ a.checksum) (noText : ∀ s : String, bytes ≠ s.toUTF8) :
      Fails dir t a .notText

/-- **The report on a file that differs**: the checksum that is expected, the one that is there, and
the diff from the text that is there. -/
inductive ReportedAs (dir : String) (t : FileTree) (a : Artifact) : Drift → Prop where
  | missing (read : t.read (a.pathIn dir) = .error .notFound) :
      ReportedAs dir t a
        ⟨a.kind, a.pathIn dir, a.checksum, none, Diff.lineDiff "" a.contents⟩
  | edited {onDisk : String} (read : t.read (a.pathIn dir) = .ok onDisk.toUTF8)
      (differs : Checksum.ofText onDisk ≠ a.checksum) :
      ReportedAs dir t a
        ⟨a.kind, a.pathIn dir, a.checksum, some (.ofText onDisk), Diff.lineDiff onDisk a.contents⟩

/-- A file that is there is compared by its checksum, and only then by its text. -/
theorem drift?_of_read_ok {bytes : ByteArray} (h : t.read (a.pathIn dir) = .ok bytes) :
    a.drift? dir t =
      if Checksum.ofBytes bytes = a.checksum then .ok none
      else (t.readText (a.pathIn dir)).map fun onDisk => some
        ⟨a.kind, a.pathIn dir, a.checksum, some (.ofBytes bytes),
          Diff.lineDiff onDisk a.contents⟩ := by
  rw [pathIn] at h ⊢
  simp only [drift?, FileTree.checksum?, h]
  cases t.readText (Path.join dir a.fileName) <;> rfl

theorem drift?_of_read_error {e : FileError} (h : t.read (a.pathIn dir) = .error e) :
    a.drift? dir t =
      if e = .notFound then
        .ok (some ⟨a.kind, a.pathIn dir, a.checksum, none, Diff.lineDiff "" a.contents⟩)
      else .error e := by
  rw [pathIn] at h
  cases e <;> simp [drift?, FileTree.checksum?, h, pathIn]

/-- What becomes of one file: it fails, it is reported, or there is nothing to report. -/
theorem drift?_cases (a : Artifact) (dir : String) (t : FileTree) :
    (∃ e, a.drift? dir t = .error e ∧ a.Fails dir t e) ∨
      (∃ d, a.drift? dir t = .ok (some d) ∧ a.differs dir t = true ∧ a.ReportedAs dir t d) ∨
      (a.drift? dir t = .ok none ∧ a.differs dir t = false) := by
  cases hread : t.read (a.pathIn dir) with
  | error e =>
    rw [drift?_of_read_error hread, differs, hread]
    by_cases he : e = .notFound
    · subst he
      exact .inr (.inl ⟨_, if_pos rfl, by simp, .missing hread⟩)
    · exact .inl ⟨e, if_neg he, .unreadable hread he⟩
  | ok bytes =>
    rw [drift?_of_read_ok hread, differs, hread]
    by_cases hsum : Checksum.ofBytes bytes = a.checksum
    · exact .inr (.inr ⟨if_pos hsum, by simp [hsum]⟩)
    · rw [if_neg hsum]
      obtain ⟨onDisk, rfl, htext⟩ | ⟨hnot, htext⟩ := FileTree.readText_of_read_ok hread
      · rw [htext]
        exact .inr (.inl ⟨_, rfl, decide_eq_true hsum, .edited hread hsum⟩)
      · rw [htext]
        exact .inl ⟨_, rfl, .notText hread hsum hnot⟩

theorem drift?_of_fails {e : FileError} (h : a.Fails dir t e) : a.drift? dir t = .error e := by
  cases h with
  | unreadable hread hpresent => rw [drift?_of_read_error hread, if_neg hpresent]
  | notText hread hdiffers hnot =>
    obtain ⟨s, hs, -⟩ | ⟨-, htext⟩ := FileTree.readText_of_read_ok hread
    · exact absurd hs (hnot s)
    · rw [drift?_of_read_ok hread, if_neg hdiffers, htext]
      rfl

theorem drift?_eq_error_iff {e : FileError} : a.drift? dir t = .error e ↔ a.Fails dir t e := by
  refine ⟨fun h => ?_, drift?_of_fails⟩
  obtain ⟨e', he, hfails⟩ | ⟨d, hd, -⟩ | ⟨hnone, -⟩ := drift?_cases a dir t
  · rw [he] at h
    cases h
    exact hfails
  · rw [hd] at h
    cases h
  · rw [hnone] at h
    cases h

/-- A file that can be compared is reported exactly when it differs. -/
theorem reported_of_drift? {r : Option Drift} (h : a.drift? dir t = .ok r) :
    List.Forall₂ (ReportedAs dir t) ([a].filter (differs dir t)) r.toList := by
  obtain ⟨e, he, -⟩ | ⟨d, hd, hdiffers, hreport⟩ | ⟨hnone, hdiffers⟩ := drift?_cases a dir t
  · rw [he] at h
    cases h
  · rw [hd] at h
    cases h
    simpa [hdiffers] using hreport
  · rw [hnone] at h
    cases h
    simp [hdiffers]

/-- A file with the bytes that would be generated is compared, and does not differ. -/
theorem not_differs_of_read (h : t.read (a.pathIn dir) = .ok a.contents.toUTF8) :
    a.differs dir t = false := by
  rw [differs, h]
  exact decide_eq_false (not_not_intro rfl)

/-- A report on a file that is there has the checksum of its text, which is another text than the
one that would be generated, and shows the difference. -/
theorem ReportedAs.text_of_actual {d : Drift} {actual : Checksum} (h : a.ReportedAs dir t d)
    (hactual : d.actual = some actual) :
    ∃ onDisk, t.readText d.path = .ok onDisk ∧ actual = .ofText onDisk ∧ onDisk ≠ a.contents ∧
      d.diff = Diff.lineDiff onDisk a.contents ∧ d.diff ≠ "" := by
  cases h with
  | missing => nomatch hactual
  | edited hread hdiffers =>
    rename_i onDisk
    have hne : onDisk ≠ a.contents := by
      rintro rfl
      exact hdiffers rfl
    refine ⟨onDisk, FileTree.readText_eq_ok_iff.mpr hread, (Option.some.inj hactual).symm, hne,
      rfl, ?_⟩
    exact fun hdiff => hne (Diff.eq_of_lineDiff_eq_empty hdiff)

end Artifact

namespace Artifacts

/-- The first file that fails decides the error. -/
theorem drifts_eq_error_iff {a : Artifacts} {dir : String} {e : FileError} :
    a.drifts dir t = .error e ↔
      a.record.Fails dir t e ∨ (∀ e', ¬ a.record.Fails dir t e') ∧ a.parser.Fails dir t e := by
  simp only [← Artifact.drift?_eq_error_iff, drifts]
  cases a.record.drift? dir t with
  | error e' => simp
  | ok r => cases a.parser.drift? dir t <;> simp

/-- The reports are those on the files that differ, the record first. -/
theorem reported_of_drifts {a : Artifacts} {dir : String} {ds : List Drift}
    (h : a.drifts dir t = .ok ds) :
    List.Forall₂ (Artifact.ReportedAs dir t) (a.toList.filter (Artifact.differs dir t)) ds := by
  rw [drifts] at h
  cases hr : a.record.drift? dir t with
  | error e =>
    rw [hr] at h
    cases h
  | ok r =>
    cases hp : a.parser.drift? dir t with
    | error e =>
      rw [hr, hp] at h
      cases h
    | ok p =>
      rw [hr, hp] at h
      cases h
      have hlist : a.toList.filter (Artifact.differs dir t)
          = [a.record].filter (Artifact.differs dir t)
            ++ [a.parser].filter (Artifact.differs dir t) := by
        rw [← List.filter_append]
        rfl
      rw [hlist]
      exact List.rel_append (Artifact.reported_of_drift? hr) (Artifact.reported_of_drift? hp)

theorem exists_reported {a : Artifacts} {dir : String} {ds : List Drift} {d : Drift}
    (h : a.drifts dir t = .ok ds) (hd : d ∈ ds) : ∃ b ∈ a.toList, b.ReportedAs dir t d := by
  obtain ⟨i, hi, rfl⟩ := List.mem_iff_getElem.mp hd
  obtain ⟨hlength, hreported⟩ := List.forall₂_iff_get.mp (reported_of_drifts h)
  exact ⟨_, List.mem_of_mem_filter (List.get_mem _ ⟨i, hlength ▸ hi⟩), hreported i _ hi⟩

/-- Files that can all be compared are. -/
theorem exists_drifts {a : Artifacts} {dir : String}
    (h : ∀ b ∈ a.toList, ∀ e, ¬ b.Fails dir t e) : ∃ ds, a.drifts dir t = .ok ds := by
  cases hdrifts : a.drifts dir t with
  | ok ds => exact ⟨ds, rfl⟩
  | error e =>
    simp only [toList, List.forall_mem_cons] at h
    obtain hrecord | ⟨-, hparser⟩ := drifts_eq_error_iff.mp hdrifts
    · exact absurd hrecord (h.1 e)
    · exact absurd hparser (h.2.1 e)

/-- **Drift reports are exact.**  Looking at the files fails with the error of the first one, the
record before the parser, that is there but cannot be read, or that differs and is no text.  When
both can be compared there is one report for each file that is missing or has another checksum, in
the same order, with what is expected and what is there.  A file with exactly the bytes that would
be generated is not among them, and a report on a file that is there is about another text and has a
diff to show. -/
theorem drifts_exact (a : Artifacts) (dir : String) (t : FileTree) :
    (∀ e, a.drifts dir t = .error e ↔
        a.record.Fails dir t e ∨ (∀ e', ¬ a.record.Fails dir t e') ∧ a.parser.Fails dir t e) ∧
      ((∀ b ∈ a.toList, ∀ e, ¬ b.Fails dir t e) → ∃ ds, a.drifts dir t = .ok ds ∧
        List.Forall₂ (Artifact.ReportedAs dir t)
          (a.toList.filter (Artifact.differs dir t)) ds) ∧
      (∀ b ∈ a.toList, t.read (b.pathIn dir) = .ok b.contents.toUTF8 →
        (∀ e, ¬ b.Fails dir t e) ∧ b.differs dir t = false) ∧
      ∀ ds, a.drifts dir t = .ok ds → ∀ d ∈ ds, ∀ actual, d.actual = some actual →
        ∃ b ∈ a.toList, b.ReportedAs dir t d ∧ ∃ onDisk, t.readText d.path = .ok onDisk ∧
          actual = .ofText onDisk ∧ onDisk ≠ b.contents ∧
          d.diff = Diff.lineDiff onDisk b.contents ∧ d.diff ≠ "" := by
  refine ⟨fun e => drifts_eq_error_iff, fun hcompared => ?_, fun b _ hread => ?_,
    fun ds hds d hd actual hactual => ?_⟩
  · obtain ⟨ds, hds⟩ := exists_drifts hcompared
    exact ⟨ds, hds, reported_of_drifts hds⟩
  · refine ⟨fun e hfails => ?_, Artifact.not_differs_of_read hread⟩
    have hcompared := Artifact.drift?_of_read hread
    rw [Artifact.drift?_of_fails hfails] at hcompared
    cases hcompared
  · obtain ⟨b, hb, hreported⟩ := exists_reported hds hd
    exact ⟨b, hb, hreported, hreported.text_of_actual hactual⟩

/-- A file that lacks its final newline, and one that is missing. -/
theorem drifts_exact_final_newline :
    let a : Artifacts := ⟨⟨.record, "R.kt", "r\n"⟩, ⟨.parser, "P.kt", "p\n"⟩⟩
    let t : FileTree := ({} : FileTree).plant "out/R.kt" (.file "r".toUTF8)
    (∀ b ∈ a.toList, ∀ e, ¬ b.Fails "out" t e) ∧
      ∃ ds, a.drifts "out" t = .ok ds ∧
        ds.map (fun d => (d.kind, d.actual.isSome, d.diff)) =
          [(.record, true, "-r\n+r\n"), (.parser, false, "+p\n")] ∧
        List.Forall₂ (Artifact.ReportedAs "out" t) a.toList ds := by
  intro a t
  obtain ⟨hfails, hcompared, -⟩ := drifts_exact a "out" t
  have hreports : (a.drifts "out" t).map (List.map fun d => (d.kind, d.actual.isSome, d.diff)) =
      .ok [(.record, true, "-r\n+r\n"), (.parser, false, "+p\n")] := by decide +kernel
  have hdiffer : a.toList.filter (Artifact.differs "out" t) = a.toList := by decide +kernel
  cases hdrifts : a.drifts "out" t with
  | error e =>
    rw [hdrifts] at hreports
    cases hreports
  | ok ds =>
    rw [hdrifts] at hreports hfails
    have hrecord : ∀ e, ¬ a.record.Fails "out" t e := fun e h => nomatch (hfails e).mpr (.inl h)
    have hparser : ∀ e, ¬ a.parser.Fails "out" t e :=
      fun e h => nomatch (hfails e).mpr (.inr ⟨hrecord, h⟩)
    have hnone : ∀ b ∈ a.toList, ∀ e, ¬ b.Fails "out" t e := by
      simpa [toList] using ⟨hrecord, hparser⟩
    obtain ⟨ds', hds', hreported⟩ := hcompared hnone
    obtain rfl := Except.ok.inj (hdrifts.symm.trans hds')
    exact ⟨hnone, ds, rfl, Except.ok.inj hreports, hdiffer ▸ hreported⟩

end Artifacts

end FlatFile
