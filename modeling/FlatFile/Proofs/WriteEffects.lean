import FlatFile.Proofs.ConfinedRuns

/-!
# The effect of writing two files

Writing makes the directory, then writes the record file and then the parser file, and stops at the
first of the three that fails.  Making directories changes nothing but what is along the path
(`FileTree.confined_createDirectories`), and a file that cannot be written leaves the tree as it was
(`FileTree.write_eq_error`).  So a failure leaves one of three trees behind
(`Artifacts.write_stops`): the directories made so far, all of them, or these with the record file.

Whether a file can be written is a question about its path alone (`FileTree.Admits`), and a file
that was written before does not change the answer (`FileTree.admits_of_write`): it hides no
directory and makes none.
-/

namespace FlatFile

namespace FileTree

variable {t t' : FileTree}

/-! ### Where a file can be written -/

/-- **A file can be written at a path**: the path names an entry of a directory that is there, and
no directory stands in its place. -/
def Admits (t : FileTree) (path : String) : Prop :=
  ∃ p, t.place? path = some p ∧ t.get? p ≠ some .directory

theorem exists_write_iff {path : String} {bytes : ByteArray} :
    (∃ t', t.write path bytes = (t', .ok ())) ↔ t.Admits path := by
  constructor
  · rintro ⟨t', h⟩
    obtain ⟨p, hp, hdir, -⟩ := write_eq_ok_iff.mp h
    exact ⟨p, hp, hdir⟩
  · rintro ⟨p, hp, hdir⟩
    exact ⟨_, write_eq_ok_iff.mpr ⟨p, hp, hdir, rfl⟩⟩

/-- **A file that cannot be written leaves the tree as it was.** -/
theorem write_eq_error {path : String} {bytes : ByteArray} {e : FileError}
    (h : t.write path bytes = (t', .error e)) : t' = t ∧ ¬ t.Admits path := by
  refine ⟨?_, fun hadmits => ?_⟩
  · rcases write_cases t path bytes with ⟨e', he⟩ | ⟨u, hu⟩
    · rw [he] at h
      exact (Prod.mk.inj h).1.symm
    · rw [hu] at h
      cases (Prod.mk.inj h).2
  · obtain ⟨u, hu⟩ := (@exists_write_iff t path bytes).mpr hadmits
    rw [hu] at h
    cases (Prod.mk.inj h).2

/-- Without a file that was written, a tree has the same directories. -/
theorem extends_of_set_file {p : List String} (h : t.get? p ≠ some .directory) (hp : p ≠ [])
    (bytes : ByteArray) : Extends [p] (t.set p (.file bytes)) t where
  directory := by
    intro q hq
    have hqp : q ≠ p := by
      rintro rfl
      rw [get?_set_self t hp] at hq
      cases hq
    rwa [get?_set_of_ne t hqp] at hq
  file := by
    intro q hq _
    rw [get?_set_of_ne t (by simpa using hq)]

/-- **A file that was written changes nothing about where files can be written.** -/
theorem admits_of_write {path : String} {bytes : ByteArray}
    (h : t.write path bytes = (t', .ok ())) (other : String) :
    t'.Admits other ↔ t.Admits other := by
  obtain ⟨p, hp, hdir, rfl⟩ := write_eq_ok_iff.mp h
  have hgrown := extends_set_file hdir bytes
  have hback := extends_of_set_file hdir (ne_nil_of_place? hp) bytes
  constructor
  · rintro ⟨q, hq, hfree⟩
    exact ⟨q, hback.place? hq, fun hq' => hfree (hgrown.directory q hq')⟩
  · rintro ⟨q, hq, hfree⟩
    exact ⟨q, hgrown.place? hq, fun hq' => hfree (hback.directory q hq')⟩

end FileTree

open FileTree

namespace Artifact

variable {t t' : FileTree} {a : Artifact} {dir : String} {e : FileError}

theorem write_eq_error (h : (a.write dir t).result = (t', .error e)) :
    t' = t ∧ ¬ t.Admits (a.pathIn dir) := by
  refine @FileTree.write_eq_error t t' (a.pathIn dir) a.contents.toUTF8 e ?_
  rw [write] at h
  rw [pathIn]
  rcases hw : t.write (Path.join dir a.fileName) a.contents.toUTF8 with ⟨u, e' | ⟨⟨⟩⟩⟩
  · rw [hw] at h
    simpa using h
  · rw [hw] at h
    simp at h

end Artifact

namespace Artifacts

variable {t after : FileTree} {a : Artifacts} {dir : String}

/-! ### Where writing stops -/

/-- **Where writing stops** when it does not end well: at the directory, at the record file, which
leaves no more than the directory, or at the parser file, which leaves the record file. -/
inductive Stopped (a : Artifacts) (dir : String) (t after : FileTree) : Prop where
  | directory (e : FileError) (failed : t.createDirectories dir = (after, .error e))
  | record (made : t.createDirectories dir = (after, .ok ()))
      (refused : ¬ after.Admits (a.record.pathIn dir))
  | parser (between : FileTree) (made : t.createDirectories dir = (between, .ok ()))
      (written : between.write (a.record.pathIn dir) a.record.contents.toUTF8 = (after, .ok ()))
      (refused : ¬ after.Admits (a.parser.pathIn dir))

theorem write_stops {e : FileError} (h : (a.write dir t).result = (after, .error e)) :
    a.Stopped dir t after := by
  rw [write] at h
  split at h
  · rename_i made e' hmade
    obtain ⟨rfl, -⟩ := Prod.mk.inj h
    exact .directory e' hmade
  · rename_i made hmade
    rw [Traced.andThen_result] at h
    split at h
    · rename_i half e' hrecord
      obtain ⟨rfl, -⟩ := Prod.mk.inj h
      obtain ⟨rfl, hrefused⟩ := Artifact.write_eq_error hrecord
      exact .record hmade hrefused
    · rename_i half recordPath hrecord
      obtain ⟨hhalf, -⟩ := Artifact.write_eq_ok_iff.mp hrecord
      rw [Traced.map_result] at h
      split at h
      · rename_i full e' hparser
        obtain ⟨rfl, -⟩ := Prod.mk.inj h
        obtain ⟨rfl, hrefused⟩ := Artifact.write_eq_error hparser
        exact .parser made hmade hhalf hrefused
      · cases (Prod.mk.inj h).2

/-- What was done before writing stopped is confined to the directories and the record file. -/
theorem Stopped.confined (h : a.Stopped dir t after) :
    Confined (Path.segments dir) [(a.record.pathIn dir, a.record.contents.toUTF8)] t after := by
  have hdirs := confined_createDirectories t dir
  cases h with
  | directory e failed =>
    rw [failed] at hdirs
    exact hdirs.mono_files (List.nil_subset _)
  | record made =>
    rw [made] at hdirs
    exact hdirs.mono_files (List.nil_subset _)
  | parser between made written =>
    rw [made] at hdirs
    have hrecord := FileTree.confined_write (Path.segments dir) between (a.record.pathIn dir)
      a.record.contents.toUTF8
    rw [written] at hrecord
    exact hdirs.trans hrecord

/-- Both paths lead to a place after writing ended well. -/
theorem places_of_write {paths : List String} (h : (a.write dir t).result = (after, .ok paths)) :
    ∃ r p, after.place? (a.record.pathIn dir) = some r ∧
      after.place? (a.parser.pathIn dir) = some p := by
  obtain ⟨made, half, -, hhalf, hafter, -⟩ := write_eq_ok_iff.mp h
  obtain ⟨-, r, hr, -⟩ := FileTree.read_of_write hhalf
  obtain ⟨-, p, hp, hgrown⟩ := FileTree.read_of_write hafter
  exact ⟨r, p, hgrown.place? hr, hp⟩

/-- **Writing ends well exactly when the directory can be made and then takes both files.** -/
theorem exists_write_iff :
    (∃ after paths, (a.write dir t).result = (after, .ok paths)) ↔
      ∃ made, t.createDirectories dir = (made, .ok ()) ∧
        made.Admits (a.record.pathIn dir) ∧ made.Admits (a.parser.pathIn dir) := by
  constructor
  · rintro ⟨after, paths, h⟩
    obtain ⟨made, half, hmade, hhalf, hafter, -⟩ := write_eq_ok_iff.mp h
    have hparser := FileTree.exists_write_iff.mp ⟨after, hafter⟩
    exact ⟨made, hmade, FileTree.exists_write_iff.mp ⟨half, hhalf⟩,
      (admits_of_write hhalf _).mp hparser⟩
  · rintro ⟨made, hmade, hrecord, hparser⟩
    obtain ⟨half, hhalf⟩ := FileTree.exists_write_iff.mpr hrecord
    obtain ⟨after, hafter⟩ := FileTree.exists_write_iff.mpr ((admits_of_write hhalf _).mpr hparser)
    exact ⟨after, _, write_eq_ok_iff.mpr ⟨made, half, hmade, hhalf, hafter, rfl⟩⟩

/-- **What writing the two files does.**  Where it ends well it gives the paths of the record file
and of the parser file; the parser file holds its contents, and so does the record file unless both
paths lead to one place; and nothing else changed but directories made along the path.  Where it
fails, nothing changed but directories made along the path and the record file, which then holds its
contents.  It ends well exactly when the directory can be made and then takes both files. -/
theorem write_effect (a : Artifacts) (dir : String) (t : FileTree) :
    (∀ after paths, (a.write dir t).result = (after, .ok paths) →
      paths = [a.record.pathIn dir, a.parser.pathIn dir] ∧
      after.read (a.parser.pathIn dir) = .ok a.parser.contents.toUTF8 ∧
      (after.place? (a.record.pathIn dir) ≠ after.place? (a.parser.pathIn dir) →
        after.read (a.record.pathIn dir) = .ok a.record.contents.toUTF8) ∧
      Confined (Path.segments dir) (a.filesIn dir) t after) ∧
    (∀ after e, (a.write dir t).result = (after, .error e) →
      Confined (Path.segments dir) [(a.record.pathIn dir, a.record.contents.toUTF8)] t after) ∧
    ((∃ after paths, (a.write dir t).result = (after, .ok paths)) ↔
      ∃ made, t.createDirectories dir = (made, .ok ()) ∧
        made.Admits (a.record.pathIn dir) ∧ made.Admits (a.parser.pathIn dir)) := by
  refine ⟨fun after paths h => ?_, fun after e h => (write_stops h).confined, exists_write_iff⟩
  obtain ⟨made, half, hmade, hhalf, hafter, hpaths⟩ := write_eq_ok_iff.mp h
  refine ⟨hpaths, (FileTree.read_of_write hafter).1, fun hapart => ?_, ?_⟩
  · exact (left_of_write h hapart).1.record
  · have hconfined := a.confined_write dir t
    rwa [h] at hconfined

/-- Into a directory that has to be made on the way to another one: two files that go there, and two
of which the second one cannot, since the first is no directory. -/
theorem write_effect_through_parent :
    let both : Artifacts := ⟨⟨.record, "r", "1"⟩, ⟨.parser, "p", "2"⟩⟩
    let half : Artifacts := ⟨⟨.record, "r", "1"⟩, ⟨.parser, "r/p", "2"⟩⟩
    let made : List (List String × Entry) :=
      [(["x"], .directory), (["y"], .directory), (["y", "r"], .file "1".toUTF8)]
    ((both.write "x/../y" ⟨[]⟩).result =
        (⟨made ++ [(["y", "p"], .file "2".toUTF8)]⟩, .ok ["x/../y/r", "x/../y/p"]) ∧
      FileTree.read ⟨made ++ [(["y", "p"], .file "2".toUTF8)]⟩ "x/../y/r" = .ok "1".toUTF8) ∧
    (half.write "x/../y" ⟨[]⟩).result = (⟨made⟩, .error .notDirectory) ∧
      Confined ["x", "..", "y"] [("x/../y/r", "1".toUTF8)] ⟨[]⟩ ⟨made⟩ := by
  intro both half made
  have hboth : (both.write "x/../y" ⟨[]⟩).result =
      (⟨made ++ [(["y", "p"], .file "2".toUTF8)]⟩, .ok ["x/../y/r", "x/../y/p"]) := by
    decide +kernel
  have hhalf : (half.write "x/../y" ⟨[]⟩).result = (⟨made⟩, .error .notDirectory) := by
    decide +kernel
  have hsegs : Path.segments "x/../y" = ["x", "..", "y"] := by decide +kernel
  have hpath : Path.join "x/../y" "r" = "x/../y/r" := by decide +kernel
  have hread : FileTree.read _ (Path.join "x/../y" "r") = .ok "1".toUTF8 :=
    ((write_effect both "x/../y" ⟨[]⟩).1 _ _ hboth).2.2.1 (by decide +kernel)
  have hconfined : Confined _ [(Path.join "x/../y" "r", "1".toUTF8)] ⟨[]⟩ ⟨made⟩ :=
    (write_effect half "x/../y" ⟨[]⟩).2.1 _ _ hhalf
  rw [hpath] at hread
  rw [hsegs, hpath] at hconfined
  exact ⟨⟨hboth, hread⟩, hhalf, hconfined⟩

end Artifacts

end FlatFile
