import FlatFile.Files.Tree
import FlatFile.Proofs.PathSegments

/-!
# What changes in a file tree

Making directories and writing files only ever adds to a tree: directories stay, and a file changes
only where one was written.  `Extends` says this of two trees, and everything that was found in the
first tree is found in the second by the same path (`Extends.place?`, `Extends.read`).

A path leads to a place (`place?`) that reading and writing agree on: `read_eq_ok_iff` and
`write_eq_ok_iff` say what each of them does there.  Making a directory with those around it leaves
a directory behind (`isDirectory_of_createDirectories`), and does nothing where there is one already
(`createDirectories_of_isDirectory`).
-/

namespace FlatFile

namespace FileTree

variable {t t' : FileTree}

/-! ### Entries -/

@[simp] theorem get?_nil (t : FileTree) : t.get? [] = some .directory := rfl

theorem get?_of_ne_nil (t : FileTree) {p : List String} (hp : p ≠ []) :
    t.get? p = t.entries.lookup p := if_neg hp

theorem lookup_setEntry_self (p : List String) (e : Entry) (es : List (List String × Entry)) :
    (setEntry p e es).lookup p = some e := by
  induction es with
  | nil => simp [setEntry]
  | cons f es ih =>
    obtain ⟨q, f⟩ := f
    by_cases h : q = p
    · simp [setEntry, h]
    · have hne : (p == q) = false := by simpa using fun he => h he.symm
      simp [setEntry, h, List.lookup_cons, hne, ih]

theorem lookup_setEntry_of_ne {p q : List String} (h : q ≠ p) (e : Entry)
    (es : List (List String × Entry)) : (setEntry p e es).lookup q = es.lookup q := by
  have hne : (q == p) = false := by simpa using h
  induction es with
  | nil => simp [setEntry, List.lookup_cons, hne]
  | cons f es ih =>
    obtain ⟨r, f⟩ := f
    by_cases hr : r = p
    · simp [setEntry, hr, List.lookup_cons, hne]
    · simp [setEntry, hr, List.lookup_cons, ih]

theorem setEntry_of_lookup {p : List String} {e : Entry} {es : List (List String × Entry)}
    (h : es.lookup p = some e) : setEntry p e es = es := by
  induction es with
  | nil => cases h
  | cons f es ih =>
    obtain ⟨q, f⟩ := f
    by_cases hq : q = p
    · subst hq
      rw [List.lookup_cons, beq_self_eq_true] at h
      rw [setEntry, if_pos rfl, Option.some.inj h]
    · have hne : (p == q) = false := by simpa using fun he => hq he.symm
      rw [List.lookup_cons, hne] at h
      rw [setEntry, if_neg hq, ih h]

theorem get?_set_self (t : FileTree) {p : List String} (hp : p ≠ []) (e : Entry) :
    (t.set p e).get? p = some e := by
  rw [get?_of_ne_nil _ hp]
  exact lookup_setEntry_self p e t.entries

theorem get?_set_of_ne (t : FileTree) {p q : List String} (h : q ≠ p) (e : Entry) :
    (t.set p e).get? q = t.get? q := by
  by_cases hq : q = []
  · rw [hq, get?_nil, get?_nil]
  · rw [get?_of_ne_nil _ hq, get?_of_ne_nil _ hq]
    exact lookup_setEntry_of_ne h e t.entries

/-- Putting an entry where it is already changes nothing. -/
theorem set_of_get? {p : List String} {e : Entry} (hp : p ≠ []) (h : t.get? p = some e) :
    t.set p e = t := by
  rw [get?_of_ne_nil _ hp] at h
  rw [set, setEntry_of_lookup h]

/-! ### Walking -/

theorem enter_eq_ok_of_name {p : List String} {s : String} (hs : s ≠ "")
    (hdots : Path.isDots s = false) (h : t.get? (p ++ [s]) = some .directory) :
    t.enter p s = .ok (p ++ [s]) := by
  simp only [Path.isDots, Bool.or_eq_false_iff, beq_eq_false_iff_ne] at hdots
  rw [enter, if_neg (by simp [hs, hdots.1]), if_neg hdots.2, h]

/-- One step leads nowhere new, or into a directory that is there. -/
theorem enter_cases {p q : List String} {s : String} (h : t.enter p s = .ok q) :
    (s = "" ∨ Path.isDots s = true) ∧ (∀ u : FileTree, u.enter p s = .ok q) ∨
      q = p ++ [s] ∧ t.get? q = some .directory ∧ s ≠ "" ∧ Path.isDots s = false := by
  by_cases hstay : s = "" ∨ s = "."
  · rw [enter, if_pos hstay] at h
    refine Or.inl ⟨hstay.imp_right fun hs => by rw [hs]; rfl, fun u => ?_⟩
    rw [enter, if_pos hstay, h]
  · by_cases hup : s = ".."
    · rw [enter, if_neg hstay, if_pos hup] at h
      refine Or.inl ⟨Or.inr (by rw [hup]; rfl), fun u => ?_⟩
      rw [enter, if_neg hstay, if_pos hup, h]
    · rw [enter, if_neg hstay, if_neg hup] at h
      obtain ⟨hne, hdot⟩ := not_or.mp hstay
      split at h
      · cases h
      · cases h
      · rename_i hdir
        obtain rfl := Except.ok.inj h
        exact Or.inr ⟨rfl, hdir, hne, by simp [Path.isDots, hdot, hup]⟩

theorem walk_append (t : FileTree) (p : List String) (a b : List String) :
    t.walk p (a ++ b) = (t.walk p a).bind fun q => t.walk q b := by
  induction a generalizing p with
  | nil => rfl
  | cons s a ih =>
    rw [List.cons_append, walk, walk]
    cases t.enter p s with
    | error e => rfl
    | ok q => exact ih q

theorem walk_empty_segments (t : FileTree) (p : List String) {segs : List String}
    (h : ∀ s ∈ segs, s = "") : t.walk p segs = .ok p := by
  induction segs with
  | nil => rfl
  | cons s segs ih =>
    obtain rfl := h s List.mem_cons_self
    rw [walk, enter, if_pos (Or.inl rfl)]
    exact ih fun s' hs' => h s' (List.mem_cons_of_mem _ hs')

theorem isDirectory_iff (t : FileTree) (segs : List String) :
    t.isDirectory segs = true ↔ ∃ p, t.walk [] segs = .ok p := by
  rw [isDirectory]
  cases t.walk [] segs with
  | error e => simp
  | ok p => simp

/-- The place of the entry that a path names; `none` when it names none or its directory is not
there. -/
def place? (t : FileTree) (path : String) : Option (List String) :=
  match t.locate (Path.segments path) with
  | .ok (.inr place) => some place
  | _ => none

/-- A path names an entry by its last segment, in the directory that the others lead to. -/
theorem place?_eq_some_iff {path : String} {p : List String} :
    t.place? path = some p ↔
      ∃ outer s dir, Path.segments path = outer ++ [s] ∧ s ≠ "" ∧ Path.isDots s = false ∧
        t.walk [] outer = .ok dir ∧ p = dir ++ [s] := by
  rw [place?, locate]
  rcases List.eq_nil_or_concat (Path.segments path) with hnil | ⟨outer, s, hsegs⟩
  · simp [hnil]
  · rw [hsegs, List.concat_eq_append, List.getLast?_append, List.dropLast_concat]
    simp only [List.getLast?_singleton, Option.some_or]
    by_cases hs : s = "" ∨ Path.isDots s = true
    · rw [if_pos hs]
      constructor
      · cases t.walk [] (outer ++ [s]) <;> simp [Except.map]
      · rintro ⟨outer', s', dir, heq, hne, hdots, -, -⟩
        obtain ⟨-, hlast⟩ := List.append_inj' heq rfl
        obtain rfl := List.singleton_inj.mp hlast
        rcases hs with hs | hs
        · exact absurd hs hne
        · rw [hs] at hdots
          cases hdots
    · rw [if_neg hs]
      obtain ⟨hne, hdots⟩ := not_or.mp hs
      rw [Bool.not_eq_true] at hdots
      constructor
      · intro h
        cases hw : t.walk [] outer with
        | error e => rw [hw] at h; cases h
        | ok dir =>
          rw [hw] at h
          exact ⟨outer, s, dir, rfl, hne, hdots, hw, (Option.some.inj h).symm⟩
      · rintro ⟨outer', s', dir, heq, -, -, hw, rfl⟩
        obtain ⟨houter, hlast⟩ := List.append_inj' heq rfl
        obtain rfl := List.singleton_inj.mp hlast
        rw [houter, hw]
        rfl

theorem ne_nil_of_place? {path : String} {p : List String} (h : t.place? path = some p) :
    p ≠ [] := by
  obtain ⟨_, s, dir, -, -, -, -, rfl⟩ := place?_eq_some_iff.mp h
  simp

/-! ### Reading and writing -/

theorem read_eq_ok_iff {path : String} {bytes : ByteArray} :
    t.read path = .ok bytes ↔ ∃ p, t.place? path = some p ∧ t.get? p = some (.file bytes) := by
  by_cases hpath : path = ""
  · subst hpath
    rw [read, if_pos rfl]
    refine iff_of_false nofun ?_
    rintro ⟨p, hp, -⟩
    cases hp
  · rw [read, if_neg hpath, place?]
    cases t.locate (Path.segments path) with
    | error e => simp
    | ok found =>
      cases found with
      | inl dir => simp
      | inr p =>
        cases hp : t.get? p with
        | none => simp [hp]
        | some e => cases e <;> simp [hp]

theorem isFile_iff {path : String} : t.isFile path = true ↔ ∃ bytes, t.read path = .ok bytes := by
  rw [isFile]
  cases t.read path with
  | error e => simp
  | ok bytes => simp

theorem write_eq_ok_iff {path : String} {bytes : ByteArray} :
    t.write path bytes = (t', .ok ()) ↔
      ∃ p, t.place? path = some p ∧ t.get? p ≠ some .directory ∧ t' = t.set p (.file bytes) := by
  constructor
  · intro h
    rw [write] at h
    split at h
    · cases h
    · simp only [] at h
      split at h
      · split at h <;> cases h
      · split at h
        · cases h
        · cases h
        · rename_i p hp
          refine ⟨p, by rw [place?, hp], ?_⟩
          split at h
          · cases h
          · rename_i hdir
            exact ⟨hdir, (Prod.mk.inj h).1.symm⟩
  · rintro ⟨p, hp, hdir, rfl⟩
    obtain ⟨outer, s, dir, hsegs, hne, -, -, -⟩ := place?_eq_some_iff.mp hp
    have hpath : path ≠ "" := by
      rintro rfl
      cases hp
    have hlast : (Path.segments path).getLast? ≠ some "" := by
      rw [hsegs, List.getLast?_append]
      simpa using hne
    have hloc : t.locate (Path.segments path) = .ok (.inr p) := by
      rw [place?] at hp
      split at hp
      · rename_i hloc
        rw [hloc, Option.some.inj hp]
      · cases hp
    rw [write, if_neg hpath]
    simp only [if_neg hlast, hloc]

/-! ### Growing -/

/-- **A tree that grew**: it has all directories of the tree it grew from, and the same files but
for those in the places `written`. -/
structure Extends (written : List (List String)) (t t' : FileTree) : Prop where
  directory : ∀ p, t.get? p = some .directory → t'.get? p = some .directory
  file : ∀ p ∉ written, ∀ bytes, t'.get? p = some (.file bytes) ↔ t.get? p = some (.file bytes)

theorem Extends.refl (written : List (List String)) (t : FileTree) : Extends written t t :=
  ⟨fun _ h => h, fun _ _ _ => Iff.rfl⟩

theorem Extends.trans {a b : List (List String)} {u : FileTree} (h : Extends a t t')
    (h' : Extends b t' u) : Extends (a ++ b) t u where
  directory := fun p hp => h'.directory p (h.directory p hp)
  file := by
    intro p hp bytes
    rw [List.mem_append, not_or] at hp
    rw [h'.file p hp.2, h.file p hp.1]

/-- A directory was made where nothing was. -/
theorem extends_set_directory {p : List String} (hp : p ≠ []) (h : t.get? p = none) :
    Extends [] t (t.set p .directory) where
  directory := by
    intro q hq
    by_cases hqp : q = p
    · subst hqp
      exact get?_set_self t hp .directory
    · rw [get?_set_of_ne t hqp, hq]
  file := by
    intro q _ bytes
    by_cases hqp : q = p
    · subst hqp
      rw [get?_set_self t hp, h]
      exact iff_of_false nofun nofun
    · rw [get?_set_of_ne t hqp]

/-- A file was written where no directory was. -/
theorem extends_set_file {p : List String} (h : t.get? p ≠ some .directory) (bytes : ByteArray) :
    Extends [p] t (t.set p (.file bytes)) where
  directory := by
    intro q hq
    have hqp : q ≠ p := by
      rintro rfl
      exact h hq
    rw [get?_set_of_ne t hqp, hq]
  file := by
    intro q hq _
    rw [get?_set_of_ne t (by simpa using hq)]

namespace Extends

variable {written : List (List String)} (h : Extends written t t')
include h

theorem walk {p q segs : List String} (hw : t.walk p segs = .ok q) : t'.walk p segs = .ok q := by
  induction segs generalizing p with
  | nil => exact hw
  | cons s segs ih =>
    rw [FileTree.walk] at hw ⊢
    cases he : t.enter p s with
    | error e => rw [he] at hw; cases hw
    | ok next =>
      rw [he] at hw
      have hnext : t'.enter p s = .ok next := by
        rcases enter_cases he with ⟨-, hsame⟩ | ⟨rfl, hdir, hne, hdots⟩
        · exact hsame t'
        · exact enter_eq_ok_of_name hne hdots (h.directory _ hdir)
      rw [hnext]
      exact ih hw

theorem isDirectory {segs : List String} (hd : t.isDirectory segs = true) :
    t'.isDirectory segs = true := by
  obtain ⟨p, hp⟩ := (isDirectory_iff t segs).mp hd
  exact (isDirectory_iff t' segs).mpr ⟨p, h.walk hp⟩

/-- **A path that named an entry names the entry of the same place.** -/
theorem place? {path : String} {p : List String} (hp : t.place? path = some p) :
    t'.place? path = some p := by
  obtain ⟨outer, s, dir, hsegs, hne, hdots, hw, rfl⟩ := place?_eq_some_iff.mp hp
  exact place?_eq_some_iff.mpr ⟨outer, s, dir, hsegs, hne, hdots, h.walk hw, rfl⟩

/-- **A file that was read reads the same**, unless it was written. -/
theorem read {path : String} {bytes : ByteArray} (hr : t.read path = .ok bytes)
    (hfree : ∀ p, t'.place? path = some p → p ∉ written) : t'.read path = .ok bytes := by
  obtain ⟨p, hp, hfile⟩ := read_eq_ok_iff.mp hr
  have hp' := h.place? hp
  exact read_eq_ok_iff.mpr ⟨p, hp', (h.file p (hfree p hp') bytes).mpr hfile⟩

/-- A path that named an entry reads the same, whether there is a file or not. -/
theorem read_iff {path : String} {p : List String} (hp : t.place? path = some p)
    (hfree : p ∉ written) (bytes : ByteArray) :
    t'.read path = .ok bytes ↔ t.read path = .ok bytes := by
  rw [read_eq_ok_iff, read_eq_ok_iff, hp, h.place? hp]
  simp only [Option.some.injEq, exists_eq_left', h.file p hfree]

end Extends

/-- A file that was written reads as it was written, and all else is as before. -/
theorem read_of_write {path : String} {bytes : ByteArray}
    (h : t.write path bytes = (t', .ok ())) :
    t'.read path = .ok bytes ∧ ∃ p, t'.place? path = some p ∧ Extends [p] t t' := by
  obtain ⟨p, hp, hdir, rfl⟩ := write_eq_ok_iff.mp h
  have hgrown := extends_set_file hdir bytes
  have hp' := hgrown.place? hp
  refine ⟨read_eq_ok_iff.mpr ⟨p, hp', ?_⟩, p, hp', hgrown⟩
  exact get?_set_self t (ne_nil_of_place? hp) _

/-- Writing what a file holds changes nothing. -/
theorem write_of_read {path : String} {bytes : ByteArray} (h : t.read path = .ok bytes) :
    t.write path bytes = (t, .ok ()) := by
  obtain ⟨p, hp, hfile⟩ := read_eq_ok_iff.mp h
  refine write_eq_ok_iff.mpr ⟨p, hp, by simp [hfile], ?_⟩
  exact (set_of_get? (ne_nil_of_place? hp) hfile).symm

/-! ### Making directories -/

/-- **Making a directory fails and changes nothing, or puts it into one that is there.** -/
theorem makeDirectory_cases (t : FileTree) (segs : List String) :
    (∃ e, t.makeDirectory segs = (t, .error e)) ∨
      ∃ outer s p, Path.dropSlashes segs = outer ++ [s] ∧ Path.isDots s = false ∧
        t.walk [] outer = .ok p ∧ t.get? (p ++ [s]) = none ∧
        t.makeDirectory segs = (t.set (p ++ [s]) .directory, .ok ()) := by
  rw [makeDirectory]
  rcases List.eq_nil_or_concat (Path.dropSlashes segs) with hnil | ⟨outer, s, hnamed⟩
  · exact Or.inl ⟨_, by rw [hnil]; rfl⟩
  · rw [List.concat_eq_append] at hnamed
    simp only [hnamed, List.getLast?_append, List.getLast?_singleton, Option.some_or,
      List.dropLast_concat]
    cases hw : t.walk [] outer with
    | error e => exact Or.inl ⟨e, rfl⟩
    | ok p =>
      by_cases hdots : Path.isDots s = true
      · exact Or.inl ⟨_, by simp only [if_pos hdots]; rfl⟩
      · simp only [if_neg hdots]
        cases hp : t.get? (p ++ [s]) with
        | some e => exact Or.inl ⟨_, rfl⟩
        | none =>
          exact Or.inr ⟨outer, s, p, rfl, by simpa using hdots, hw, hp, rfl⟩

theorem extends_makeDirectory (t : FileTree) (segs : List String) :
    Extends [] t (t.makeDirectory segs).1 := by
  rcases makeDirectory_cases t segs with ⟨e, he⟩ | ⟨outer, s, p, -, -, -, hfree, hmade⟩
  · rw [he]
    exact Extends.refl [] t
  · rw [hmade]
    exact extends_set_directory (by simp) hfree

theorem isDirectory_of_makeDirectory {segs : List String}
    (h : t.makeDirectory segs = (t', .ok ())) : t'.isDirectory segs = true := by
  have hgrown := extends_makeDirectory t segs
  rcases makeDirectory_cases t segs with ⟨e, he⟩ | ⟨outer, s, p, hnamed, hdots, hw, -, hmade⟩
  · rw [he] at h
    cases h
  · obtain ⟨slashes, hsegs, hempty⟩ := Path.dropSlashes_append segs
    have ht' : t' = t.set (p ++ [s]) .directory := by
      rw [hmade] at h
      exact (Prod.mk.inj h).1.symm
    rw [h] at hgrown
    -- the outer segments lead where they led, the last name into the new directory
    rw [isDirectory_iff, hsegs, hnamed, List.append_assoc, walk_append, hgrown.walk hw]
    refine ⟨p ++ [s], ?_⟩
    have henter : t'.enter p s = .ok (p ++ [s]) :=
      enter_eq_ok_of_name (Path.ne_empty_of_dropSlashes hnamed) hdots
        (by rw [ht']; exact get?_set_self t (by simp) .directory)
    change t'.walk p (s :: slashes) = _
    rw [walk, henter]
    exact walk_empty_segments t' (p ++ [s]) hempty

theorem settleDirectory_ok {segs : List String} (h : t.settleDirectory segs = (t', .ok ())) :
    t'.isDirectory segs = true := by
  rw [settleDirectory] at h
  split at h
  · rename_i made hmade
    rw [(Prod.mk.inj h).1] at hmade
    exact isDirectory_of_makeDirectory hmade
  · split at h
    · rename_i hdir
      rw [← (Prod.mk.inj h).1, hdir]
    · cases h

theorem extends_settleDirectory (t : FileTree) (segs : List String) :
    Extends [] t (t.settleDirectory segs).1 := by
  have hgrown := extends_makeDirectory t segs
  rw [settleDirectory]
  split
  · rename_i hmade
    rw [hmade] at hgrown
    exact hgrown
  · split <;> exact Extends.refl [] t

theorem extends_makeDirectories (t : FileTree) (components : List String) :
    Extends [] t (t.makeDirectories components).1 := by
  induction components with
  | nil => exact Extends.refl [] t
  | cons c outer ih =>
    rw [makeDirectories]
    split
    · split
      · rename_i hmade
        rw [hmade] at ih
        exact ih.trans (extends_settleDirectory _ _)
      · exact ih
    · exact extends_settleDirectory _ _

/-- Making directories only adds directories, also when it fails half way. -/
theorem extends_createDirectories (t : FileTree) (path : String) :
    Extends [] t (t.createDirectories path).1 := by
  rw [createDirectories]
  split
  · exact Extends.refl [] t
  · simp only []
    split
    · have hgrown := extends_makeDirectories t (Path.components path).reverse.tail
      split
      · rename_i hmade
        rw [hmade] at hgrown
        exact hgrown.trans (extends_settleDirectory _ _)
      · exact hgrown
    · exact extends_settleDirectory _ _

/-- **What was made is there.** -/
theorem isDirectory_of_createDirectories {path : String} (hpath : path ≠ "")
    (h : t.createDirectories path = (t', .ok ())) :
    t'.isDirectory (Path.segments path) = true := by
  rw [createDirectories, if_neg hpath] at h
  simp only [] at h
  split at h
  · split at h
    · exact settleDirectory_ok h
    · rename_i hfailed
      exact absurd h (hfailed t')
  · exact settleDirectory_ok h

theorem makeDirectory_of_isDirectory {segs : List String} (hne : segs ≠ []) (hempty : segs ≠ [""])
    (h : t.isDirectory segs = true) : t.makeDirectory segs = (t, .error .alreadyExists) := by
  obtain ⟨slashes, hsegs, hslashes⟩ := Path.dropSlashes_append segs
  obtain ⟨last, hwalk⟩ := (isDirectory_iff t segs).mp h
  rw [makeDirectory]
  rcases List.eq_nil_or_concat (Path.dropSlashes segs) with hnil | ⟨outer, s, hnamed⟩
  · have hlong : ¬ segs.length ≤ 1 := by
      rw [hnil, List.nil_append] at hsegs
      match segs, hsegs with
      | [], _ => exact absurd rfl hne
      | [s], hs => exact absurd (by rw [hslashes s (by rw [← hs]; exact List.mem_cons_self)]) hempty
      | _ :: _ :: _, _ => simp
    simp only [hnil, List.getLast?_nil, if_neg hlong]
  · rw [List.concat_eq_append] at hnamed
    simp only [hnamed, List.getLast?_append, List.getLast?_singleton, Option.some_or,
      List.dropLast_concat]
    rw [hsegs, hnamed, List.append_assoc, walk_append] at hwalk
    cases hw : t.walk [] outer with
    | error e => rw [hw] at hwalk; cases hwalk
    | ok p =>
      by_cases hdots : Path.isDots s = true
      · simp only [if_pos hdots]
      · rw [hw] at hwalk
        change t.walk p (s :: slashes) = _ at hwalk
        rw [walk] at hwalk
        cases he : t.enter p s with
        | error e => rw [he] at hwalk; cases hwalk
        | ok next =>
          have hs := Path.ne_empty_of_dropSlashes hnamed
          rcases enter_cases he with ⟨hdot, -⟩ | ⟨rfl, hentry, -, -⟩
          · exact absurd hdot (not_or.mpr ⟨hs, hdots⟩)
          · simp only [if_neg hdots, hentry]

/-- **Making a directory that is there changes nothing.** -/
theorem createDirectories_of_isDirectory {path : String}
    (h : path ≠ "" → t.isDirectory (Path.segments path) = true) :
    t.createDirectories path = (t, .ok ()) := by
  by_cases hpath : path = ""
  · rw [createDirectories, if_pos hpath]
  · have hdir := h hpath
    have hmade := makeDirectory_of_isDirectory (Path.segments_ne_nil path)
      (fun hs => hpath (Path.eq_empty_of_segments hs)) hdir
    rw [createDirectories, if_neg hpath]
    simp only [hmade, settleDirectory, hdir, if_true]

/-! ### Proper trees -/

/-- **A proper tree**: around every entry there is a directory. -/
def Closed (t : FileTree) : Prop := ∀ e ∈ t.entries, t.get? e.1.dropLast = some .directory

instance decClosed (t : FileTree) : Decidable t.Closed :=
  inferInstanceAs (Decidable (∀ e ∈ t.entries, _))

theorem Closed.parent (h : t.Closed) {p : List String} {s : String} {e : Entry}
    (he : t.get? (p ++ [s]) = some e) : t.get? p = some .directory := by
  rw [get?_of_ne_nil t (by simp), List.lookup_eq_some_iff] at he
  obtain ⟨before, after, hentries, -⟩ := he
  have hparent := h (p ++ [s], e) (by rw [hentries]; simp)
  rwa [List.dropLast_concat] at hparent

/-- In a proper tree names alone lead to every directory. -/
theorem Closed.walk (h : t.Closed) {p segs : List String}
    (hnames : ∀ s ∈ segs, s ≠ "" ∧ Path.isDots s = false)
    (hdir : t.get? (p ++ segs) = some .directory) : t.walk p segs = .ok (p ++ segs) := by
  induction segs using List.reverseRecOn with
  | nil => rw [List.append_nil]; rfl
  | append_singleton segs s ih =>
    rw [← List.append_assoc] at hdir
    obtain ⟨hs, hdots⟩ := hnames s (by simp)
    rw [walk_append, ih (fun s' hs' => hnames s' (by simp [hs'])) (h.parent hdir)]
    change t.walk (p ++ segs) [s] = _
    rw [FileTree.walk, enter_eq_ok_of_name hs hdots hdir, List.append_assoc]
    rfl

/-- Names alone lead to the place they spell. -/
theorem walk_of_names {p q segs : List String}
    (hnames : ∀ s ∈ segs, s ≠ "" ∧ Path.isDots s = false) (h : t.walk p segs = .ok q) :
    q = p ++ segs := by
  induction segs generalizing p with
  | nil => rw [List.append_nil]; exact (Except.ok.inj h).symm
  | cons s segs ih =>
    rw [walk] at h
    cases he : t.enter p s with
    | error e => rw [he] at h; cases h
    | ok next =>
      rw [he] at h
      obtain ⟨hs, hdots⟩ := hnames s List.mem_cons_self
      rcases enter_cases he with ⟨hdot, -⟩ | ⟨rfl, -, -, -⟩
      · rcases hdot with hdot | hdot
        · exact absurd hdot hs
        · rw [hdot] at hdots
          cases hdots
      · rw [ih (fun s' hs' => hnames s' (List.mem_cons_of_mem s hs')) h, List.append_assoc]
        rfl

/-- **In a proper tree that grew, a path of names reads as before**, unless its file was written:
no directory that was made can make a file appear behind it. -/
theorem Extends.read_iff_of_names {written : List (List String)} (h : Extends written t t')
    (ht : t.Closed) {path : String}
    (hnames : ∀ s ∈ Path.segments path, s ≠ "" ∧ Path.isDots s = false)
    (hfree : ∀ p, t'.place? path = some p → p ∉ written) (bytes : ByteArray) :
    t'.read path = .ok bytes ↔ t.read path = .ok bytes := by
  refine ⟨fun hr => ?_, fun hr => h.read hr hfree⟩
  obtain ⟨p, hp, hfile⟩ := read_eq_ok_iff.mp hr
  rw [h.file p (hfree p hp)] at hfile
  refine read_eq_ok_iff.mpr ⟨p, ?_, hfile⟩
  obtain ⟨outer, s, dir, hsegs, hne, hdots, hw, rfl⟩ := place?_eq_some_iff.mp hp
  have houter : ∀ s' ∈ outer, s' ≠ "" ∧ Path.isDots s' = false :=
    fun s' hs' => hnames s' (by rw [hsegs]; simp [hs'])
  have hdir : dir = [] ++ outer := walk_of_names houter hw
  rw [hdir] at hfile ⊢
  exact place?_eq_some_iff.mpr
    ⟨outer, s, _, hsegs, hne, hdots, ht.walk houter (ht.parent hfile), rfl⟩

end FileTree

end FlatFile
