import FlatFile.Config.Load
import FlatFile.Proofs.EncodedLines
import FlatFile.Proofs.TreeChanges

/-!
# Where settings come from

Loading settings looks at files in fixed places, at the user's file and at a file that is named.
For each of them it also looks for the name with the extension of a registered format added
(`lookedAt`, `consulted`).  What it gives depends on these files alone: a tree that grew elsewhere
gives the same settings (`load_of_extends`).

All files that are looked at for one name stand in one directory (`around_of_mem_lookedAt`).  As
soon as that directory is there nothing can come into view by a directory that is made
(`source?_of_extends`).  Below a fixed place nothing can either, since its path has names only
(`source?_of_extends_fixed`).

One exception needs a premise.  The user's file is looked at only when something is in its place,
and then a directory there counts, so a directory that is made there can bring a file with an
extension added into view.
-/

namespace FlatFile

/-- A computation goes on to a result exactly through a result of its first part. -/
theorem bind_eq_ok_iff {ε α β : Type} {x : Except ε α} {f : α → Except ε β} {b : β} :
    x >>= f = .ok b ↔ ∃ a, x = .ok a ∧ f a = .ok b := by
  cases x <;> simp [bind, Except.bind]

namespace Config

variable {h : Host} {t t' : FileTree}

/-! ### Files that are looked at -/

/-- The files that are looked at for a name. -/
def lookedAt (h : Host) (name : String) : List String :=
  name :: h.formats.filterMap fun f => Path.withExtension? f.extension name

/-- **The files that loading settings looks at.** -/
def consulted (h : Host) (named : Option String) : List String :=
  (places ++ h.userFile.toList ++ named.toList).flatMap (lookedAt h)

theorem mem_consulted {named : Option String} {name q : String}
    (hname : name ∈ places ++ h.userFile.toList ++ named.toList) (hq : q ∈ lookedAt h name) :
    q ∈ consulted h named :=
  List.mem_flatMap.mpr ⟨name, hname, hq⟩

theorem mem_lookedAt_iff {name q : String} :
    q ∈ lookedAt h name ↔
      q = name ∨ ∃ f ∈ h.formats, Path.withExtension? f.extension name = some q := by
  rw [lookedAt, List.mem_cons, List.mem_filterMap]

/-- An extension is no path. -/
theorem slash_not_mem_extension {f : Format} (hf : f ∈ h.formats) : '/' ∉ f.extension.toList := by
  have hplain : ∀ e ∈ extensions, '/' ∉ e.toList := by decide
  exact hplain _ (h.registered.mem_iff.mp (List.mem_map_of_mem hf))

/-- **A file that is looked at for a name** is the name itself or stands in the same directory. -/
theorem segments_of_mem_lookedAt {name q : String} (hq : q ∈ lookedAt h name) :
    q = name ∨ ∃ s, s ≠ "" ∧ Path.isDots s = false ∧
      Path.segments q = Path.around name ++ [s] := by
  rcases mem_lookedAt_iff.mp hq with rfl | ⟨f, hf, hext⟩
  · exact Or.inl rfl
  · exact Or.inr (Path.segments_withExtension?_eq_around (slash_not_mem_extension hf) hext)

theorem around_of_mem_lookedAt {name q : String} (hq : q ∈ lookedAt h name) :
    Path.around q = Path.around name := by
  rcases segments_of_mem_lookedAt hq with rfl | ⟨s, hs, hdots, hsegs⟩
  · rfl
  · rw [Path.around, hsegs, Path.dropStays_of_name hs hdots, List.dropLast_concat]

/-- The file of a name is the name itself, with the extension of its format, or else the name with
that extension added. -/
theorem fileNamed?_cases {name file : String} {f : Format}
    (hfile : fileNamed? h t name = some (file, f)) :
    f ∈ h.formats ∧ (file = name ∧ Path.hasExtension f.extension name = true ∨
      Path.withExtension? f.extension name = some file) := by
  rw [fileNamed?] at hfile
  split at hfile
  · obtain ⟨g, hg, hpair⟩ := Option.map_eq_some_iff.mp hfile
    obtain ⟨rfl, rfl⟩ := Prod.mk.inj hpair
    have hend := List.find?_some hg
    exact ⟨List.mem_of_find?_eq_some hg, Or.inl ⟨rfl, hend⟩⟩
  · obtain ⟨g, hg, hfound⟩ := List.exists_of_findSome?_eq_some hfile
    obtain ⟨other, hother, hpair⟩ := Option.map_eq_some_iff.mp hfound
    obtain ⟨rfl, rfl⟩ := Prod.mk.inj hpair
    exact ⟨hg, Or.inr (Option.filter_eq_some_iff.mp hother).1⟩

theorem mem_lookedAt_of_fileNamed? {name file : String} {f : Format}
    (hfile : fileNamed? h t name = some (file, f)) : file ∈ lookedAt h name := by
  obtain ⟨hf, hcases⟩ := fileNamed?_cases hfile
  rw [mem_lookedAt_iff]
  exact hcases.imp And.left fun hext => ⟨f, hf, hext⟩

theorem source?_eq_some_iff {name s : String} {f : Format} :
    source? h t name = some (s, f) ↔
      ∃ file, fileNamed? h t name = some (file, f) ∧ t.read file = .ok s.toUTF8 := by
  rw [source?]
  rcases fileNamed? h t name with _ | ⟨file, g⟩
  · simp
  · simp only [← FileTree.readText_eq_ok_iff, Option.some.injEq, Prod.mk.injEq]
    constructor
    · intro hsource
      cases htext : t.readText file with
      | error e => rw [htext] at hsource; cases hsource
      | ok text =>
        rw [htext] at hsource
        obtain ⟨rfl, rfl⟩ := Prod.mk.inj (Option.some.inj hsource)
        exact ⟨file, ⟨rfl, rfl⟩, htext⟩
    · rintro ⟨_, ⟨rfl, rfl⟩, htext⟩
      rw [htext]

/-- **Two trees that agree on the files looked at for a name have the same source for it.** -/
theorem source?_congr {name : String}
    (hread : ∀ q ∈ lookedAt h name, ∀ bytes, t'.read q = .ok bytes ↔ t.read q = .ok bytes) :
    source? h t' name = source? h t name := by
  have hfile : ∀ q ∈ lookedAt h name, t'.isFile q = t.isFile q := by
    intro q hq
    rw [Bool.eq_iff_iff, FileTree.isFile_iff, FileTree.isFile_iff]
    exact exists_congr (hread q hq)
  have hextended : ∀ f ∈ h.formats, extended? t' name f = extended? t name f := by
    intro f hf
    rw [extended?, extended?]
    cases hext : Path.withExtension? f.extension name with
    | none => rfl
    | some file =>
      rw [Option.filter_some, Option.filter_some,
        hfile file (mem_lookedAt_iff.mpr (Or.inr ⟨f, hf, hext⟩))]
  have htried : ∀ fs : List Format, fs ⊆ h.formats →
      fs.findSome? (extended? t' name) = fs.findSome? (extended? t name) := by
    intro fs hfs
    induction fs with
    | nil => rfl
    | cons f fs ih =>
      obtain ⟨hf, hfs⟩ := List.cons_subset.mp hfs
      rw [List.findSome?_cons, List.findSome?_cons, ih hfs, hextended f hf]
  have hnamed : fileNamed? h t' name = fileNamed? h t name := by
    rw [fileNamed?, fileNamed?, hfile name List.mem_cons_self, htried _ (List.Subset.refl _)]
  ext ⟨s, f⟩
  rw [source?_eq_some_iff, source?_eq_some_iff, hnamed]
  refine exists_congr fun file => and_congr_right fun hf => ?_
  exact hread file (mem_lookedAt_of_fileNamed? hf) _

/-! ### A tree that grew -/

/-- A file that is there has a name in its directory. -/
theorem segments_of_read {path : String} {bytes : ByteArray} (hread : t.read path = .ok bytes) :
    ∃ s, s ≠ "" ∧ Path.isDots s = false ∧ Path.segments path = Path.around path ++ [s] ∧
      t.isDirectory (Path.around path) = true := by
  obtain ⟨p, hp, -⟩ := FileTree.read_eq_ok_iff.mp hread
  obtain ⟨outer, s, dir, hsegs, hs, hdots, hwalk, -⟩ := FileTree.place?_eq_some_iff.mp hp
  obtain rfl : outer = Path.around path := by
    rw [Path.around, hsegs, Path.dropStays_of_name hs hdots, List.dropLast_concat]
  exact ⟨s, hs, hdots, hsegs, (FileTree.isDirectory_iff t _).mpr ⟨dir, hwalk⟩⟩

/-- Where a path leads to something, its directory is there. -/
theorem isDirectory_around_of_present {path : String} (hpresent : t.present path = true) :
    t.isDirectory (Path.around path) = true := by
  rw [FileTree.present, Bool.and_eq_true, Bool.or_eq_true] at hpresent
  rcases hpresent.2 with hfile | hdir
  · obtain ⟨bytes, hread⟩ := FileTree.isFile_iff.mp hfile
    obtain ⟨_, _, _, _, hdir⟩ := segments_of_read hread
    exact hdir
  · obtain ⟨rest, hsegs⟩ := Path.isPrefix_around path
    obtain ⟨dir, hwalk⟩ := (FileTree.isDirectory_iff t _).mp hdir
    rw [← hsegs, FileTree.walk_append] at hwalk
    obtain ⟨dir', hwalk', -⟩ := bind_eq_ok_iff.mp hwalk
    exact (FileTree.isDirectory_iff t _).mpr ⟨dir', hwalk'⟩

section Grown
variable {written : List (List String)} (hgrown : FileTree.Extends written t t')
include hgrown

/-- **Where the directory of a name is there, its source stays the same** when the tree grows,
unless a file that is looked at was written. -/
theorem source?_of_extends {name : String} (hdir : t.isDirectory (Path.around name) = true)
    (hfree : ∀ q ∈ lookedAt h name, ∀ p, t'.place? q = some p → p ∉ written) :
    source? h t' name = source? h t name := by
  obtain ⟨dir, hwalk⟩ := (FileTree.isDirectory_iff t _).mp hdir
  apply source?_congr
  intro q hq bytes
  refine ⟨fun hread => ?_, fun hread => hgrown.read hread (hfree q hq)⟩
  -- what leads to a file now led to the same place before
  obtain ⟨s, hs, hdots, hsegs, -⟩ := segments_of_read hread
  rw [around_of_mem_lookedAt hq] at hsegs
  have hbefore : t.place? q = some (dir ++ [s]) :=
    FileTree.place?_eq_some_iff.mpr ⟨_, s, dir, hsegs, hs, hdots, hwalk, rfl⟩
  exact (hgrown.read_iff hbefore (hfree q hq _ (hgrown.place? hbefore)) bytes).mp hread

theorem present_of_extends {path : String} (hpresent : t.present path = true)
    (hfree : ∀ p, t'.place? path = some p → p ∉ written) : t'.present path = true := by
  rw [FileTree.present, Bool.and_eq_true, Bool.or_eq_true] at hpresent ⊢
  refine ⟨hpresent.1, hpresent.2.imp (fun hfile => ?_) hgrown.isDirectory⟩
  obtain ⟨bytes, hread⟩ := FileTree.isFile_iff.mp hfile
  exact FileTree.isFile_iff.mpr ⟨bytes, hgrown.read hread hfree⟩

/-- A source in a fixed place is there after the tree grew exactly when it was before. -/
theorem source?_of_extends_fixed (ht : t.Closed) {name : String}
    (hnames : ∀ s ∈ Path.segments name, s ≠ "" ∧ Path.isDots s = false)
    (hfree : ∀ q ∈ lookedAt h name, ∀ p, t'.place? q = some p → p ∉ written) :
    source? h t' name = source? h t name := by
  apply source?_congr
  intro q hq
  refine hgrown.read_iff_of_names ht (fun s hs => ?_) (hfree q hq)
  rcases segments_of_mem_lookedAt hq with rfl | ⟨last, hlast, hdots, hsegs⟩
  · exact hnames s hs
  · rw [hsegs, List.mem_append, List.mem_singleton] at hs
    rcases hs with hs | rfl
    · exact hnames s ((Path.isPrefix_around name).subset hs)
    · exact ⟨hlast, hdots⟩

end Grown

/-! ### Layers -/

/-- **The layers in load order.** -/
theorem layers_eq_ok_iff {env : Environment} {named : Option String} {ls : List Layer} :
    layers h t env named = .ok ls ↔
      ∃ a b c u extra, optionalLayer h t "fwgen.toml" = .ok a ∧
        optionalLayer h t ".fwgen.toml" = .ok b ∧
        optionalLayer h t "config/fwgen.toml" = .ok c ∧ userLayer h t = .ok u ∧
        List.Forall₂ (fun name l => requiredLayer h t name = .ok l) named.toList extra ∧
        ls = [a, b, c, u] ++ extra ++ [(ofEnvironment env).arrange h.order] := by
  cases named with
  | none =>
    simp only [layers, places, List.mapM_cons, List.mapM_nil, bind_eq_ok_iff, pure, Except.pure,
      Except.ok.injEq, Option.toList_none, List.forall₂_nil_left_iff]
    constructor
    · rintro ⟨_, ⟨a, ha, _, ⟨b, hb, _, ⟨c, hc, _, rfl, rfl⟩, rfl⟩, rfl⟩, u, hu, _, rfl, rfl⟩
      exact ⟨a, b, c, u, [], ha, hb, hc, hu, rfl, rfl⟩
    · rintro ⟨a, b, c, u, _, ha, hb, hc, hu, rfl, rfl⟩
      exact ⟨_, ⟨a, ha, _, ⟨b, hb, _, ⟨c, hc, _, rfl, rfl⟩, rfl⟩, rfl⟩, u, hu, _, rfl, rfl⟩
  | some name =>
    simp only [layers, places, List.mapM_cons, List.mapM_nil, bind_eq_ok_iff, pure, Except.pure,
      Except.ok.injEq, Option.toList_some, List.forall₂_cons_left_iff, List.forall₂_nil_left_iff]
    constructor
    · rintro ⟨_, ⟨a, ha, _, ⟨b, hb, _, ⟨c, hc, _, rfl, rfl⟩, rfl⟩, rfl⟩, u, hu, e, he, _, rfl, rfl⟩
      exact ⟨a, b, c, u, [e], ha, hb, hc, hu, ⟨e, [], he, rfl, rfl⟩, rfl⟩
    · rintro ⟨a, b, c, u, _, ha, hb, hc, hu, ⟨e, _, he, rfl, rfl⟩, rfl⟩
      exact ⟨_, ⟨a, ha, _, ⟨b, hb, _, ⟨c, hc, _, rfl, rfl⟩, rfl⟩, rfl⟩, u, hu, e, he, _, rfl, rfl⟩

theorem optionalLayer_congr {name : String} (hsource : source? h t' name = source? h t name) :
    optionalLayer h t' name = optionalLayer h t name := by
  rw [optionalLayer, optionalLayer, hsource]

theorem optionalLayer_of_fileNamed?_none {name : String} (hnone : fileNamed? h t name = none) :
    optionalLayer h t name = .ok [] := by
  rw [optionalLayer, source?, hnone]

section Grown
variable {written : List (List String)} (hgrown : FileTree.Extends written t t')
include hgrown

/-- The user's file is the same layer of a tree that grew, unless something came into its place and
now there is a file to be found. -/
theorem userLayer_of_extends
    (hfree : ∀ user ∈ h.userFile, ∀ q ∈ lookedAt h user, ∀ p, t'.place? q = some p → p ∉ written)
    (huser : ∀ user ∈ h.userFile, t.present user = false → t'.present user = true →
      fileNamed? h t' user = none) :
    userLayer h t' = userLayer h t := by
  rw [userLayer, userLayer]
  cases hhost : h.userFile with
  | none => rfl
  | some user =>
    have hfree' := hfree user hhost
    by_cases hthere : t.present user = true
    · have hthere' := present_of_extends hgrown hthere (hfree' user List.mem_cons_self)
      have hsource := source?_of_extends hgrown (isDirectory_around_of_present hthere) hfree'
      simp only [if_pos hthere, if_pos hthere', optionalLayer_congr hsource]
    · by_cases hthere' : t'.present user = true
      · have hnone := huser user hhost (by simpa using hthere) hthere'
        simp only [if_neg hthere, if_pos hthere', optionalLayer_of_fileNamed?_none hnone]
      · simp only [if_neg hthere, if_neg hthere']

/-- A file that was named and found is found again. -/
theorem requiredLayer_of_extends {name : String} {layer : Layer}
    (hfree : ∀ q ∈ lookedAt h name, ∀ p, t'.place? q = some p → p ∉ written)
    (hlayer : requiredLayer h t name = .ok layer) : requiredLayer h t' name = .ok layer := by
  rw [requiredLayer] at hlayer ⊢
  cases hsource : source? h t name with
  | none => rw [hsource] at hlayer; cases hlayer
  | some source =>
    obtain ⟨file, hfile, hread⟩ := source?_eq_some_iff.mp hsource
    obtain ⟨_, _, _, _, hdir⟩ := segments_of_read hread
    rw [around_of_mem_lookedAt (mem_lookedAt_of_fileNamed? hfile)] at hdir
    rw [source?_of_extends hgrown hdir hfree, hlayer]

/-- **A tree that grew gives the same settings**, unless a file that is looked at was written, or
something came into the place of the user's file and now there is a file to be found. -/
theorem load_of_extends (ht : t.Closed) {env : Environment} {named : Option String} {s : Settings}
    (hfree : ∀ q ∈ consulted h named, ∀ p, t'.place? q = some p → p ∉ written)
    (huser : ∀ user ∈ h.userFile, t.present user = false → t'.present user = true →
      fileNamed? h t' user = none)
    (hload : load h t env named = .ok s) : load h t' env named = .ok s := by
  have hfree' : ∀ name ∈ places ++ h.userFile.toList ++ named.toList,
      ∀ q ∈ lookedAt h name, ∀ p, t'.place? q = some p → p ∉ written :=
    fun name hname q hq => hfree q (mem_consulted hname hq)
  have hfixed : ∀ name ∈ places, optionalLayer h t' name = optionalLayer h t name := by
    intro name hname
    have hnames : ∀ name ∈ places, ∀ s ∈ Path.segments name, s ≠ "" ∧ Path.isDots s = false := by
      decide +kernel
    exact optionalLayer_congr
      (source?_of_extends_fixed hgrown ht (hnames name hname) (hfree' name (by simp [hname])))
  have hlayers : ∀ ls, layers h t env named = .ok ls → layers h t' env named = .ok ls := by
    intro ls hls
    obtain ⟨a, b, c, u, extra, ha, hb, hc, hu, hextra, rfl⟩ := layers_eq_ok_iff.mp hls
    refine layers_eq_ok_iff.mpr ⟨a, b, c, u, extra, ?_, ?_, ?_, ?_, ?_, rfl⟩
    · rw [hfixed _ (by decide), ha]
    · rw [hfixed _ (by decide), hb]
    · rw [hfixed _ (by decide), hc]
    · rw [userLayer_of_extends hgrown (fun user hmem => hfree' user ?_) huser, hu]
      simp [show h.userFile = some user from hmem]
    · have hnamed := (List.forall₂_and_left named.toList extra).mpr ⟨fun _ hname => hname, hextra⟩
      refine hnamed.imp fun name e ⟨hname, he⟩ => ?_
      exact requiredLayer_of_extends hgrown (hfree' name (List.mem_append_right _ hname)) he
  rw [load] at hload ⊢
  cases hls : layers h t env named with
  | error e => rw [hls] at hload; cases hload
  | ok ls =>
    rw [hls] at hload
    rw [hlayers ls hls]
    exact hload

end Grown

/-- A host with a user's file and no reader but that for TOML. -/
def smallHost : Host := .listed (some "xdg/fwgen/fwgen.toml") fun _ _ => none

end Config

end FlatFile
