import FlatFile.Proofs.GeneratedFiles

/-!
# What a run may change

A run of the program changes nothing but the directories along its output path and its two files.
`Confined` says this of two trees, place by place: each place is as it was, or a directory was made
there and leading segments of the path lead to it, or one of the files was written there.

Confined changes follow each other (`Confined.trans`), so each step is looked at on its own: making
one directory (`confined_makeDirectory`), those around it (`confined_makeDirectories`), writing a
file (`confined_write`).  No step needs to end well.
-/

namespace FlatFile

namespace FileTree

variable {t t' u : FileTree} {segs segs' : List String} {files files' : List (String × ByteArray)}

/-! ### One place -/

/-- **What became of a place** when directories were made along `segs` and `files` were written. -/
inductive Fate (segs : List String) (files : List (String × ByteArray)) (t t' : FileTree)
    (p : List String) : Prop where
  | kept (same : t'.get? p = t.get? p)
  | made (free : t.get? p = none) (now : t'.get? p = some .directory) (lead : List String)
      (isLead : lead <+: segs) (leads : t'.walk [] lead = .ok p)
  | written (free : t.get? p ≠ some .directory) (path : String) (bytes : ByteArray)
      (mem : (path, bytes) ∈ files) (place : t'.place? path = some p)
      (now : t'.get? p = some (.file bytes))

/-- **Changes are confined** to directories along `segs` and to `files`. -/
def Confined (segs : List String) (files : List (String × ByteArray)) (t t' : FileTree) : Prop :=
  ∀ p, Fate segs files t t' p

namespace Confined

theorem refl (segs : List String) (files : List (String × ByteArray)) (t : FileTree) :
    Confined segs files t t :=
  fun _ => .kept rfl

/-- A tree with confined changes grew. -/
theorem grown (h : Confined segs files t t') :
    Extends (files.filterMap fun f => t'.place? f.1) t t' where
  directory := by
    intro p hp
    cases h p with
    | kept same => rw [same, hp]
    | made free => rw [hp] at free; cases free
    | written free => exact absurd hp free
  file := by
    intro p hp bytes
    cases h p with
    | kept same => rw [same]
    | made free now =>
      rw [free, now]
      exact iff_of_false nofun nofun
    | written _ path bytes' mem place =>
      exact absurd (List.mem_filterMap.mpr ⟨_, mem, place⟩) hp

/-- Confined changes follow each other. -/
theorem trans (h : Confined segs files t u) (h' : Confined segs files' u t') :
    Confined segs (files ++ files') t t' := by
  intro p
  have hgrown := h'.grown
  cases h' p with
  | kept same =>
    cases h p with
    | kept same' => exact .kept (same.trans same')
    | made free now lead isLead leads =>
      exact .made free (same.trans now) lead isLead (hgrown.walk leads)
    | written free path bytes mem place now =>
      exact .written free path bytes (List.mem_append_left _ mem) (hgrown.place? place)
        (same.trans now)
  | made free now lead isLead leads =>
    -- a place that is free in between was free before
    cases h p with
    | kept same => exact .made (same.symm.trans free) now lead isLead leads
    | made _ there => rw [free] at there; cases there
    | written _ _ _ _ _ there => rw [free] at there; cases there
  | written free path bytes mem place now =>
    refine .written (fun hdir => free ?_) path bytes (List.mem_append_right _ mem) place now
    exact h.grown.directory p hdir

/-- Changes are confined to more directories and more files as well. -/
theorem mono (h : Confined segs files t t') (hfiles : files ⊆ files')
    (hsegs : ∀ lead, lead <+: segs →
      ∃ lead', lead' <+: segs' ∧ ∀ (v : FileTree) p, v.walk p lead' = v.walk p lead) :
    Confined segs' files' t t' := by
  intro p
  cases h p with
  | kept same => exact .kept same
  | made free now lead isLead leads =>
    obtain ⟨lead', hlead', hwalk⟩ := hsegs lead isLead
    exact .made free now lead' hlead' ((hwalk t' []).trans leads)
  | written free path bytes mem place now => exact .written free path bytes (hfiles mem) place now

theorem mono_prefix (h : Confined segs files t t') (hsegs : segs <+: segs') :
    Confined segs' files t t' :=
  h.mono (List.Subset.refl files) fun lead hlead => ⟨lead, hlead.trans hsegs, fun _ _ => rfl⟩

theorem mono_files (h : Confined segs files t t') (hfiles : files ⊆ files') :
    Confined segs files' t t' :=
  h.mono hfiles fun lead hlead => ⟨lead, hlead, fun _ _ => rfl⟩

end Confined

/-! ### Making directories -/

/-- A directory that was made in one that is there is reached through it. -/
theorem walk_set_directory {outer p : List String} {s : String} (hs : s ≠ "")
    (hdots : Path.isDots s = false) (hw : t.walk [] outer = .ok p)
    (hfree : t.get? (p ++ [s]) = none) :
    (t.set (p ++ [s]) .directory).walk [] (outer ++ [s]) = .ok (p ++ [s]) := by
  have hgrown := extends_set_directory (by simp) hfree
  have hthere : (t.set (p ++ [s]) .directory).get? (p ++ [s]) = some .directory :=
    get?_set_self t (by simp) .directory
  rw [walk_append, hgrown.walk hw]
  change (t.set (p ++ [s]) .directory).walk p [s] = _
  rw [walk, enter_eq_ok_of_name hs hdots hthere]
  rfl

theorem confined_makeDirectory (t : FileTree) (segs : List String) :
    Confined segs [] t (t.makeDirectory segs).1 := by
  rcases makeDirectory_cases t segs with ⟨e, he⟩ | ⟨outer, s, p, hnamed, hdots, hw, hfree, hmade⟩
  · rw [he]
    exact Confined.refl segs [] t
  · rw [hmade]
    intro q
    by_cases hq : q = p ++ [s]
    · subst hq
      obtain ⟨slashes, hsegs, -⟩ := Path.dropSlashes_append segs
      have hlead : outer ++ [s] <+: segs := ⟨slashes, by rw [← hnamed, ← hsegs]⟩
      have hs := Path.ne_empty_of_dropSlashes hnamed
      exact .made hfree (get?_set_self t (by simp) .directory) _ hlead
        (walk_set_directory hs hdots hw hfree)
    · exact .kept (get?_set_of_ne t hq .directory)

theorem confined_settleDirectory (t : FileTree) (segs : List String) :
    Confined segs [] t (t.settleDirectory segs).1 := by
  have hmade := confined_makeDirectory t segs
  rw [settleDirectory]
  split
  · rename_i heq
    rw [heq] at hmade
    exact hmade
  · split <;> exact Confined.refl segs [] t

theorem confined_makeDirectories (t : FileTree) (components : List String) :
    Confined components.reverse [] t (t.makeDirectories components).1 := by
  induction components with
  | nil => exact Confined.refl [] [] t
  | cons c outer ih =>
    have houter : outer.reverse <+: (c :: outer).reverse := by
      rw [List.reverse_cons]
      exact List.prefix_append _ _
    rw [makeDirectories]
    split
    · split
      · rename_i hmade
        rw [hmade] at ih
        exact (ih.mono_prefix houter).trans (confined_settleDirectory _ _)
      · exact ih.mono_prefix houter
    · exact confined_settleDirectory t _

/-- Segments that are empty or a dot can be left out: what leads somewhere without them leads there
with those before its end. -/
theorem exists_lead_of_filter {lead segs : List String}
    (h : lead <+: segs.filter fun s => s ≠ "" ∧ s ≠ ".") :
    ∃ lead', lead' <+: segs ∧ ∀ (v : FileTree) p, v.walk p lead' = v.walk p lead := by
  induction segs generalizing lead with
  | nil => exact ⟨lead, h, fun _ _ => rfl⟩
  | cons s segs ih =>
    by_cases hs : s ≠ "" ∧ s ≠ "."
    · rw [List.filter_cons_of_pos (by simpa using hs)] at h
      cases lead with
      | nil => exact ⟨[], List.nil_prefix, fun _ _ => rfl⟩
      | cons s' lead =>
        obtain ⟨rfl, hlead⟩ := List.cons_prefix_cons.mp h
        obtain ⟨lead', hlead', hwalk⟩ := ih hlead
        refine ⟨s' :: lead', List.cons_prefix_cons.mpr ⟨rfl, hlead'⟩, fun v p => ?_⟩
        rw [walk, walk]
        cases v.enter p s' with
        | error e => rfl
        | ok q => exact hwalk v q
    · rw [List.filter_cons_of_neg (by simpa using hs)] at h
      obtain ⟨lead', hlead', hwalk⟩ := ih h
      refine ⟨s :: lead', List.cons_prefix_cons.mpr ⟨rfl, hlead'⟩, fun v p => ?_⟩
      have hstay : s = "" ∨ s = "." := by simpa [imp_iff_not_or, or_comm] using hs
      rw [walk, enter, if_pos hstay]
      exact hwalk v p

/-- The leading components of a path lead where leading segments of it do. -/
theorem exists_lead_of_components {path : String} {lead : List String}
    (h : lead <+: Path.components path) :
    ∃ lead', lead' <+: Path.segments path ∧
      ∀ (v : FileTree) p, v.walk p lead' = v.walk p lead := by
  rw [Path.components] at h
  cases hsegs : Path.segments path with
  | nil =>
    rw [hsegs] at h
    exact ⟨lead, h, fun _ _ => rfl⟩
  | cons s rest =>
    rw [hsegs] at h
    simp only [] at h
    by_cases hs : s = ""
    · rw [if_pos hs, List.nil_append] at h
      obtain ⟨lead', hlead', hwalk⟩ := exists_lead_of_filter h
      refine ⟨s :: lead', List.cons_prefix_cons.mpr ⟨rfl, hlead'⟩, fun v p => ?_⟩
      rw [walk, enter, if_pos (Or.inl hs)]
      exact hwalk v p
    · rw [if_neg hs, List.singleton_append] at h
      cases lead with
      | nil => exact ⟨[], List.nil_prefix, fun _ _ => rfl⟩
      | cons s' lead =>
        obtain ⟨rfl, hlead⟩ := List.cons_prefix_cons.mp h
        obtain ⟨lead', hlead', hwalk⟩ := exists_lead_of_filter hlead
        refine ⟨s' :: lead', List.cons_prefix_cons.mpr ⟨rfl, hlead'⟩, fun v p => ?_⟩
        rw [walk, walk]
        cases v.enter p s' with
        | error e => rfl
        | ok q => exact hwalk v q

/-- Making a directory with those around it changes nothing but what is along its path. -/
theorem confined_createDirectories (t : FileTree) (path : String) :
    Confined (Path.segments path) [] t (t.createDirectories path).1 := by
  rw [createDirectories]
  split
  · exact Confined.refl _ _ t
  · simp only []
    split
    · have haround : Confined (Path.segments path) [] t
          (t.makeDirectories (Path.components path).reverse.tail).1 := by
        refine (confined_makeDirectories t _).mono (List.Subset.refl []) fun lead hlead => ?_
        refine exists_lead_of_components (hlead.trans ?_)
        rw [List.tail_reverse, List.reverse_reverse]
        exact List.dropLast_prefix _
      split
      · rename_i hmade
        rw [hmade] at haround
        exact haround.trans (confined_settleDirectory _ _)
      · exact haround
    · exact confined_settleDirectory t _

/-! ### Writing files -/

/-- A file is written, or it is not and nothing changed. -/
theorem write_cases (t : FileTree) (path : String) (bytes : ByteArray) :
    (∃ e, t.write path bytes = (t, .error e)) ∨
      ∃ t', t.write path bytes = (t', .ok ()) := by
  rw [write]
  split
  · exact Or.inl ⟨_, rfl⟩
  · simp only []
    split
    · split <;> exact Or.inl ⟨_, rfl⟩
    · split
      · exact Or.inl ⟨_, rfl⟩
      · exact Or.inl ⟨_, rfl⟩
      · split
        · exact Or.inl ⟨_, rfl⟩
        · exact Or.inr ⟨_, rfl⟩

theorem confined_write (segs : List String) (t : FileTree) (path : String) (bytes : ByteArray) :
    Confined segs [(path, bytes)] t (t.write path bytes).1 := by
  rcases write_cases t path bytes with ⟨e, he⟩ | ⟨t', ht'⟩
  · rw [he]
    exact Confined.refl segs _ t
  · rw [ht']
    obtain ⟨p, hp, hdir, rfl⟩ := write_eq_ok_iff.mp ht'
    intro q
    by_cases hq : q = p
    · subst hq
      exact .written hdir path bytes (List.mem_singleton_self _)
        ((extends_set_file hdir bytes).place? hp) (get?_set_self t (ne_nil_of_place? hp) _)
    · exact .kept (get?_set_of_ne t hq _)

end FileTree

open FileTree

variable {t : FileTree}

/-- The two files as they are written into a directory. -/
def Artifacts.filesIn (a : Artifacts) (dir : String) : List (String × ByteArray) :=
  a.toList.map fun file => (file.pathIn dir, file.contents.toUTF8)

theorem Artifact.write_tree (a : Artifact) (dir : String) (t : FileTree) :
    (a.write dir t).result.1 = (t.write (a.pathIn dir) a.contents.toUTF8).1 := by
  rw [write, pathIn]
  rcases t.write (Path.join dir a.fileName) a.contents.toUTF8 with ⟨u, e | ⟨⟨⟩⟩⟩ <;> rfl

theorem Artifact.confined_write (segs : List String) (a : Artifact) (dir : String) (t : FileTree) :
    Confined segs [(a.pathIn dir, a.contents.toUTF8)] t (a.write dir t).result.1 := by
  rw [a.write_tree]
  exact FileTree.confined_write segs t _ _

/-- **Writing both files changes nothing but the directories along the path and the two files**,
also where it fails half way. -/
theorem Artifacts.confined_write (a : Artifacts) (dir : String) (t : FileTree) :
    Confined (Path.segments dir) (a.filesIn dir) t (a.write dir t).result.1 := by
  have hdirs := confined_createDirectories t dir
  rw [write]
  split
  · rename_i made e hmade
    rw [hmade] at hdirs
    exact hdirs.mono_files (List.nil_subset _)
  · rename_i made hmade
    rw [hmade] at hdirs
    have hrecord := hdirs.trans (a.record.confined_write (Path.segments dir) dir made)
    rw [Traced.andThen_result]
    split
    · rename_i half e hhalf
      rw [hhalf] at hrecord
      exact hrecord.mono_files fun f hf => List.mem_append_left _ hf
    · rename_i half recordPath hhalf
      rw [hhalf] at hrecord
      have hparser := hrecord.trans (a.parser.confined_write (Path.segments dir) dir half)
      rw [Traced.map_result]
      split <;> rename_i hfull <;> rw [hfull] at hparser <;> exact hparser

namespace CommandLine

/-! ### Runs -/

/-- **A run that stops before it writes**: its settings cannot be loaded, its schema does not
compile, or its files cannot be rendered. -/
inductive StopsEarly (h : Config.Host) (t : FileTree) (env : Config.Environment)
    (i : Invocation) : Prop where
  | settings {e : Config.LoadError} (failed : i.settings h t env = .error e)
  | schema {s : Settings} {f : Failure} (loaded : i.settings h t env = .ok s)
      (failed : (Compilation.ofFile s.reservedWords t i.action.schema).result = .error f)
  | files {s : Settings} {c : Compilation} {f : Failure} (loaded : i.settings h t env = .ok s)
      (compiled : (Compilation.ofFile s.reservedWords t i.action.schema).result = .ok c)
      (failed : artifacts s t c.layout = .error f)

variable {h : Config.Host} {env : Config.Environment}

theorem run_of_ofArgs {args : List String} {i : Invocation} (hi : Invocation.ofArgs args = .ok i) :
    run h t env args = i.run h t env := by
  rw [run, hi]

/-- Arguments that are no invocation, whether they ask for help or do not fit, change nothing. -/
theorem run_tree_of_refusal {args : List String} {r : Refusal}
    (hr : Invocation.ofArgs args = .error r) : (run h t env args).tree = t := by
  rw [run, hr]
  cases r <;> rfl

/-- The tree after a run is that of its action; a run that gets to no action leaves the tree. -/
theorem run_tree_cases (h : Config.Host) (t : FileTree) (env : Config.Environment)
    (i : Invocation) :
    (i.run h t env).tree = t ∨
      ∃ s c, i.settings h t env = .ok s ∧
        (Compilation.ofFile s.reservedWords t i.action.schema).result = .ok c ∧
        (i.run h t env).tree = (i.action.perform s t c.layout).tree := by
  rw [Invocation.run]
  cases hs : i.settings h t env with
  | error e => exact Or.inl rfl
  | ok s =>
    simp only []
    cases hc : (Compilation.ofFile s.reservedWords t i.action.schema).result with
    | error f => exact Or.inl rfl
    | ok c => exact Or.inr ⟨s, c, rfl, hc, rfl⟩

theorem check_tree (s : Settings) (t : FileTree) (output : Option String) (l : Layout) :
    (check s t output l).tree = t := by
  rw [check]
  split
  · rfl
  · split <;> rfl

theorem preview_tree (t : FileTree) (data : String) (l : Layout) :
    (preview t data l).tree = t := by
  rw [preview]
  split <;> rfl

/-- Only `generate` changes the tree. -/
theorem perform_tree {action : Action} (h : ∀ schema output, action ≠ .generate schema output)
    (s : Settings) (t : FileTree) (l : Layout) : (action.perform s t l).tree = t := by
  cases action with
  | generate schema output => exact absurd rfl (h schema output)
  | check _ output => exact check_tree s t output l
  | columns => rfl
  | preview _ data => exact preview_tree t data l

theorem generate_tree {s : Settings} {l : Layout} {a : Artifacts} (h : artifacts s t l = .ok a)
    (output : Option String) :
    (generate s t output l).tree = (a.write (outputDir s output) t).result.1 := by
  simp only [generate, h]
  rcases (a.write (outputDir s output) t).result with ⟨after, e | paths⟩ <;> rfl

theorem run_tree_of_stopsEarly {i : Invocation} {schema : String} {output : Option String}
    (haction : i.action = .generate schema output) (hearly : StopsEarly h t env i) :
    (i.run h t env).tree = t := by
  rw [Invocation.run]
  cases hearly with
  | settings failed => rw [failed]
  | schema loaded failed => simp only [loaded, failed]
  | files loaded compiled failed =>
    rw [haction] at compiled ⊢
    simp only [loaded, compiled, Action.perform, generate, failed]

theorem wants_of_not_stopsEarly {i : Invocation} {schema : String} {output : Option String}
    (haction : i.action = .generate schema output) (hlate : ¬ StopsEarly h t env i) :
    ∃ s c a, Wants h t env i.config i.language schema s c a := by
  have hschema : i.action.schema = schema := by rw [haction]; rfl
  cases hs : i.settings h t env with
  | error e => exact absurd (.settings hs) hlate
  | ok s =>
    cases hc : (Compilation.ofFile s.reservedWords t i.action.schema).result with
    | error f => exact absurd (.schema hs hc) hlate
    | ok c =>
      cases ha : artifacts s t c.layout with
      | error f => exact absurd (.files hs hc ha) hlate
      | ok a => exact ⟨s, c, a, fun _ => hs, by rw [← hschema, hc], ha⟩

/-- A run that gets to writing leaves the tree that writing leaves. -/
theorem Wants.run_tree {i : Invocation} {schema : String} {output : Option String} {s : Settings}
    {c : Compilation} {a : Artifacts} (hw : Wants h t env i.config i.language schema s c a)
    (haction : i.action = .generate schema output) :
    (i.run h t env).tree = (a.write (outputDir s output) t).result.1 := by
  have hs : i.settings h t env = .ok s := hw.settings i.action
  rw [Invocation.run, hs]
  simp only [haction, Action.schema, hw.schema, Action.perform, generate_tree hw.files]

/-- **The effects of a run are confined.**  Whatever the host, the tree, the variables and the
arguments, the tree is exactly as it was after arguments that do not fit or ask for help, after
`check`, `columns` and `preview`, and after a `generate` that stops before it writes.  Every other
`generate`, also one that fails while it writes, changes nothing but directories it makes along the
output path and its two files, which hold exactly the generated bytes. -/
theorem run_confined (h : Config.Host) (t : FileTree) (env : Config.Environment)
    (args : List String) :
    (∀ r, Invocation.ofArgs args = .error r → (run h t env args).tree = t) ∧
    ∀ i, Invocation.ofArgs args = .ok i →
      ((∀ schema output, i.action ≠ .generate schema output) → (run h t env args).tree = t) ∧
      ∀ schema output, i.action = .generate schema output →
        (StopsEarly h t env i → (run h t env args).tree = t) ∧
        (¬ StopsEarly h t env i → ∃ s c a, Wants h t env i.config i.language schema s c a ∧
          Confined (Path.segments (outputDir s output)) (a.filesIn (outputDir s output)) t
            (run h t env args).tree) := by
  refine ⟨fun r => run_tree_of_refusal, fun i hi => ?_⟩
  rw [run_of_ofArgs hi]
  refine ⟨fun hother => ?_, fun schema output haction => ⟨?_, fun hlate => ?_⟩⟩
  · rcases run_tree_cases h t env i with hsame | ⟨s, c, -, -, hperform⟩
    · exact hsame
    · rw [hperform, perform_tree hother]
  · exact run_tree_of_stopsEarly haction
  · obtain ⟨s, c, a, hwants⟩ := wants_of_not_stopsEarly haction hlate
    refine ⟨s, c, a, hwants, ?_⟩
    rw [hwants.run_tree haction]
    exact a.confined_write (outputDir s output) t

/-- The small project with a directory where the parser file goes. -/
def blockedProject : FileTree := smallProject.plant "out/FixedLengthParser.kt" .directory

/-- A run that makes a directory on its way and writes the first file, and then cannot write the
second one. -/
theorem run_confined_half_way :
    let o := run Config.smallHost blockedProject smallProjectVariables
      ["generate", "schema", "-o", "out/new/.."]
    (o.exitCode = 1 ∧ o.tree.changedFrom blockedProject =
      [(["out", "new"], .directory), (["out", "Record.kt"], .file "Record\n".toUTF8)]) ∧
    ∃ s c a, Wants Config.smallHost blockedProject smallProjectVariables none none "schema" s c a ∧
      Confined (Path.segments "out/new/..") (a.filesIn "out/new/..") blockedProject o.tree := by
  have hargs : Invocation.ofArgs ["generate", "schema", "-o", "out/new/.."] =
      .ok ⟨none, none, .generate "schema" (some "out/new/..")⟩ := by decide +kernel
  have hlate : ¬ StopsEarly Config.smallHost blockedProject smallProjectVariables
      ⟨none, none, .generate "schema" (some "out/new/..")⟩ := by
    have hsettings : Invocation.settings ⟨none, none, .generate "schema" (some "out/new/..")⟩
        Config.smallHost blockedProject smallProjectVariables = .ok smallProjectSettings := by
      decide +kernel
    have hschema : (Compilation.ofFile smallProjectSettings.reservedWords blockedProject
        "schema").result = .ok ⟨⟨[⟨"a", 1, 2⟩]⟩, ⟨[]⟩⟩ := by decide +kernel
    have hfiles : artifacts smallProjectSettings blockedProject ⟨[⟨"a", 1, 2⟩]⟩ =
        .ok ⟨⟨.record, "Record.kt", "Record\n"⟩, ⟨.parser, "FixedLengthParser.kt", "p\n"⟩⟩ := by
      decide +kernel
    intro hearly
    cases hearly with
    | settings failed => rw [hsettings] at failed; cases failed
    | schema loaded failed =>
      obtain rfl := Except.ok.inj (hsettings.symm.trans loaded)
      cases hschema.symm.trans failed
    | files loaded compiled failed =>
      obtain rfl := Except.ok.inj (hsettings.symm.trans loaded)
      obtain rfl := Except.ok.inj (hschema.symm.trans compiled)
      cases hfiles.symm.trans failed
  refine ⟨by decide +kernel, ?_⟩
  exact (((run_confined Config.smallHost blockedProject smallProjectVariables _).2 _ hargs).2 _ _
    rfl).2 hlate

end CommandLine

end FlatFile
