import FlatFile.CommandLine.Run
import FlatFile.Proofs.SettingSources

/-!
# Generated files

What `generate` leaves behind, seen by the runs after it.  A run that ends well leaves both files
with their contents (`Artifacts.left_of_write`), and where the files are like that there is nothing
to do: none has drifted (`Left.drifts`), and writing them again gives the same tree (`Left.write`).

What a run writes comes from the settings, the schema and the templates.  They read the same in the
tree that the run left (`Config.load_of_extends`, `ofFile_of_extends`, `artifacts_of_extends`), as
long as it wrote none of their files, so that the next run wants the same two files.
-/

namespace FlatFile

variable {t t' after : FileTree}

/-! ### Two files on disk -/

namespace Artifact

/-- The path of a generated file in a directory. -/
def pathIn (dir : String) (a : Artifact) : String := Path.join dir a.fileName

theorem write_eq_ok_iff {a : Artifact} {dir path : String} :
    (a.write dir t).result = (t', .ok path) ↔
      t.write (a.pathIn dir) a.contents.toUTF8 = (t', .ok ()) ∧ path = a.pathIn dir := by
  rw [write, pathIn]
  rcases t.write (Path.join dir a.fileName) a.contents.toUTF8 with ⟨u, e | ⟨⟨⟩⟩⟩
  · simp
  · simp [eq_comm]

theorem drift?_of_read {a : Artifact} {dir : String}
    (h : t.read (a.pathIn dir) = .ok a.contents.toUTF8) : a.drift? dir t = .ok none := by
  rw [pathIn] at h
  simp only [drift?, FileTree.checksum?, h]
  exact if_pos rfl

end Artifact

namespace Artifacts

variable {a : Artifacts} {dir : String}

/-- Writing both files ends well exactly when each of its three steps does. -/
theorem write_eq_ok_iff {paths : List String} :
    (a.write dir t).result = (after, .ok paths) ↔
      ∃ made half, t.createDirectories dir = (made, .ok ()) ∧
        made.write (a.record.pathIn dir) a.record.contents.toUTF8 = (half, .ok ()) ∧
        half.write (a.parser.pathIn dir) a.parser.contents.toUTF8 = (after, .ok ()) ∧
        paths = [a.record.pathIn dir, a.parser.pathIn dir] := by
  constructor
  · intro h
    rw [write] at h
    split at h
    · simp at h
    · rename_i made hmade
      rw [Traced.andThen_result] at h
      split at h
      · simp at h
      · rename_i half recordPath hrecord
        obtain ⟨hhalf, rfl⟩ := Artifact.write_eq_ok_iff.mp hrecord
        rw [Traced.map_result] at h
        split at h
        · simp at h
        · rename_i full parserPath hparser
          obtain ⟨hfull, rfl⟩ := Artifact.write_eq_ok_iff.mp hparser
          obtain ⟨rfl, hpaths⟩ := Prod.mk.inj h
          exact ⟨made, half, hmade, hhalf, hfull, (Except.ok.inj hpaths).symm⟩
  · rintro ⟨made, half, hmade, hhalf, hfull, rfl⟩
    have hrecord := Artifact.write_eq_ok_iff.mpr ⟨hhalf, rfl⟩
    have hparser := Artifact.write_eq_ok_iff.mpr ⟨hfull, rfl⟩
    rw [write, hmade]
    simp only [Traced.andThen_result, hrecord, Traced.map_result, hparser]

/-- **The two files as they should be**, in a directory that is there. -/
structure Left (a : Artifacts) (dir : String) (t : FileTree) : Prop where
  directory : dir ≠ "" → t.isDirectory (Path.segments dir) = true
  record : t.read (a.record.pathIn dir) = .ok a.record.contents.toUTF8
  parser : t.read (a.parser.pathIn dir) = .ok a.parser.contents.toUTF8

/-- **Writing two files leaves both**, unless one took the place of the other, and changes nothing
else. -/
theorem left_of_write {paths : List String} (h : (a.write dir t).result = (after, .ok paths))
    (hapart : after.place? (a.record.pathIn dir) ≠ after.place? (a.parser.pathIn dir)) :
    a.Left dir after ∧ ∃ r p, after.place? (a.record.pathIn dir) = some r ∧
      after.place? (a.parser.pathIn dir) = some p ∧ FileTree.Extends [r, p] t after := by
  obtain ⟨made, half, hmade, hhalf, hafter, -⟩ := write_eq_ok_iff.mp h
  obtain ⟨hrecord, r, hr, hgrown⟩ := FileTree.read_of_write hhalf
  obtain ⟨hparser, p, hp, hgrown'⟩ := FileTree.read_of_write hafter
  have hr' := hgrown'.place? hr
  have hdirs : FileTree.Extends [] t made := by
    have := FileTree.extends_createDirectories t dir
    rwa [hmade] at this
  refine ⟨⟨?_, ?_, hparser⟩, r, p, hr', hp, (hdirs.trans hgrown).trans hgrown'⟩
  · intro hdir
    have hthere := FileTree.isDirectory_of_createDirectories hdir hmade
    exact (hgrown.trans hgrown').isDirectory hthere
  · refine hgrown'.read hrecord fun q hq hqp => hapart ?_
    rw [hq, hp, List.mem_singleton.mp hqp]

/-- **Nothing has drifted.** -/
theorem Left.drifts (h : a.Left dir t) : a.drifts dir t = .ok [] := by
  rw [Artifacts.drifts, Artifact.drift?_of_read h.record, Artifact.drift?_of_read h.parser]
  rfl

/-- **Writing again changes nothing.** -/
theorem Left.write (h : a.Left dir t) :
    (a.write dir t).result = (t, .ok [a.record.pathIn dir, a.parser.pathIn dir]) :=
  write_eq_ok_iff.mpr ⟨t, t, FileTree.createDirectories_of_isDirectory h.directory,
    FileTree.write_of_read h.record, FileTree.write_of_read h.parser, rfl⟩

end Artifacts

/-! ### The same two files again -/

section Grown
variable {written : List (List String)} (h : FileTree.Extends written t t')
include h

theorem FileTree.Extends.readText {path s : String} (hr : t.readText path = .ok s)
    (hfree : ∀ p, t'.place? path = some p → p ∉ written) : t'.readText path = .ok s := by
  rw [FileTree.readText_eq_ok_iff] at hr ⊢
  exact h.read hr hfree

/-- A schema that was compiled compiles the same. -/
theorem Compilation.ofFile_of_extends {reserved : Schema.ReservedWords} {path : String}
    {c : Compilation} (hfree : ∀ p, t'.place? path = some p → p ∉ written)
    (hc : (ofFile reserved t path).result = .ok c) : (ofFile reserved t' path).result = .ok c := by
  cases hr : t.read path with
  | error e =>
    have hlines : t.readLines path = .error e := by rw [FileTree.readLines, hr]
    rw [ofFile_error hlines] at hc
    cases hc
  | ok bytes =>
    have hlines : t'.readLines path = t.readLines path := by
      rw [FileTree.readLines, FileTree.readLines, hr, h.read hr hfree]
    cases hl : t.readLines path with
    | error e =>
      rw [ofFile_error hl] at hc
      cases hc
    | ok raws =>
      rw [ofFile_result hl] at hc
      rw [ofFile_result (hlines.trans hl), hc]

theorem Templates.load_of_extends {dir : String} {kind : ArtifactKind} {template : Template}
    (hfree : ∀ p, t'.place? (Path.join dir kind.templateFile) = some p → p ∉ written)
    (ht : load t dir kind = .ok template) : load t' dir kind = .ok template := by
  rw [load] at ht ⊢
  cases hr : t.readText (Path.join dir kind.templateFile) with
  | error e => rw [hr] at ht; cases ht
  | ok source =>
    rw [hr] at ht
    rw [h.readText hr hfree]
    exact ht

/-- Templates that were loaded load the same. -/
theorem Templates.ofProfile_of_extends {profile : Profile} {templates : Templates}
    (hfree : ∀ dir ∈ profile.templateDir, ∀ kind : ArtifactKind, ∀ p,
      t'.place? (Path.join dir kind.templateFile) = some p → p ∉ written)
    (ht : ofProfile t profile = .ok templates) : ofProfile t' profile = .ok templates := by
  rw [ofProfile] at ht ⊢
  cases hdir : profile.templateDir with
  | none =>
    rw [hdir] at ht
    exact ht
  | some dir =>
    rw [hdir] at ht
    simp only [loadDir] at ht ⊢
    cases hrecord : load t dir .record with
    | error e => rw [hrecord] at ht; cases ht
    | ok record =>
      cases hparser : load t dir .parser with
      | error e => rw [hrecord, hparser] at ht; cases ht
      | ok parser =>
        rw [hrecord, hparser] at ht
        rw [load_of_extends h (hfree dir hdir .record) hrecord,
          load_of_extends h (hfree dir hdir .parser) hparser, ht]

end Grown

namespace CommandLine

/-- The files that the settings, the schema and the templates of a run are looked for in. -/
def consulted (h : Config.Host) (config : Option String) (schema : String) (s : Settings) :
    List String :=
  Config.consulted h config ++ [schema] ++
    s.render.templateDir.toList.flatMap fun dir =>
      [ArtifactKind.record, ArtifactKind.parser].map fun kind => Path.join dir kind.templateFile

/-- **The generated files have places of their own**, apart from each other and from all files in
`sources`. -/
def OwnPlaces (s : Settings) (output : Option String) (sources : List String) (t : FileTree) :
    Prop :=
  let record := t.place? (Path.join (outputDir s output) s.recordFile)
  let parser := t.place? (Path.join (outputDir s output) s.parserFile)
  record ≠ parser ∧ ∀ q ∈ sources, t.place? q ≠ record ∧ t.place? q ≠ parser

instance decOwnPlaces (s : Settings) (output : Option String) (sources : List String)
    (t : FileTree) : Decidable (OwnPlaces s output sources t) :=
  inferInstanceAs (Decidable (_ ∧ ∀ q ∈ sources, _ ∧ _))

/-- **The user's settings come into view**: nothing was in the place of the user's file, now there
is something, and a file is found, that one or one with the extension of a registered format
added. -/
def Uncovers (h : Config.Host) (t t' : FileTree) : Prop :=
  ∃ user ∈ h.userFile, t.present user = false ∧ t'.present user = true ∧
    (Config.fileNamed? h t' user).isSome = true

instance decUncovers (h : Config.Host) (t t' : FileTree) : Decidable (Uncovers h t t') :=
  inferInstanceAs (Decidable (∃ user ∈ h.userFile, _ ∧ _ ∧ _))

theorem fileName_of_artifacts {s : Settings} {l : Layout} {a : Artifacts}
    (h : artifacts s t l = .ok a) :
    a.record.fileName = s.recordFile ∧ a.parser.fileName = s.parserFile := by
  rw [artifacts] at h
  cases hemit : Artifacts.emit t s.render l with
  | error f => rw [hemit] at h; cases h
  | ok b =>
    rw [hemit] at h
    obtain rfl := Except.ok.inj h
    exact ⟨rfl, rfl⟩

/-- Files that were rendered render the same. -/
theorem artifacts_of_extends {written : List (List String)} (h : FileTree.Extends written t t')
    {s : Settings} {l : Layout} {a : Artifacts}
    (hfree : ∀ dir ∈ s.render.templateDir, ∀ kind : ArtifactKind, ∀ p,
      t'.place? (Path.join dir kind.templateFile) = some p → p ∉ written)
    (ha : artifacts s t l = .ok a) : artifacts s t' l = .ok a := by
  rw [artifacts, Artifacts.emit] at ha ⊢
  cases ht : Templates.ofProfile t s.render with
  | error f => rw [ht] at ha; cases ha
  | ok templates =>
    rw [ht] at ha
    rw [Templates.ofProfile_of_extends h hfree ht]
    exact ha

section Runs
variable {h h' : Config.Host} {env : Config.Environment} {config : Option String}
  {language : Option Language} {schema : String} {output : Option String} {s : Settings}
  {c : Compilation} {a : Artifacts}

/-- **What a run wants in its directory**: the settings are loaded, the schema is compiled and the
files are rendered. -/
structure Wants (h : Config.Host) (t : FileTree) (env : Config.Environment)
    (config : Option String) (language : Option Language) (schema : String) (s : Settings)
    (c : Compilation) (a : Artifacts) : Prop where
  settings : ∀ action, (⟨config, language, action⟩ : Invocation).settings h t env = .ok s
  schema : (Compilation.ofFile s.reservedWords t schema).result = .ok c
  files : artifacts s t c.layout = .ok a

theorem Wants.run_generate (hw : Wants h t env config language schema s c a) {paths : List String}
    (hwrite : (a.write (outputDir s output) t).result = (after, .ok paths)) :
    (Invocation.run ⟨config, language, .generate schema output⟩ h t env).exitCode = 0 ∧
      (Invocation.run ⟨config, language, .generate schema output⟩ h t env).tree = after := by
  rw [Invocation.run, hw.settings]
  simp only [Action.schema, hw.schema, Action.perform, generate, hw.files, hwrite, and_self]

theorem Wants.run_check (hw : Wants h t env config language schema s c a)
    (hd : a.drifts (outputDir s output) t = .ok []) :
    (Invocation.run ⟨config, language, .check schema output⟩ h t env).exitCode = 0 ∧
      (Invocation.run ⟨config, language, .check schema output⟩ h t env).stdout =
        "✅ generated files are up to date\n" := by
  rw [Invocation.run, hw.settings]
  simp only [Action.schema, hw.schema, Action.perform, check, hw.files, hd, and_self]

/-- A run that ends well wrote the files it wants. -/
theorem wants_of_run {o : Outcome}
    (hs : Invocation.settings ⟨config, language, .generate schema output⟩ h t env = .ok s)
    (hrun : Invocation.run ⟨config, language, .generate schema output⟩ h t env = o)
    (hexit : o.exitCode = 0) :
    ∃ c a paths, Wants h t env config language schema s c a ∧
      (a.write (outputDir s output) t).result = (o.tree, .ok paths) := by
  have hsettings : ∀ action, (⟨config, language, action⟩ : Invocation).settings h t env = .ok s :=
    fun _ => hs
  subst hrun
  rw [Invocation.run, hs] at hexit ⊢
  cases hc : (Compilation.ofFile s.reservedWords t schema).result with
  | error f =>
    simp only [Action.schema, hc] at hexit
    cases hexit
  | ok c =>
    cases ha : artifacts s t c.layout with
    | error f =>
      simp only [Action.schema, hc, Action.perform, generate, ha] at hexit
      cases hexit
    | ok a =>
      simp only [Action.schema, hc, Action.perform, generate, ha] at hexit ⊢
      rcases hw : (a.write (outputDir s output) t).result with ⟨after, e | paths⟩
      · rw [hw] at hexit
        cases hexit
      · exact ⟨c, a, paths, ⟨hsettings, hc, ha⟩, hw⟩

/-- A run wants the same on a host that loads the same settings. -/
theorem Wants.on_host (hw : Wants h t env config language schema s c a)
    (hs : ∀ action, (⟨config, language, action⟩ : Invocation).settings h' t env = .ok s) :
    Wants h' t env config language schema s c a :=
  ⟨hs, hw.schema, hw.files⟩

/-- A tree that grew makes a run want the same, unless a file was written that the run reads. -/
theorem Wants.of_extends {written : List (List String)} (hgrown : FileTree.Extends written t t')
    (ht : t.Closed) (hw : Wants h t env config language schema s c a)
    (hfree : ∀ q ∈ consulted h config schema s, ∀ p, t'.place? q = some p → p ∉ written)
    (huser : ¬ Uncovers h t t') : Wants h t' env config language schema s c a where
  settings := by
    intro action
    have hs := hw.settings action
    rw [Invocation.settings] at hs ⊢
    cases hload : Config.load h t env config with
    | error e => rw [hload] at hs; cases hs
    | ok loaded =>
      rw [hload] at hs
      rw [Config.load_of_extends hgrown ht ?_ ?_ hload, hs]
      · exact fun q hq => hfree q (by simp [consulted, hq])
      · intro user hmem hbefore hafter
        by_contra hfound
        exact huser ⟨user, hmem, hbefore, hafter, Option.isSome_iff_ne_none.mpr hfound⟩
  schema := Compilation.ofFile_of_extends hgrown
    (hfree schema (by simp [consulted])) hw.schema
  files := by
    refine artifacts_of_extends hgrown ?_ hw.files
    intro dir hdir kind
    have hdir' : s.render.templateDir = some dir := hdir
    apply hfree
    cases kind <;> simp [consulted, hdir']

/-- **`generate` and then `check` finds the files up to date, and `generate` again changes
nothing**: whatever the tree, the variables and the arguments, when the run ended well, the two
files it wrote have places of their own, and it did not bring the user's settings into view.  The
later runs may go through formats and tables in another order, on a host `h'`, as long as this would
have loaded the same settings in the first place. -/
theorem generate_then_check {o : Outcome} (ht : t.Closed)
    (hs : Invocation.settings ⟨config, language, .generate schema output⟩ h t env = .ok s)
    (hs' : Invocation.settings ⟨config, language, .generate schema output⟩ h' t env = .ok s)
    (hrun : Invocation.run ⟨config, language, .generate schema output⟩ h t env = o)
    (hexit : o.exitCode = 0)
    (hown : OwnPlaces s output (consulted h' config schema s) o.tree)
    (huser : ¬ Uncovers h' t o.tree) :
    let checked := Invocation.run ⟨config, language, .check schema output⟩ h' o.tree env
    let again := Invocation.run ⟨config, language, .generate schema output⟩ h' o.tree env
    (checked.exitCode = 0 ∧ checked.stdout = "✅ generated files are up to date\n") ∧
      again.exitCode = 0 ∧ again.tree = o.tree := by
  obtain ⟨c, a, paths, hwants, hwrite⟩ := wants_of_run hs hrun hexit
  obtain ⟨hrecord, hparser⟩ := fileName_of_artifacts hwants.files
  rw [OwnPlaces, ← hrecord, ← hparser] at hown
  obtain ⟨hapart, hsources⟩ := hown
  obtain ⟨hleft, r, p, hr, hp, hgrown⟩ := Artifacts.left_of_write hwrite hapart
  have hfree : ∀ q ∈ consulted h' config schema s, ∀ place, o.tree.place? q = some place →
      place ∉ [r, p] := by
    intro q hq place hplace hmem
    obtain ⟨hnr, hnp⟩ := hsources q hq
    rcases List.mem_pair.mp hmem with rfl | rfl
    · exact hnr (hplace.trans hr.symm)
    · exact hnp (hplace.trans hp.symm)
  have hwants' := (hwants.on_host fun _ => hs').of_extends hgrown ht hfree huser
  exact ⟨hwants'.run_check hleft.drifts, hwants'.run_generate hleft.write⟩

end Runs

/-- A schema with short templates. -/
def smallProject : FileTree :=
  ⟨[(["schema"], .file "a 1 2\n".toUTF8), (["tpl"], .directory),
    (["tpl", "record.tmpl"], .file "\x7b\x7brecord_name\x7d\x7d\n".toUTF8),
    (["tpl", "parser.tmpl"], .file "p\n".toUTF8)]⟩

/-- The variable that names the directory of the templates. -/
def smallProjectVariables : Config.Environment := [("FWGEN__RENDER__TEMPLATE_DIR", "tpl")]

/-- The settings of the small project. -/
def smallProjectSettings : Settings := { render := { templateDir := some "tpl" } }

/-- A run that has to make two directories. -/
theorem generate_then_check_nested_directory :
    let o := Invocation.run ⟨none, none, .generate "schema" (some "out/gen")⟩ Config.smallHost
      smallProject smallProjectVariables
    let checked := Invocation.run ⟨none, none, .check "schema" (some "out/gen")⟩ Config.smallHost
      o.tree smallProjectVariables
    let again := Invocation.run ⟨none, none, .generate "schema" (some "out/gen")⟩ Config.smallHost
      o.tree smallProjectVariables
    (o.exitCode = 0 ∧ o.tree = ⟨smallProject.entries ++ [(["out"], .directory),
        (["out", "gen"], .directory), (["out", "gen", "Record.kt"], .file "Record\n".toUTF8),
        (["out", "gen", "FixedLengthParser.kt"], .file "p\n".toUTF8)]⟩) ∧
      (checked.exitCode = 0 ∧ checked.stdout = "✅ generated files are up to date\n") ∧
      again.exitCode = 0 ∧ again.tree = o.tree := by
  intro o
  have hs : Invocation.settings ⟨none, none, .generate "schema" (some "out/gen")⟩ Config.smallHost
      smallProject smallProjectVariables = .ok smallProjectSettings := by decide +kernel
  have ho : o.exitCode = 0 ∧ o.tree = ⟨smallProject.entries ++ [(["out"], .directory),
      (["out", "gen"], .directory), (["out", "gen", "Record.kt"], .file "Record\n".toUTF8),
      (["out", "gen", "FixedLengthParser.kt"], .file "p\n".toUTF8)]⟩ := by decide +kernel
  refine ⟨ho, generate_then_check (by decide +kernel) hs hs rfl ho.1 ?_ ?_⟩
  · rw [ho.2]
    decide +kernel
  · rw [ho.2]
    decide +kernel

/-- Without the last premise it fails: the directory that the run makes lets the next run find
settings it did not look at before, and here they cannot be read. -/
theorem check_fails_where_settings_come_into_view :
    let t := smallProject.plant "xdg/fwgen/fwgen.toml.toml" (.file "!".toUTF8)
    let o := Invocation.run ⟨none, none, .generate "schema" (some "xdg/fwgen/fwgen.toml")⟩
      Config.smallHost t smallProjectVariables
    t.Closed ∧ o.exitCode = 0 ∧
      Config.load Config.smallHost t smallProjectVariables none = .ok smallProjectSettings ∧
      OwnPlaces smallProjectSettings (some "xdg/fwgen/fwgen.toml")
        (consulted Config.smallHost none "schema" smallProjectSettings) o.tree ∧
      (Invocation.run ⟨none, none, .check "schema" (some "xdg/fwgen/fwgen.toml")⟩
        Config.smallHost o.tree smallProjectVariables).exitCode = 1 := by
  decide +kernel

end CommandLine

end FlatFile
