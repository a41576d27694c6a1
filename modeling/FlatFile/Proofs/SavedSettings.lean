import FlatFile.Proofs.Layering
import FlatFile.Proofs.WrittenDocument

/-!
# Saved settings load again

Settings that are saved load as they were (`load_saved`).  A setting is saved as a text or a list of
texts (`Setting.saved`), unless it need not be given and is not.  The document reads back as a layer
that binds each saved setting once, to what was saved, and no other (`bindings_savedLayer`).  Since
there is one binding of a setting at most, the order in which the host goes through the layer does
not matter (`saves_arrange`).  Laid over itself the layer is the same again, so it does not matter
either whether the file is also found in one of the fixed places.
-/

namespace FlatFile.Config

open Toml (Written Section Line Bare)

/-! ### What is saved -/

/-- How a setting is saved; `none` when it is left out. -/
def Setting.saved (s : Settings) : Setting → Option Written
  | language => some (.text s.render.language.name)
  | package => some (.text s.render.package)
  | recordName => some (.text s.render.recordName)
  | parserName => some (.text s.render.parserName)
  | templateDir => s.render.templateDir.map .text
  | extraReserved => some (.texts s.naming.extraReserved)
  | reservedOverride => s.naming.reservedOverride.map .texts
  | dir => some (.text s.output.dir)
  | recordFile => s.output.recordFile.map .text
  | parserFile => s.output.parserFile.map .text

/-- The names and values of settings that are saved in a section. -/
def savedFields (s : Settings) (xs : List Setting) : List (String × Written) :=
  xs.filterMap fun x => (x.saved s).map fun w => (x.key, w)

/-- The sections, each with its settings in the order in which they are saved. -/
def outline : List (String × List Setting) :=
  [("render", [.language, .package, .recordName, .parserName, .templateDir]),
    ("naming", [.extraReserved, .reservedOverride]),
    ("output", [.dir, .recordFile, .parserFile])]

/-- The sections of saved settings. -/
def savedSections (s : Settings) : List Section :=
  outline.map fun p => (p.1, savedFields s p.2)

/-! ### The saved document -/

theorem lines_savedFields (s : Settings) (xs : List Setting) :
    ((savedFields s xs).map fun f => Line.assign f.1 f.2).flatMap Line.chars
      = xs.flatMap fun x => (x.saved s).toList.flatMap fun w => (Line.assign x.key w).chars := by
  induction xs with
  | nil => rfl
  | cons x xs ih =>
    rw [List.flatMap_cons, ← ih, savedFields, List.filterMap_cons]
    cases x.saved s with
    | none => rfl
    | some w => simp [savedFields]

theorem toList_line_quote (name value : String) :
    (Toml.line name (Toml.quote value)).toList = (Line.assign name (.text value)).chars := by
  simp [Toml.line, Line.chars, Line.body, Written.chars]

theorem toList_line_quoteList (name : String) (items : List String) :
    (Toml.line name (Toml.quoteList items)).toList = (Line.assign name (.texts items)).chars := by
  simp [Toml.line, Line.chars, Line.body, Written.chars]

theorem toList_optionalLine (name : String) (o : Option String) :
    (Settings.optionalLine name o).toList
      = o.toList.flatMap fun v => (Toml.line name v).toList := by
  cases o with
  | none => rfl
  | some v => simp [Settings.optionalLine]

/-- The saved document is the lines of its sections. -/
theorem toList_save (s : Settings) :
    '\n' :: s.save.toList = ((savedSections s).flatMap Section.lines).flatMap Line.chars := by
  have hsection : ∀ name xs, (Section.lines (name, savedFields s xs)).flatMap Line.chars
      = (Line.header name).chars ++
        xs.flatMap fun x => (x.saved s).toList.flatMap fun w => (Line.assign x.key w).chars := by
    intro name xs
    rw [Section.lines, List.flatMap_cons, lines_savedFields]
  have hrender : (Line.header "render").chars = '\n' :: "[render]\n".toList := by decide +kernel
  have hnaming : "\n[naming]\n".toList = (Line.header "naming").chars := by decide +kernel
  have houtput : "\n[output]\n".toList = (Line.header "output").chars := by decide +kernel
  simp only [savedSections, outline, List.map_cons, List.map_nil, List.flatMap_cons,
    List.flatMap_nil, List.flatMap_append, hsection, hrender]
  unfold Settings.save
  simp only [String.toList_append, toList_line_quote, toList_line_quoteList,
    toList_optionalLine, hnaming, houtput, Setting.saved, Setting.key, Option.toList_some,
    Option.toList_map, List.flatMap_map, List.flatMap_cons, List.flatMap_nil, List.append_nil,
    List.append_assoc, List.cons_append]

/-- The names are bare, and no name stands twice. -/
theorem bare_key (x : Setting) : Bare x.key := by
  cases x <;> decide +kernel

theorem savedFields_keys (s : Settings) (xs : List Setting) :
    ((savedFields s xs).map Prod.fst).Sublist (xs.map Setting.key) := by
  induction xs with
  | nil => exact List.Sublist.refl _
  | cons x xs ih =>
    rw [savedFields, List.filterMap_cons, List.map_cons]
    cases x.saved s with
    | none => exact ih.cons _
    | some w => exact ih.cons_cons _

theorem mem_savedFields {s : Settings} {xs : List Setting} {f : String × Written}
    (h : f ∈ savedFields s xs) : ∃ x : Setting, f.1 = x.key := by
  obtain ⟨x, -, hx⟩ := List.mem_filterMap.mp h
  obtain ⟨w, -, rfl⟩ := Option.map_eq_some_iff.mp hx
  exact ⟨x, rfl⟩

/-- **A saved document reads back as the tables of its sections.** -/
theorem parse?_save (s : Settings) :
    Toml.parse? s.save = some ((savedSections s).map fun sec => (sec.1, .table sec.fields)) := by
  refine Toml.parse?_document (toList_save s) ?_ ?_ ?_
  · intro sec hsec
    obtain ⟨p, hp, rfl⟩ := List.mem_map.mp hsec
    have hname : ∀ p ∈ outline, Bare p.1 := by decide +kernel
    refine ⟨hname p hp, fun f hf => ?_⟩
    obtain ⟨x, hx⟩ := mem_savedFields hf
    rw [hx]
    exact bare_key x
  · have hnames : (savedSections s).map Prod.fst = outline.map Prod.fst := by
      rw [savedSections, List.map_map]
      rfl
    rw [hnames]
    decide
  · intro sec hsec
    obtain ⟨p, hp, rfl⟩ := List.mem_map.mp hsec
    have hkeys : ∀ p ∈ outline, (p.2.map Setting.key).Nodup := by decide
    exact (savedFields_keys s p.2).nodup (hkeys p hp)

/-! ### The saved layer -/

/-- A written value as a configuration has it. -/
def writtenValue : Written → Value
  | .text s => .text s
  | .texts items => .list (items.map fun s => some (.text s))

theorem ofToml_written (w : Written) : Value.ofToml w.toml = writtenValue w := by
  cases w with
  | text s => rfl
  | texts items =>
    rw [Written.toml, Value.ofToml, writtenValue]
    congr 1
    induction items with
    | nil => rfl
    | cons s items ih => rw [List.map_cons, Value.ofItems, ih, Value.ofToml, List.map_cons]

theorem ofFields_eq_map (fs : List (String × Toml)) :
    Value.ofFields fs = fs.map fun f => (f.1, Value.ofToml f.2) := by
  induction fs with
  | nil => rfl
  | cons f fs ih => rw [Value.ofFields, ih, List.map_cons]

/-- **The layer of saved settings.** -/
def savedLayer (s : Settings) : Layer :=
  outline.map fun p => (p.1, .table ((savedFields s p.2).map fun f => (f.1, writtenValue f.2)))

theorem ofDocument?_save (s : Settings) : ofDocument? s.save = some (savedLayer s) := by
  rw [ofDocument?, parse?_save]
  simp only [Option.map_some, ofFields_eq_map, savedSections, savedLayer, List.map_map,
    Function.comp_def, Value.ofToml, Section.fields, ofToml_written]

theorem stepsOf_outline : ∀ p ∈ outline, stepsOf (Text.lower p.1) = [.name p.1] := by
  decide +kernel

/-- An entry for a section that is a table binds the section to a table. -/
theorem bindsTable_outline {p : String × List Setting} (hp : p ∈ outline)
    (fs : List (String × Value)) (sec : String) : BindsTable sec (p.1, .table fs) := by
  intro steps hsteps
  rw [stepsOf_outline p hp] at hsteps
  obtain ⟨-, rfl⟩ := List.cons.inj hsteps
  obtain ⟨gs, hgs, -⟩ := overlayFields_table fs []
  rw [place, overlay, Option.getD_none, hgs]
  rfl

theorem lower_key (x : Setting) : Text.lower x.key = x.key := by
  cases x <;> decide +kernel

theorem key_injective : Function.Injective Setting.key := by
  intro x y h
  cases x <;> cases y <;> first | rfl | simp [Setting.key] at h

/-- The bindings of a setting by a section that was saved. -/
theorem sectionBindings_savedFields (s : Settings) (x : Setting) (xs : List Setting) :
    sectionBindings x.key [] (.table ((savedFields s xs).map fun f => (f.1, writtenValue f.2)))
      = (xs.filter (· = x)).flatMap fun y =>
        (y.saved s).toList.map fun w => ⟨[], writtenValue w⟩ := by
  induction xs with
  | nil => rfl
  | cons y xs ih =>
    rw [sectionBindings] at ih ⊢
    rw [savedFields] at ih ⊢
    by_cases hy : y = x
    · subst hy
      rw [List.filter_cons_of_pos (by simp), List.flatMap_cons, ← ih]
      cases hs : y.saved s with
      | none => simp [hs]
      | some w => simp [hs, lower_key]
    · have hkey : y.key ≠ x.key := fun h => hy (key_injective h)
      rw [List.filter_cons_of_neg (by simpa using hy), ← ih]
      cases hs : y.saved s with
      | none => simp [hs]
      | some w => simp [hs, lower_key, hkey]

/-- **A saved layer binds each saved setting once, and no other.** -/
theorem bindings_savedLayer (s : Settings) (x : Setting) :
    x.bindings (savedLayer s)
      = (x.saved s).toList.map fun w => ⟨[], writtenValue w⟩ := by
  have hentry : ∀ p ∈ outline, entryBindings x.sectionName x.key
      (p.1, .table ((savedFields s p.2).map fun f => (f.1, writtenValue f.2)))
        = (if p.1 = x.sectionName then p.2.filter (· = x) else []).flatMap fun y =>
          (y.saved s).toList.map fun w => ⟨[], writtenValue w⟩ := by
    intro p hp
    rw [entryBindings, stepsOf_outline p hp]
    by_cases hsec : p.1 = x.sectionName
    · simp only [if_pos hsec]
      exact sectionBindings_savedFields s x p.2
    · simp only [if_neg hsec]
      rfl
  have hown : outline.flatMap (fun p => if p.1 = x.sectionName then p.2.filter (· = x) else [])
      = [x] := by
    cases x <;> decide
  rw [Setting.bindings, bindings, savedLayer, List.flatMap_map, List.flatMap_congr hentry,
    ← List.flatMap_assoc, hown, List.flatMap_singleton]

/-! ### In any order -/

section Order
variable {order : List (String × Value) → List (String × Value)}

theorem arrangeFields_eq_map (fs : List (String × Value)) :
    Value.arrangeFields order fs = fs.map fun f => (f.1, f.2.arrange order) := by
  induction fs with
  | nil => rfl
  | cons f fs ih => rw [Value.arrangeFields, ih, List.map_cons]

theorem arrange_writtenValue (w : Written) : (writtenValue w).arrange order = writtenValue w := by
  cases w <;> rfl

/-- The layer of saved settings, arranged within its sections. -/
theorem arrangeFields_savedLayer (s : Settings) :
    Value.arrangeFields order (savedLayer s) = outline.map fun p =>
      (p.1, .table (order ((savedFields s p.2).map fun f => (f.1, writtenValue f.2)))) := by
  rw [arrangeFields_eq_map, savedLayer, List.map_map]
  refine List.map_congr_left fun p _ => ?_
  simp only [Function.comp_def, Value.arrange, arrangeFields_eq_map, List.map_map,
    arrange_writtenValue]

/-- **A layer that saves settings**: it binds each saved setting once and no other, and the sections
to tables. -/
structure Saves (s : Settings) (l : Layer) : Prop where
  bindings : ∀ x : Setting,
    x.bindings l = (x.saved s).toList.map fun w => ⟨[], writtenValue w⟩
  tables : ∀ e ∈ l, ∀ sec, BindsTable sec e

/-- **The saved layer saves its settings in any order.** -/
theorem saves_arrange (horder : ∀ fields, (order fields).Perm fields) (s : Settings) :
    Saves s ((savedLayer s).arrange order) := by
  rw [Layer.arrange, arrangeFields_savedLayer]
  constructor
  · intro x
    have hentry : ∀ p ∈ outline,
        (entryBindings x.sectionName x.key
          (p.1, .table (order ((savedFields s p.2).map fun f => (f.1, writtenValue f.2))))).Perm
        (entryBindings x.sectionName x.key
          (p.1, .table ((savedFields s p.2).map fun f => (f.1, writtenValue f.2)))) := by
      intro p hp
      simp only [entryBindings, stepsOf_outline p hp]
      split
      · exact (horder _).filterMap _
      · exact .refl _
    have hperm : (x.bindings (order (outline.map fun p =>
        (p.1, .table (order ((savedFields s p.2).map fun f => (f.1, writtenValue f.2))))))).Perm
        (x.bindings (savedLayer s)) := by
      refine ((horder _).flatMap_right _).trans ?_
      rw [Setting.bindings, Config.bindings, savedLayer, List.flatMap_map, List.flatMap_map]
      exact List.Perm.flatMap_left outline hentry
    rw [bindings_savedLayer] at hperm
    cases hsaved : x.saved s with
    | none =>
      rw [hsaved] at hperm
      exact hperm.eq_nil
    | some w =>
      rw [hsaved] at hperm
      exact List.perm_singleton.mp hperm
  · intro e he sec
    obtain ⟨p, hp, rfl⟩ := List.mem_map.mp ((horder _).mem_iff.mp he)
    exact bindsTable_outline hp _ sec

end Order

/-- What is saved of a setting is read as the setting. -/
theorem given?_saved (s : Settings) (x : Setting) :
    x.given? ((x.saved s).map writtenValue) = some (x.get s) := by
  have htexts : ∀ items : List String,
      texts? (.list (items.map fun s => some (.text s))) = some items := by
    intro items
    rw [texts?, Text.mapM_eq_some_iff, List.forall₂_map_left_iff, List.forall₂_same]
    exact fun _ _ => rfl
  cases x with
  | language =>
    have hlanguage : ∀ l : Language, languageNamed? l.name = some l := by
      intro l
      cases l <;> decide +kernel
    exact hlanguage s.render.language
  | package | recordName | parserName | dir => rfl
  | templateDir => cases h : s.render.templateDir <;> simp [Setting.saved, Setting.get, h] <;> rfl
  | recordFile => cases h : s.output.recordFile <;> simp [Setting.saved, Setting.get, h] <;> rfl
  | parserFile => cases h : s.output.parserFile <;> simp [Setting.saved, Setting.get, h] <;> rfl
  | extraReserved => exact htexts s.naming.extraReserved
  | reservedOverride =>
    cases h : s.naming.reservedOverride with
    | none =>
      simp only [Setting.saved, Setting.get, h]
      rfl
    | some items =>
      simp only [Setting.saved, Setting.get, h]
      exact congrArg (Option.map some) (htexts items)

/-! ### Layers of saved settings -/

section Layers
variable {s : Settings} {saved : Layer} (hsaves : Saves s saved) {below : List Layer}
  (hbelow : ∀ l ∈ below, l = [] ∨ l = saved)
include hsaves hbelow

/-- Whatever layers of the same saved settings lie below them, they load. -/
theorem given?_effective_saved (x : Setting) :
    x.given? (x.effective (below ++ [saved] ++ [[]])) = some (x.get s) := by
  have hbindings := hsaves.bindings x
  rw [← given?_saved s x]
  congr 1
  rw [List.append_assoc, List.singleton_append]
  cases hsaved : x.saved s with
  | none =>
    rw [hsaved] at hbindings
    refine effective_of_unbound fun l hl => ?_
    rw [List.mem_append, List.mem_pair] at hl
    rcases hl with hl | rfl | rfl
    · rcases hbelow l hl with rfl | rfl
      · rfl
      · exact hbindings
    · exact hbindings
    · rfl
  | some w =>
    rw [hsaved] at hbindings
    refine effective_of_last hbindings ?_ fun l hl => ?_
    · cases w <;> simp [writtenValue]
    · rw [List.mem_singleton.mp hl]
      rfl

/-- Layers of saved settings bind the sections to tables. -/
theorem bindTables_saved : BindTables (below ++ [saved] ++ [[]]) := by
  intro l hl e he sec _
  rw [List.append_assoc, List.mem_append, List.singleton_append, List.mem_pair] at hl
  have hl' : l = [] ∨ l = saved := hl.elim (hbelow l) Or.symm
  rcases hl' with rfl | rfl
  · cases he
  · exact hsaves.tables e he sec

end Layers

/-! ### The format of a saved file -/

section Tree
variable {h : Host} {t : FileTree} {path : String} {s : Settings}

/-- A name has one of the registered extensions at most. -/
theorem eq_toml_of_hasExtension {f : Format} (hf : f ∈ h.formats)
    (hext : Path.hasExtension f.extension path = true)
    (htoml : Path.hasExtension "toml" path = true) : f = .toml := by
  have hends : ∀ e ∈ extensions, ('.' :: e.toList) <:+ ('.' :: "toml".toList) ∨
      ('.' :: "toml".toList) <:+ ('.' :: e.toList) → e = "toml" := by decide +kernel
  simp only [Path.hasExtension, Bool.and_eq_true, List.isSuffixOf_iff_suffix] at hext htoml
  have hname : f.extension = Format.toml.extension :=
    hends f.extension (h.registered.mem_iff.mp (List.mem_map_of_mem hf))
      (List.suffix_or_suffix_of_suffix hext.1 htoml.1)
  have hdistinct : (h.formats.map Format.extension).Nodup :=
    h.registered.nodup_iff.mpr (by decide)
  exact List.inj_on_of_nodup_map hdistinct hf h.reads_toml hname

/-- The file of a name has the extension of its format. -/
theorem hasExtension_of_fileNamed? {name file : String} {f : Format}
    (hfile : fileNamed? h t name = some (file, f)) :
    f ∈ h.formats ∧ Path.hasExtension f.extension file = true := by
  obtain ⟨hf, ⟨rfl, hends⟩ | hext⟩ := fileNamed?_cases hfile
  · exact ⟨hf, hends⟩
  · exact ⟨hf, Path.hasExtension_of_withExtension? (slash_not_mem_extension hf) hext⟩

/-- Paths to one place have the same extensions. -/
theorem hasExtension_of_place? {q : String} {p : List String} (hq : t.place? q = some p)
    (hpath : t.place? path = some p) (ext : String) :
    Path.hasExtension ext q = Path.hasExtension ext path := by
  have hlast : ∀ q, t.place? q = some p → some (Path.lastSegment q) = p.getLast? := by
    intro q hq
    obtain ⟨outer, s, dir, hsegs, -, -, -, rfl⟩ := FileTree.place?_eq_some_iff.mp hq
    rw [Path.lastSegment, hsegs, List.getLast?_append, List.getLast?_append]
    rfl
  have hsame := Option.some.inj ((hlast q hq).trans (hlast path hpath).symm)
  rw [Path.hasExtension, Path.hasExtension, hsame]

/-! ### Loading what was saved -/

theorem ofSource_saved (h : Host) (s : Settings) :
    ofSource h (s.save, .toml) = .ok ((savedLayer s).arrange h.order) := by
  simp only [ofSource, Format.toml, ofDocument?_save]

section Saved
variable (hread : t.read path = .ok s.save.toUTF8) (hext : Path.hasExtension "toml" path = true)
include hread hext

/-- A source that can only be the saved file gives nothing or the saved layer. -/
theorem optionalLayer_of_only {name : String}
    (honly : ∀ q ∈ lookedAt h name, t.isFile q = true → t.place? q = t.place? path) :
    optionalLayer h t name = .ok [] ∨
      optionalLayer h t name = .ok ((savedLayer s).arrange h.order) := by
  rw [optionalLayer]
  rcases hs : source? h t name with _ | ⟨text, f⟩
  · exact Or.inl rfl
  · right
    obtain ⟨file, hfile, hbytes⟩ := source?_eq_some_iff.mp hs
    obtain ⟨place, hplace, hentry⟩ := FileTree.read_eq_ok_iff.mp hread
    have hsame : t.place? file = some place := by
      rw [honly file (mem_lookedAt_of_fileNamed? hfile) (FileTree.isFile_iff.mpr ⟨_, hbytes⟩),
        hplace]
    have htext : text = s.save := by
      have hread' : t.read file = .ok s.save.toUTF8 :=
        FileTree.read_eq_ok_iff.mpr ⟨place, hsame, hentry⟩
      have hbytes := Except.ok.inj (hbytes.symm.trans hread')
      rwa [String.toUTF8_eq_toByteArray, String.toUTF8_eq_toByteArray,
        String.toByteArray_inj] at hbytes
    obtain ⟨hf, hfext⟩ := hasExtension_of_fileNamed? hfile
    rw [hasExtension_of_place? hsame hplace] at hfext
    rw [htext, eq_toml_of_hasExtension hf hfext hext]
    exact ofSource_saved h s

/-- The file that was saved gives the saved layer. -/
theorem requiredLayer_saved :
    requiredLayer h t path = .ok ((savedLayer s).arrange h.order) := by
  have hfound : ∃ f, h.formats.find? (fun f => Path.hasExtension f.extension path) = some f := by
    rw [← Option.isSome_iff_exists, List.find?_isSome]
    exact ⟨.toml, h.reads_toml, hext⟩
  obtain ⟨f, hf⟩ := hfound
  have hend := List.find?_some hf
  have hfile : fileNamed? h t path = some (path, .toml) := by
    rw [fileNamed?, if_pos (FileTree.isFile_iff.mpr ⟨_, hread⟩), hf,
      eq_toml_of_hasExtension (List.mem_of_find?_eq_some hf) hend hext]
    rfl
  have hsource : source? h t path = some (s.save, .toml) :=
    source?_eq_some_iff.mpr ⟨path, hfile, hread⟩
  rw [requiredLayer, hsource]
  exact ofSource_saved h s

end Saved

/-- Variables of other names set nothing. -/
theorem ofEnvironment_eq_nil {env : Environment}
    (henv : ∀ v ∈ env, variableStart.isPrefixOf (Text.lower v.1).toList = false) :
    ofEnvironment env = [] := by
  have hnone : env.filterMap (fun p => ofVariable? p.1 p.2) = [] := by
    rw [List.filterMap_eq_nil_iff]
    intro v hv
    rw [ofVariable?]
    simp only [henv v hv, Bool.false_eq_true, if_false]
  rw [ofEnvironment, hnone]
  rfl

/-- Where no other file configures anything, all layers below the saved one are empty or the same:
the file may itself be in one of the fixed places. -/
theorem layers_saved {env : Environment} (hread : t.read path = .ok s.save.toUTF8)
    (hext : Path.hasExtension "toml" path = true)
    (honly : ∀ q ∈ consulted h none, t.isFile q = true → t.place? q = t.place? path)
    (henv : ∀ v ∈ env, variableStart.isPrefixOf (Text.lower v.1).toList = false) :
    ∃ below, layers h t env (some path) =
        .ok (below ++ [(savedLayer s).arrange h.order] ++ [[]]) ∧
      ∀ l ∈ below, l = [] ∨ l = (savedLayer s).arrange h.order := by
  have hfixed : ∀ name ∈ places ++ h.userFile.toList, ∃ l, optionalLayer h t name = .ok l ∧
      (l = [] ∨ l = (savedLayer s).arrange h.order) := by
    intro name hname
    have hmem : name ∈ places ++ h.userFile.toList ++ (none : Option String).toList := by
      simpa using hname
    rcases optionalLayer_of_only hread hext fun q hq => honly q (mem_consulted hmem hq) with hl | hl
    · exact ⟨_, hl, Or.inl rfl⟩
    · exact ⟨_, hl, Or.inr rfl⟩
  obtain ⟨a, ha, ha'⟩ := hfixed "fwgen.toml" (by simp [places])
  obtain ⟨b, hb, hb'⟩ := hfixed ".fwgen.toml" (by simp [places])
  obtain ⟨c, hc, hc'⟩ := hfixed "config/fwgen.toml" (by simp [places])
  obtain ⟨u, hu, hu'⟩ : ∃ u, userLayer h t = .ok u ∧
      (u = [] ∨ u = (savedLayer s).arrange h.order) := by
    rw [userLayer]
    cases huser : h.userFile with
    | none => exact ⟨[], rfl, Or.inl rfl⟩
    | some user =>
      simp only []
      split
      · exact hfixed user (by simp [huser])
      · exact ⟨[], rfl, Or.inl rfl⟩
  refine ⟨[a, b, c, u], layers_eq_ok_iff.mpr ?_, by simp [ha', hb', hc', hu']⟩
  refine ⟨a, b, c, u, [_], ha, hb, hc, hu, .cons (requiredLayer_saved hread hext) .nil, ?_⟩
  have hquiet : (ofEnvironment env).arrange h.order = [] := by
    rw [ofEnvironment_eq_nil henv]
    exact (h.order_perm []).eq_nil
  rw [hquiet]

end Tree

/-- **Settings that are saved load as they were**: any settings, saved to a file whose name ends in
`.toml`, where no other file configures anything and no variable does. -/
theorem load_saved {h : Host} {t t' : FileTree} {path : String} {s : Settings} {env : Environment}
    (hwrite : t.write path s.save.toUTF8 = (t', .ok ()))
    (hext : Path.hasExtension "toml" path = true)
    (honly : ∀ q ∈ consulted h none, t'.isFile q = true → t'.place? q = t'.place? path)
    (henv : ∀ v ∈ env, variableStart.isPrefixOf (Text.lower v.1).toList = false) :
    load h t' env (some path) = .ok s := by
  obtain ⟨hread, -⟩ := FileTree.read_of_write hwrite
  obtain ⟨below, hlayers, hbelow⟩ := layers_saved hread hext honly henv
  have hsaves := saves_arrange h.order_perm s
  exact (load_eq_ok_iff hlayers (bindTables_saved hsaves hbelow)).mpr
    (given?_effective_saved hsaves hbelow)

/-- Texts that need escapes or a long form, saved to a file that is also in a fixed place. -/
theorem load_saved_hard_texts :
    let s : Settings :=
      { render := { language := .rust, package := "'\\", recordName := "\"'\n" }
        naming := { extraReserved := ["\x00", "\"\"\"'"], reservedOverride := some [] }
        output := { recordFile := some "" } }
    let t := (FileTree.write ⟨[]⟩ "fwgen.toml" s.save.toUTF8).1
    load smallHost t [("PATH", "x")] (some "fwgen.toml") = .ok s := by
  intro s t
  have hwrite : FileTree.write ⟨[]⟩ "fwgen.toml" s.save.toUTF8 = (t, .ok ()) :=
    Prod.ext rfl (by decide +kernel)
  refine load_saved hwrite ?_ ?_ ?_
  all_goals decide +kernel

end FlatFile.Config
