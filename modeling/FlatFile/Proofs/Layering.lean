import FlatFile.Proofs.SettingSources

/-!
# Layered settings

Which source decides a setting.  A layer binds a setting by a key that leads to it or into it, or by
a table for its section that has its name (`bindings`).  Laying the layers over each other carries
out the bindings of each setting in order and touches no other setting (`field_configuration`), so
what a configuration shows for a setting comes from the setting's own bindings alone (`effective`).

A binding of a whole setting to anything but a table replaces what was there, so the last source
that binds a setting so, and by no other key, decides it (`effective_of_last`).  A table is laid
over what was there, and what a key that leads into a setting binds is put into it; so what is left
may also come from the sources before (`effective_on_earlier`).

In which order a source carries its own bindings out is up to the host.  A source that binds no key
twice (`BindOnce`) has one binding at most of a whole setting.

Settings are then read one by one (`settings?_eq_some_iff`): ten independent readings, each with its
own default.
-/

namespace FlatFile.Config

open Toml (setField lookup_setField_self lookup_setField_of_ne)

/-! ### Bindings -/

/-- The names of the sections. -/
def sections : List String := ["render", "naming", "output"]

/-- What is put at a setting, or further into it. -/
structure Binding where
  /-- The steps from the setting on. -/
  steps : List Step
  value : Value

/-- Carries a binding out on the value that a setting has. -/
def Binding.apply (target : Option Value) (b : Binding) : Option Value :=
  some (place b.steps b.value target)

/-- The bindings of a name in a section, by a value that is put at the section or further into
it. -/
def sectionBindings (key : String) : List Step → Value → List Binding
  | [], .table fields =>
    fields.filterMap fun f => if Text.lower f.1 = key then some ⟨[], f.2⟩ else none
  | .name n :: steps, v => if n = key then [⟨steps, v⟩] else []
  | _, _ => []

/-- The bindings of a name in a section by one entry of a layer. -/
def entryBindings (sec key : String) (e : String × Value) : List Binding :=
  match stepsOf (Text.lower e.1) with
  | .name n :: steps => if n = sec then sectionBindings key steps e.2 else []
  | _ => []

/-- **The bindings of a name in a section by a layer.** -/
def bindings (sec key : String) (l : Layer) : List Binding := l.flatMap (entryBindings sec key)

/-- **The value that the bindings of all layers leave**, each carried out on top of those before. -/
def effective (sec key : String) (ls : List Layer) : Option Value :=
  (ls.flatMap (bindings sec key)).foldl Binding.apply none

/-- Whether a value is a table. -/
def Value.isTable : Value → Bool
  | table _ => true
  | _ => false

theorem Value.isTable_iff {v : Value} : v.isTable = true ↔ ∃ fs, v = .table fs := by
  cases v <;> simp [isTable]

/-- An entry binds a section, if it does so at all, to a table. -/
def BindsTable (sec : String) (e : String × Value) : Prop :=
  ∀ steps, stepsOf (Text.lower e.1) = .name sec :: steps → (place steps e.2 none).isTable = true

instance decBindsTable (sec : String) (e : String × Value) : Decidable (BindsTable sec e) :=
  match h : stepsOf (Text.lower e.1) with
  | .name n :: steps =>
    decidable_of_iff (n = sec → (place steps e.2 none).isTable = true) (by
      simp only [BindsTable, h, List.cons.injEq, Step.name.injEq]
      exact ⟨fun ht _ hs => hs.2 ▸ ht hs.1, fun ht hn => ht steps ⟨hn, rfl⟩⟩)
  | [] | .index _ :: _ => .isTrue (by simp [BindsTable, h])

/-- **The sections of all layers are bound to tables only.** -/
def BindTables (ls : List Layer) : Prop := ∀ l ∈ ls, ∀ e ∈ l, ∀ sec ∈ sections, BindsTable sec e

instance decBindTables (ls : List Layer) : Decidable (BindTables ls) :=
  inferInstanceAs (Decidable (∀ l ∈ ls, ∀ e ∈ l, ∀ sec ∈ sections, BindsTable sec e))

/-- The value of a name in a section of a configuration. -/
def field (sec key : String) (root : Value) : Option Value :=
  (root.fields.lookup sec).bind fun s => s.fields.lookup key

/-- A name that no layer binds has no value. -/
theorem effective_of_unbound {sec key : String} {ls : List Layer}
    (h : ∀ l ∈ ls, bindings sec key l = []) : effective sec key ls = none := by
  rw [effective, List.flatMap_eq_nil_iff.mpr h]
  rfl

/-- The last source that binds a setting does so on top of what the sources before it leave. -/
theorem effective_on_earlier {sec key : String} (before : List Layer) (l : Layer)
    {after : List Layer} (hafter : ∀ m ∈ after, bindings sec key m = []) :
    effective sec key (before ++ l :: after)
      = (bindings sec key l).foldl Binding.apply (effective sec key before) := by
  rw [effective, List.flatMap_append, List.flatMap_cons, List.flatMap_eq_nil_iff.mpr hafter,
    List.append_nil, List.foldl_append, effective]

/-- **The last source that binds a whole setting, to no table, decides it.** -/
theorem effective_of_last {sec key : String} {before after : List Layer} {l : Layer} {v : Value}
    (hl : bindings sec key l = [⟨[], v⟩]) (hv : ∀ fs, v ≠ .table fs)
    (hafter : ∀ m ∈ after, bindings sec key m = []) :
    effective sec key (before ++ l :: after) = some v := by
  rw [effective_on_earlier before l hafter, hl]
  cases v with
  | table fs => exact absurd rfl (hv fs)
  | _ => rfl

/-- Of bindings of a whole setting by different keys there is one at most. -/
theorem eq_singleton_of_whole {bs : List Binding} {b : Binding} (hb : b ∈ bs)
    (hwhole : ∀ b ∈ bs, b.steps = []) (honce : (bs.map Binding.steps).Nodup) : bs = [b] := by
  have hsteps : bs.map Binding.steps = List.replicate bs.length [] := by
    rw [List.eq_replicate_iff]
    refine ⟨List.length_map _, fun steps hsteps => ?_⟩
    obtain ⟨b', hb', rfl⟩ := List.mem_map.mp hsteps
    exact hwhole b' hb'
  rw [hsteps, List.nodup_replicate] at honce
  match bs, hb, honce with
  | [_], hb, _ => rw [List.mem_singleton.mp hb]

/-- Layers that do not bind a name can be put in the place of others that do not. -/
theorem effective_of_quiet {sec key : String} (before after : List Layer)
    {quiet quiet' : List Layer} (h : ∀ l ∈ quiet, bindings sec key l = [])
    (h' : ∀ l ∈ quiet', bindings sec key l = []) :
    effective sec key (before ++ quiet ++ after)
      = effective sec key (before ++ quiet' ++ after) := by
  simp only [effective, List.flatMap_append, List.flatMap_eq_nil_iff.mpr h,
    List.flatMap_eq_nil_iff.mpr h']

/-! ### Laying layers over each other -/

/-- Laying fields over a table gives a table, in which each name has what its bindings leave. -/
theorem overlayFields_table (fs gs : List (String × Value)) :
    ∃ hs, overlayFields (.table gs) fs = .table hs ∧ ∀ key,
      hs.lookup key = (sectionBindings key [] (.table fs)).foldl Binding.apply (gs.lookup key) := by
  induction fs generalizing gs with
  | nil => exact ⟨gs, by rw [overlayFields], fun key => rfl⟩
  | cons f fs ih =>
    obtain ⟨name, v⟩ := f
    obtain ⟨hs, hlaid, hlookup⟩ :=
      ih (setField (Text.lower name) (overlay (gs.lookup (Text.lower name)) v) gs)
    refine ⟨hs, by rw [overlayFields]; exact hlaid, fun key => ?_⟩
    rw [hlookup key]
    simp only [sectionBindings, List.filterMap_cons]
    by_cases hkey : Text.lower name = key
    · subst hkey
      rw [lookup_setField_self]
      simp only [if_true, List.foldl_cons]
      rfl
    · rw [lookup_setField_of_ne (Ne.symm hkey)]
      simp only [if_neg hkey]

/-- Putting something at a section or into it, so that the section is a table, carries out the
bindings there. -/
theorem place_section {steps : List Step} {v : Value} {target : Option Value}
    (htable : ∃ fs, place steps v none = .table fs) (htarget : ∀ s ∈ target, ∃ fs, s = .table fs) :
    ∃ hs, place steps v target = .table hs ∧ ∀ key,
      hs.lookup key = (sectionBindings key steps v).foldl Binding.apply
        (target.bind fun s => s.fields.lookup key) := by
  obtain ⟨fs, hfs⟩ := htable
  match steps with
  | [] =>
    rw [place] at hfs ⊢
    cases v with
    | table gs =>
      rw [overlay]
      cases target with
      | none => exact overlayFields_table gs []
      | some s =>
        obtain ⟨ts, rfl⟩ := htarget s rfl
        exact overlayFields_table gs ts
    | _ => simp [overlay] at hfs
  | .name n :: steps =>
    rw [place]
    refine ⟨_, rfl, fun key => ?_⟩
    have hfields : ∀ key, ((target.map Value.fields).getD []).lookup key
        = target.bind fun s => s.fields.lookup key := by
      intro key
      cases target <;> rfl
    simp only [sectionBindings]
    by_cases hkey : n = key
    · subst hkey
      rw [lookup_setField_self, hfields, if_pos rfl]
      rfl
    · rw [lookup_setField_of_ne (Ne.symm hkey), hfields, if_neg hkey]
      rfl
  | .index i :: steps =>
    rw [place] at hfs
    simp only [] at hfs
    split at hfs <;> cases hfs

/-- **A configuration whose sections are tables.** -/
def Sectioned (root : Value) : Prop :=
  ∃ fs, root = .table fs ∧ ∀ sec ∈ sections, ∀ s ∈ fs.lookup sec, ∃ gs, s = .table gs

theorem stepsOf_eq_cons (key : String) : ∃ n steps, stepsOf key = .name n :: steps := by
  rw [stepsOf, path?]
  cases pathName? key.toList with
  | none => exact ⟨key, [], rfl⟩
  | some p =>
    simp only []
    cases stepsAux p.2.length p.2 with
    | none => exact ⟨key, [], rfl⟩
    | some steps => exact ⟨p.1, steps, rfl⟩

/-- One entry carries out its bindings, and the sections stay tables. -/
theorem field_place {root : Value} (hroot : Sectioned root) {e : String × Value}
    (he : ∀ sec ∈ sections, BindsTable sec e) :
    Sectioned (place (stepsOf (Text.lower e.1)) e.2 (some root)) ∧ ∀ sec ∈ sections, ∀ key,
      field sec key (place (stepsOf (Text.lower e.1)) e.2 (some root))
        = (entryBindings sec key e).foldl Binding.apply (field sec key root) := by
  obtain ⟨fs, rfl, hfs⟩ := hroot
  obtain ⟨n, steps, hsteps⟩ := stepsOf_eq_cons (Text.lower e.1)
  simp only [entryBindings, hsteps]
  have hplace : place (.name n :: steps) e.2 (some (.table fs))
      = .table (setField n (place steps e.2 (fs.lookup n)) fs) := by
    rw [place]
    rfl
  rw [hplace]
  have hsection : ∀ sec ∈ sections, n = sec → ∃ hs, place steps e.2 (fs.lookup n) = .table hs ∧
      ∀ key, hs.lookup key = (sectionBindings key steps e.2).foldl Binding.apply
        ((fs.lookup n).bind fun s => s.fields.lookup key) := by
    rintro sec hsec rfl
    exact place_section (Value.isTable_iff.mp (he n hsec steps hsteps)) (hfs n hsec)
  refine ⟨⟨_, rfl, fun sec hsec s hs => ?_⟩, fun sec hsec key => ?_⟩
  · by_cases hn : n = sec
    · obtain ⟨hs', hplaced, -⟩ := hsection sec hsec hn
      rw [← hn, lookup_setField_self, hplaced] at hs
      exact ⟨hs', (Option.some.inj hs).symm⟩
    · rw [lookup_setField_of_ne (Ne.symm hn)] at hs
      exact hfs sec hsec s hs
  · by_cases hn : n = sec
    · obtain ⟨hs', hplaced, hlookup⟩ := hsection sec hsec hn
      subst hn
      rw [if_pos rfl, field, Value.fields, lookup_setField_self, hplaced]
      exact hlookup key
    · rw [if_neg hn, field, Value.fields, lookup_setField_of_ne (Ne.symm hn)]
      rfl

theorem lay_cons (root : Value) (e : String × Value) (l : Layer) :
    lay root (e :: l) = lay (place (stepsOf (Text.lower e.1)) e.2 (some root)) l := by
  rw [lay, List.foldl_cons, ← lay]

/-- A layer carries out its bindings. -/
theorem field_lay {root : Value} (hroot : Sectioned root) {l : Layer}
    (hl : ∀ e ∈ l, ∀ sec ∈ sections, BindsTable sec e) :
    Sectioned (lay root l) ∧ ∀ sec ∈ sections, ∀ key,
      field sec key (lay root l)
        = (bindings sec key l).foldl Binding.apply (field sec key root) := by
  induction l generalizing root with
  | nil => exact ⟨hroot, fun _ _ _ => rfl⟩
  | cons e l ih =>
    obtain ⟨hplaced, hfield⟩ := field_place hroot (hl e List.mem_cons_self)
    obtain ⟨hlaid, hfields⟩ := ih hplaced fun e' he' => hl e' (List.mem_cons_of_mem e he')
    rw [lay_cons]
    refine ⟨hlaid, fun sec hsec key => ?_⟩
    rw [hfields sec hsec key, hfield sec hsec key, bindings, bindings, List.flatMap_cons,
      List.foldl_append]

/-- **What a configuration shows is what the bindings leave.** -/
theorem field_configuration {ls : List Layer} (hls : BindTables ls) :
    Sectioned (configuration ls) ∧ ∀ sec ∈ sections, ∀ key,
      field sec key (configuration ls) = effective sec key ls := by
  induction ls using List.reverseRecOn with
  | nil => exact ⟨⟨[], rfl, fun _ _ _ hs => by cases hs⟩, fun _ _ _ => rfl⟩
  | append_singleton ls l ih =>
    obtain ⟨hroot, hfield⟩ := ih fun m hm => hls m (List.mem_append_left [l] hm)
    obtain ⟨hlaid, hfields⟩ := field_lay hroot (hls l (by simp))
    have hfold : configuration (ls ++ [l]) = lay (configuration ls) l := by
      rw [configuration, List.foldl_append]
      rfl
    rw [hfold]
    refine ⟨hlaid, fun sec hsec key => ?_⟩
    rw [hfields sec hsec key, hfield sec hsec key, effective, effective, List.flatMap_append,
      List.foldl_append, List.flatMap_singleton]

/-! ### Reading settings -/

/-- The settings. -/
inductive Setting where
  | language
  | package
  | recordName
  | parserName
  | templateDir
  | extraReserved
  | reservedOverride
  | dir
  | recordFile
  | parserFile
  deriving DecidableEq, Repr

namespace Setting

/-- The section of a setting. -/
def sectionName : Setting → String
  | language | package | recordName | parserName | templateDir => "render"
  | extraReserved | reservedOverride => "naming"
  | dir | recordFile | parserFile => "output"

/-- The name of a setting in its section. -/
def key : Setting → String
  | language => "language"
  | package => "package"
  | recordName => "record_name"
  | parserName => "parser_name"
  | templateDir => "template_dir"
  | extraReserved => "extra_reserved"
  | reservedOverride => "reserved_override"
  | dir => "dir"
  | recordFile => "record_file"
  | parserFile => "parser_file"

/-- What a setting holds. -/
def Kind : Setting → Type
  | language => Language
  | package | recordName | parserName | dir => String
  | templateDir | recordFile | parserFile => Option String
  | extraReserved => List String
  | reservedOverride => Option (List String)

/-- The setting as settings have it. -/
def get (s : Settings) : (x : Setting) → x.Kind
  | language => s.render.language
  | package => s.render.package
  | recordName => s.render.recordName
  | parserName => s.render.parserName
  | templateDir => s.render.templateDir
  | extraReserved => s.naming.extraReserved
  | reservedOverride => s.naming.reservedOverride
  | dir => s.output.dir
  | recordFile => s.output.recordFile
  | parserFile => s.output.parserFile

/-- What a setting is when nothing binds it. -/
def default : (x : Setting) → x.Kind
  | language => Language.kotlin
  | package => "org.example"
  | recordName => "Record"
  | parserName => "FixedLengthParser"
  | dir => "."
  | templateDir | recordFile | parserFile | reservedOverride => (none : Option _)
  | extraReserved => ([] : List String)

/-- Reads a value of a setting; `none` when it is not of the setting's type. -/
def read? (v : Value) : (x : Setting) → Option x.Kind
  | language => language? v
  | package | recordName | parserName | dir => text? v
  | templateDir | recordFile | parserFile => (text? v).map some
  | extraReserved => texts? v
  | reservedOverride => (texts? v).map some

/-- **What a setting is by its value**, or by its default when it has none. -/
def given? (x : Setting) : Option Value → Option x.Kind
  | none => some x.default
  | some v => x.read? v

/-- Settings that have a given value at each setting. -/
def assemble (values : (x : Setting) → x.Kind) : Settings where
  render := ⟨values language, values package, values recordName, values parserName,
    values templateDir⟩
  naming := ⟨values extraReserved, values reservedOverride⟩
  output := ⟨values dir, values recordFile, values parserFile⟩

theorem get_assemble (values : (x : Setting) → x.Kind) (x : Setting) :
    x.get (assemble values) = values x := by
  cases x <;> rfl

theorem section_mem (x : Setting) : x.sectionName ∈ sections := by
  cases x <;> decide

end Setting

/-! Reading a value that may be missing, or need not be given, is a case split on it. -/

theorem orDefault_map_some {α : Type} (read : Value → Option α) (d : α) (o : Option Value) :
    orDefault read d (o.map some) = o.elim (some d) read := by
  cases o <;> rfl

theorem optional_map_some {α : Type} (read : Value → Option α) (o : Option Value) :
    optional read (o.map some) = o.elim (some none) fun v => (read v).map some := by
  cases o <;> rfl

theorem Setting.given?_eq_elim (x : Setting) (o : Option Value) :
    x.given? o = o.elim (some x.default) fun v => x.read? v := by
  cases o <;> rfl

theorem profile?_table_iff {fs : List (String × Value)} {p : Profile} :
    profile? (.table fs) = some p ↔
      Setting.language.given? (fs.lookup "language") = some p.language ∧
      Setting.package.given? (fs.lookup "package") = some p.package ∧
      Setting.recordName.given? (fs.lookup "record_name") = some p.recordName ∧
      Setting.parserName.given? (fs.lookup "parser_name") = some p.parserName ∧
      Setting.templateDir.given? (fs.lookup "template_dir") = some p.templateDir := by
  obtain ⟨language, package, recordName, parserName, templateDir⟩ := p
  simp only [profile?, sectionValues?, List.map_cons, List.map_nil, orDefault_map_some,
    optional_map_some, Setting.given?_eq_elim, Option.bind_eq_bind, Option.bind_eq_some_iff,
    Option.pure_def, Option.some.injEq, Profile.mk.injEq]
  constructor
  · rintro ⟨l, hl, p, hp, r, hr, q, hq, d, hd, rfl, rfl, rfl, rfl, rfl⟩
    exact ⟨hl, hp, hr, hq, hd⟩
  · rintro ⟨hl, hp, hr, hq, hd⟩
    exact ⟨_, hl, _, hp, _, hr, _, hq, _, hd, rfl, rfl, rfl, rfl, rfl⟩

theorem naming?_table_iff {fs : List (String × Value)} {r : NamingRules} :
    naming? (.table fs) = some r ↔
      Setting.extraReserved.given? (fs.lookup "extra_reserved") = some r.extraReserved ∧
      Setting.reservedOverride.given? (fs.lookup "reserved_override")
        = some r.reservedOverride := by
  obtain ⟨extra, override⟩ := r
  simp only [naming?, sectionValues?, List.map_cons, List.map_nil, orDefault_map_some,
    optional_map_some, Setting.given?_eq_elim, Option.bind_eq_bind, Option.bind_eq_some_iff,
    Option.pure_def, Option.some.injEq, NamingRules.mk.injEq]
  constructor
  · rintro ⟨e, he, o, ho, rfl, rfl⟩
    exact ⟨he, ho⟩
  · rintro ⟨he, ho⟩
    exact ⟨_, he, _, ho, rfl, rfl⟩

theorem output?_table_iff {fs : List (String × Value)} {o : OutputRules} :
    output? (.table fs) = some o ↔
      Setting.dir.given? (fs.lookup "dir") = some o.dir ∧
      Setting.recordFile.given? (fs.lookup "record_file") = some o.recordFile ∧
      Setting.parserFile.given? (fs.lookup "parser_file") = some o.parserFile := by
  obtain ⟨dir, recordFile, parserFile⟩ := o
  simp only [output?, sectionValues?, List.map_cons, List.map_nil, orDefault_map_some,
    optional_map_some, Setting.given?_eq_elim, Option.bind_eq_bind, Option.bind_eq_some_iff,
    Option.pure_def, Option.some.injEq, OutputRules.mk.injEq]
  constructor
  · rintro ⟨d, hd, r, hr, p, hp, rfl, rfl, rfl⟩
    exact ⟨hd, hr, hp⟩
  · rintro ⟨hd, hr, hp⟩
    exact ⟨_, hd, _, hr, _, hp, rfl, rfl, rfl⟩

/-- A section that is missing reads as an empty one. -/
theorem orDefault_section {α : Type} {read : Value → Option α} {d : α}
    (hempty : read (.table []) = some d) (o : Option Value) :
    orDefault read d (o.map some) = read (o.getD (.table [])) := by
  cases o with
  | none => exact hempty.symm
  | some v => rfl

/-- The three sections are read each on its own. -/
theorem settings?_table_iff {fs : List (String × Value)} {s : Settings} :
    settings? (.table fs) = some s ↔
      profile? ((fs.lookup "render").getD (.table [])) = some s.render ∧
      naming? ((fs.lookup "naming").getD (.table [])) = some s.naming ∧
      output? ((fs.lookup "output").getD (.table [])) = some s.output := by
  obtain ⟨render, naming, output⟩ := s
  have hprofile : profile? (.table []) = some {} := rfl
  have hnaming : naming? (.table []) = some {} := rfl
  have houtput : output? (.table []) = some {} := rfl
  simp only [settings?, sectionValues?, List.map_cons, List.map_nil, orDefault_section hprofile,
    orDefault_section hnaming, orDefault_section houtput, Option.bind_eq_bind,
    Option.bind_eq_some_iff, Option.pure_def, Option.some.injEq, Settings.mk.injEq]
  constructor
  · rintro ⟨r, hr, n, hn, o, ho, rfl, rfl, rfl⟩
    exact ⟨hr, hn, ho⟩
  · rintro ⟨hr, hn, ho⟩
    exact ⟨_, hr, _, hn, _, ho, rfl, rfl, rfl⟩

theorem Setting.forall_iff {P : Setting → Prop} :
    (∀ x, P x) ↔ (P language ∧ P package ∧ P recordName ∧ P parserName ∧ P templateDir) ∧
      (P extraReserved ∧ P reservedOverride) ∧ P dir ∧ P recordFile ∧ P parserFile := by
  constructor
  · intro h
    simp only [h, and_self]
  · rintro ⟨⟨_, _, _, _, _⟩, ⟨_, _⟩, _, _, _⟩ x
    cases x <;> assumption

/-- **A configuration is read setting by setting.** -/
theorem settings?_eq_some_iff {root : Value} (hroot : Sectioned root) {s : Settings} :
    settings? root = some s ↔
      ∀ x : Setting, x.given? (field x.sectionName x.key root) = some (x.get s) := by
  obtain ⟨fs, rfl, hfs⟩ := hroot
  have hsection : ∀ sec ∈ sections, ∃ gs, (fs.lookup sec).getD (.table []) = .table gs ∧
      ∀ key, field sec key (.table fs) = gs.lookup key := by
    intro sec hsec
    simp only [field, Value.fields]
    cases hlook : fs.lookup sec with
    | none => exact ⟨[], rfl, fun _ => rfl⟩
    | some v =>
      obtain ⟨gs, rfl⟩ := hfs sec hsec v hlook
      exact ⟨gs, rfl, fun _ => rfl⟩
  obtain ⟨render, hrender, hr⟩ := hsection "render" (by decide)
  obtain ⟨naming, hnaming, hn⟩ := hsection "naming" (by decide)
  obtain ⟨output, houtput, ho⟩ := hsection "output" (by decide)
  rw [settings?_table_iff, hrender, hnaming, houtput, profile?_table_iff, naming?_table_iff,
    output?_table_iff, Setting.forall_iff]
  simp only [Setting.sectionName, Setting.key, hr, hn, ho]
  exact Iff.rfl

/-! ### Loading -/

namespace Setting

/-- The bindings of a setting by a layer. -/
def bindings (x : Setting) (l : Layer) : List Binding := Config.bindings x.sectionName x.key l

/-- **The effective value of a setting.** -/
def effective (x : Setting) (ls : List Layer) : Option Value :=
  Config.effective x.sectionName x.key ls

end Setting

/-- **No layer binds a key twice**: of the keys of a layer that lead to a setting or into it, no two
are the same in lower case. -/
def BindOnce (ls : List Layer) : Prop :=
  ∀ l ∈ ls, ∀ x : Setting, ((x.bindings l).map Binding.steps).Nodup

instance decBindOnce (ls : List Layer) : Decidable (BindOnce ls) :=
  have : ∀ l, Decidable (∀ x : Setting, ((x.bindings l).map Binding.steps).Nodup) :=
    fun _ => decidable_of_iff _ Setting.forall_iff.symm
  inferInstanceAs (Decidable (∀ l ∈ ls, ∀ x : Setting, ((x.bindings l).map Binding.steps).Nodup))

variable {h : Host} {t : FileTree} {env : Environment} {named : Option String} {ls : List Layer}

theorem load_eq_ok_iff (hls : layers h t env named = .ok ls) (htables : BindTables ls)
    {s : Settings} :
    load h t env named = .ok s ↔ ∀ x : Setting, x.given? (x.effective ls) = some (x.get s) := by
  obtain ⟨hroot, hfield⟩ := field_configuration htables
  have hsettings := settings?_eq_some_iff (s := s) hroot
  simp only [hfield _ (Setting.section_mem _)] at hsettings
  simp only [Setting.effective, ← hsettings, load, hls]
  cases settings? (configuration ls) <;> simp

/-- **The last source that binds a setting decides it**, each setting on its own.  Sources that bind
sections to tables only and no key twice load exactly when each setting's effective value is of its
type, and the settings are those values or the defaults.  The effective value is the one that the
last source binds, unless that is a table or a key of that source leads further into the setting;
then the bindings of that source are carried out on the value that the sources before it leave. -/
theorem load_layers (hls : layers h t env named = .ok ls) (htables : BindTables ls)
    (honce : BindOnce ls) :
    (∃ a b c u extra, optionalLayer h t "fwgen.toml" = .ok a ∧
      optionalLayer h t ".fwgen.toml" = .ok b ∧ optionalLayer h t "config/fwgen.toml" = .ok c ∧
      userLayer h t = .ok u ∧
      List.Forall₂ (fun name l => requiredLayer h t name = .ok l) named.toList extra ∧
      ls = [a, b, c, u] ++ extra ++ [(ofEnvironment env).arrange h.order]) ∧
    (∀ s, load h t env named = .ok s ↔
      ∀ x : Setting, x.given? (x.effective ls) = some (x.get s)) ∧
    ((∃ s, load h t env named = .ok s) ↔ ∀ x : Setting, ∃ a, x.given? (x.effective ls) = some a) ∧
    (∀ (x : Setting) before l after v, ls = before ++ l :: after → ⟨[], v⟩ ∈ x.bindings l →
      (∀ b ∈ x.bindings l, b.steps = []) → v.isTable = false → (∀ m ∈ after, x.bindings m = []) →
      x.effective ls = some v) ∧
    (∀ (x : Setting) before l after, ls = before ++ l :: after →
      (∀ m ∈ after, x.bindings m = []) →
      x.effective ls = (x.bindings l).foldl Binding.apply (x.effective before)) ∧
    (∀ x : Setting, (∀ l ∈ ls, x.bindings l = []) → x.given? (x.effective ls) = some x.default) ∧
    (∀ (x : Setting) h' t' env' named' before quiet quiet' after, ls = before ++ quiet ++ after →
      layers h' t' env' named' = .ok (before ++ quiet' ++ after) →
      BindTables (before ++ quiet' ++ after) →
      (∀ l ∈ quiet, x.bindings l = []) → (∀ l ∈ quiet', x.bindings l = []) →
      ∀ s s', load h t env named = .ok s → load h' t' env' named' = .ok s' →
        x.get s' = x.get s) := by
  refine ⟨layers_eq_ok_iff.mp hls, fun s => load_eq_ok_iff hls htables, ⟨?_, ?_⟩, ?_, ?_, ?_, ?_⟩
  · rintro ⟨s, hs⟩ x
    exact ⟨x.get s, (load_eq_ok_iff hls htables).mp hs x⟩
  · intro hall
    choose values hvalues using hall
    refine ⟨Setting.assemble values, (load_eq_ok_iff hls htables).mpr fun x => ?_⟩
    rw [hvalues x, Setting.get_assemble]
  · rintro x before l after v rfl hmem hwhole hv hafter
    have hl := eq_singleton_of_whole hmem hwhole (honce l (by simp) x)
    refine effective_of_last hl ?_ hafter
    rintro fs rfl
    cases hv
  · rintro x before l after rfl hafter
    exact effective_on_earlier before l hafter
  · intro x hx
    rw [Setting.effective, effective_of_unbound hx]
    rfl
  · rintro x h' t' env' named' before quiet quiet' after rfl hls' htables' hquiet hquiet'
    intro s s' hs hs'
    have hx := (load_eq_ok_iff hls htables).mp hs x
    have hx' := (load_eq_ok_iff hls' htables').mp hs' x
    rw [Setting.effective, effective_of_quiet before after hquiet hquiet'] at hx
    exact Option.some.inj (hx'.symm.trans hx)

/-- Whether a computation has a result with a decidable property. -/
instance decExistsOk {ε α : Type} (x : Except ε α) (P : α → Prop) [DecidablePred P] :
    Decidable (∃ a, x = .ok a ∧ P a) :=
  match x with
  | .ok a => decidable_of_iff (P a) (by simp)
  | .error _ => .isFalse (by simp)

/-- A value of the wrong type does no harm below one of the right type, and a variable of the
environment sets one setting of a section and leaves the others. -/
theorem load_layers_three_sources :
    let t : FileTree := ⟨[(["fwgen.toml"], .file "[render]\npackage = []\n".toUTF8),
      ([".fwgen.toml"], .file "render.Package = 'p'\n".toUTF8)]⟩
    let env := [("FWGEN__RENDER__RECORD_NAME", "Row")]
    let s : Settings := { render := { package := "p", recordName := "Row" } }
    ∃ ls, (layers smallHost t env none = .ok ls ∧ BindTables ls ∧ BindOnce ls) ∧
      load smallHost t env none = .ok s ∧
      ∀ x : Setting, x.given? (x.effective ls) = some (x.get s) := by
  intro t env s
  have hlayers : ∃ ls, layers smallHost t env none = .ok ls ∧ BindTables ls ∧ BindOnce ls := by
    decide +kernel
  have hload : load smallHost t env none = .ok s := by decide +kernel
  obtain ⟨ls, hls, htables, honce⟩ := hlayers
  exact ⟨ls, ⟨hls, htables, honce⟩, hload, ((load_layers hls htables honce).2.1 s).mp hload⟩

/-- **An earlier value is not always replaced.**  Below a binding to an empty table it stays, though
an empty table is no text; and a key that leads to a place in a list adds to the list. -/
theorem layers_keep_earlier_values :
    let t : FileTree := ⟨[(["fwgen.toml"], .file "[render]\npackage = 'p'\n".toUTF8),
      ([".fwgen.toml"], .file "[render]\npackage = \x7b\x7d\n".toUTF8)]⟩
    let t' : FileTree := ⟨[(["fwgen.toml"], .file "[naming]\nextra_reserved = ['a']\n".toUTF8),
      ([".fwgen.toml"], .file "'naming.extra_reserved[1]' = 'b'\n".toUTF8)]⟩
    (∃ ls, layers smallHost t [] none = .ok ls ∧ (BindTables ls ∧ BindOnce ls) ∧
      ls.map (fun l => (Setting.package.bindings l).map fun b => (b.steps, text? b.value))
        = [[([], some "p")], [([], none)], [], [], []]) ∧
    load smallHost t [] none = .ok { render := { package := "p" } } ∧
    (∃ ls, layers smallHost t' [] none = .ok ls ∧ BindTables ls ∧ BindOnce ls) ∧
    load smallHost t' [] none = .ok { naming := { extraReserved := ["a", "b"] } } := by
  decide +kernel

end FlatFile.Config
