import FlatFile.Json.Forms
import FlatFile.Proofs.EncodedLines
import FlatFile.Proofs.WrittenJson
import Mathlib

/-!
# JSON forms are faithful

Which JSON values are read as a given value of a type is said here without the readers.  A structure
is spelled by an object that gives each of its fields once, in any order and among any others, or by
an array of its values; a field may be missing where its value is the default (`Spells`).  Each
reader accepts exactly the spellings, what is written is one of them, and its text reads back
(`Faithful`).

Only a line number has values that JSON does not hold: it is read below `2 ^ 64`.
-/

namespace FlatFile.Json

/-! ### Fields of a structure -/

/-- A field of a structure: the values that may be given for it, and whether it may be missing. -/
structure Slot where
  name : String
  given : Json → Prop
  missing : Prop

/-- What stands in the place of a field. -/
def Slot.Fits (s : Slot) : Option Json → Prop
  | some v => s.given v
  | none => s.missing

/-- **How a structure is spelled.** -/
inductive Spells (slots : List Slot) : Json → Prop where
  | object {fields : List (String × Json)}
      (once : ∀ s ∈ slots, (fields.map Prod.fst).count s.name ≤ 1)
      (given : ∀ s ∈ slots, ∀ v, (s.name, v) ∈ fields → s.given v)
      (missing : ∀ s ∈ slots, s.name ∉ fields.map Prod.fst → s.missing) :
      Spells slots (.obj fields)
  | array {items : List Json} (short : items.length ≤ slots.length)
      (given : ∀ p ∈ slots.zip items, p.1.given p.2)
      (missing : ∀ s ∈ slots.drop items.length, s.missing) : Spells slots (.arr items)

theorem lookup_eq_some_iff {fields : List (String × Json)} {n : String} {v : Json}
    (once : (fields.map Prod.fst).count n ≤ 1) : fields.lookup n = some v ↔ (n, v) ∈ fields := by
  induction fields with
  | nil => simp
  | cons f fields ih =>
    obtain ⟨k, u⟩ := f
    rw [List.map_cons, List.count_cons] at once
    by_cases hk : n = k
    · subst hk
      have hnone : n ∉ fields.map Prod.fst := by
        rw [← List.count_eq_zero]
        simp only [BEq.rfl, if_true] at once
        omega
      have hpair : (n, v) ∉ fields := fun h => hnone (List.mem_map_of_mem (f := Prod.fst) h)
      simp [hpair, eq_comm]
    · have hrest := ih (Nat.le_of_add_right_le once)
      simp [List.lookup_cons, beq_false_of_ne hk, hrest, hk]

/-- A field of an object fits when all that is given under its name does. -/
theorem fits_lookup_iff {fields : List (String × Json)} {s : Slot}
    (once : (fields.map Prod.fst).count s.name ≤ 1) :
    s.Fits (fields.lookup s.name) ↔
      (∀ v, (s.name, v) ∈ fields → s.given v) ∧ (s.name ∉ fields.map Prod.fst → s.missing) := by
  simp only [← lookup_eq_some_iff once]
  cases hl : fields.lookup s.name with
  | none =>
    have hnot : s.name ∉ fields.map Prod.fst := by
      rintro hmem
      obtain ⟨f, hf, hname⟩ := List.mem_map.mp hmem
      simpa [hname] using List.lookup_eq_none_iff.mp hl f hf
    simp [Slot.Fits, hnot]
  | some v =>
    have hmem : s.name ∈ fields.map Prod.fst :=
      List.mem_map_of_mem (f := Prod.fst) ((lookup_eq_some_iff once).mp hl)
    simp [Slot.Fits, hmem]

/-- The fields of an array fit, place by place, and those behind its end may be missing. -/
theorem fits_items_iff {slots : List Slot} {items : List Json} (h : items.length ≤ slots.length) :
    List.Forall₂ Slot.Fits slots ((List.range slots.length).map fun i => items[i]?) ↔
      (∀ p ∈ slots.zip items, p.1.given p.2) ∧ ∀ s ∈ slots.drop items.length, s.missing := by
  induction slots generalizing items with
  | nil => simp
  | cons s slots ih =>
    rw [List.length_cons, List.range_succ_eq_map, List.map_cons, List.map_map, List.forall₂_cons]
    cases items with
    | nil =>
      have hrest := @ih [] (Nat.zero_le _)
      simp only [Function.comp_def, List.getElem?_nil] at hrest ⊢
      rw [hrest]
      simp [Slot.Fits]
    | cons v items =>
      have hrest := @ih items (Nat.le_of_succ_le_succ h)
      simp only [Function.comp_def, List.getElem?_cons_succ] at hrest ⊢
      rw [hrest]
      simp [Slot.Fits, and_assoc]

/-- **A structure is spelled by what its fields are taken from.** -/
theorem spells_iff (slots : List Slot) (j : Json) :
    Spells slots j ↔
      ∃ vs, structure? (slots.map Slot.name) j = some vs ∧ List.Forall₂ Slot.Fits slots vs := by
  match j with
  | .obj fields =>
    rw [structure?, List.map_map]
    constructor
    · rintro (⟨once, given, missing⟩ | _)
      refine ⟨_, if_pos (by simpa using once), ?_⟩
      rw [List.forall₂_map_right_iff, List.forall₂_same]
      exact fun s hs => (fits_lookup_iff (once s hs)).mpr ⟨given s hs, missing s hs⟩
    · rintro ⟨vs, hvs, hfits⟩
      split at hvs
      · rename_i honce
        have once : ∀ s ∈ slots, (fields.map Prod.fst).count s.name ≤ 1 := by simpa using honce
        obtain rfl := Option.some.inj hvs
        rw [List.forall₂_map_right_iff, List.forall₂_same] at hfits
        exact .object once (fun s hs => ((fits_lookup_iff (once s hs)).mp (hfits s hs)).1)
          (fun s hs => ((fits_lookup_iff (once s hs)).mp (hfits s hs)).2)
      · cases hvs
  | .arr items =>
    rw [structure?, List.length_map]
    constructor
    · rintro (_ | ⟨short, given, missing⟩)
      exact ⟨_, if_pos short, (fits_items_iff short).mpr ⟨given, missing⟩⟩
    · rintro ⟨vs, hvs, hfits⟩
      split at hvs
      · rename_i short
        obtain rfl := Option.some.inj hvs
        obtain ⟨given, missing⟩ := (fits_items_iff short).mp hfits
        exact .array short given missing
      · cases hvs
  | .null | .bool _ | .num _ | .decimal _ | .str _ =>
    exact iff_of_false nofun (by simp [structure?])

/-- Of fields with different names, the one with the name of a slot stands in its place. -/
theorem given_of_fields {slots : List Slot} {fields : List (String × Json)}
    (distinct : (slots.map Slot.name).Nodup)
    (h : List.Forall₂ (fun s f => f.1 = s.name ∧ s.given f.2) slots fields) :
    fields.map Prod.fst = slots.map Slot.name ∧
      ∀ s ∈ slots, ∀ v, (s.name, v) ∈ fields → s.given v := by
  induction h with
  | nil => simp
  | @cons s f slots fields hf _ ih =>
    rw [List.map_cons, List.nodup_cons] at distinct
    obtain ⟨hnames, hgiven⟩ := ih distinct.2
    refine ⟨by rw [List.map_cons, List.map_cons, hf.1, hnames], ?_⟩
    intro s' hs' v hv
    rcases List.mem_cons.mp hs' with rfl | hs' <;> rcases List.mem_cons.mp hv with rfl | hv
    · exact hf.2
    · exact absurd (hnames ▸ List.mem_map_of_mem (f := Prod.fst) hv) distinct.1
    · exact absurd (hf.1 ▸ List.mem_map_of_mem (f := Slot.name) hs') distinct.1
    · exact hgiven s' hs' v hv

/-- An object with each field in its place spells the structure. -/
theorem spells_of_fields {slots : List Slot} {fields : List (String × Json)}
    (distinct : (slots.map Slot.name).Nodup)
    (h : List.Forall₂ (fun s f => f.1 = s.name ∧ s.given f.2) slots fields) :
    Spells slots (.obj fields) := by
  obtain ⟨hnames, hgiven⟩ := given_of_fields distinct h
  refine .object (fun s _ => ?_) hgiven fun s hs hmissing => ?_
  · rw [hnames]
    exact List.nodup_iff_count_le_one.mp distinct s.name
  · rw [hnames] at hmissing
    exact absurd (List.mem_map_of_mem (f := Slot.name) hs) hmissing

/-! ### Values of fields -/

/-- The reader accepts exactly the spellings. -/
def Reads {α : Type} (read : Json → Option α) (spells : α → Json → Prop) : Prop :=
  ∀ j a, read j = some a ↔ spells a j

/-- An optional value: `null`, or a value that is there. -/
inductive Perhaps {α : Type} (spells : α → Json → Prop) : Option α → Json → Prop where
  | null : Perhaps spells none .null
  | given {a : α} {j : Json} (h : spells a j) : Perhaps spells (some a) j

/-- A choice: its name, or its name as the only field of an object. -/
inductive Named (name : String) : Json → Prop where
  | text : Named name (.str name)
  | field : Named name (.obj [(name, .null)])

section
variable {α : Type} {read : Json → Option α} {spells : α → Json → Prop}

theorem required_iff (h : Reads read spells) (n : String) (a : α) (o : Option Json) :
    required read o = some a ↔ Slot.Fits ⟨n, spells a, False⟩ o := by
  cases o with
  | none => exact iff_of_false nofun id
  | some v => exact h v a

theorem orDefault_iff (h : Reads read spells) (n : String) (d a : α) (o : Option Json) :
    orDefault read d o = some a ↔ Slot.Fits ⟨n, spells a, a = d⟩ o := by
  cases o with
  | none => simp [orDefault, Slot.Fits, eq_comm]
  | some v => exact h v a

theorem optional_iff (h : Reads read spells) (hnull : ∀ a, ¬ spells a .null) (n : String)
    (a : Option α) (o : Option Json) :
    optional read o = some a ↔ Slot.Fits ⟨n, Perhaps spells a, a = none⟩ o := by
  have hgiven (v : Json) (hv : v ≠ .null) :
      (read v).map some = some a ↔ Perhaps spells a v := by
    rw [Option.map_eq_some_iff]
    constructor
    · rintro ⟨b, hb, rfl⟩
      exact .given ((h v b).mp hb)
    · rintro (_ | hb)
      · exact absurd rfl hv
      · exact ⟨_, (h v _).mpr hb, rfl⟩
  match o with
  | none => simp [optional, Slot.Fits, eq_comm]
  | some .null =>
    constructor
    · rintro ⟨⟩
      exact .null
    · rintro (_ | hb)
      · rfl
      · exact absurd hb (hnull _)
  | some (.bool _) | some (.num _) | some (.decimal _) | some (.str _) | some (.arr _)
  | some (.obj _) => exact hgiven _ nofun

end

theorem reads_text : Reads text? fun s j => j = .str s := by
  intro j s
  cases j <;> simp [text?]

theorem reads_texts : Reads texts? fun ss j => j = ofTexts ss := by
  intro j ss
  match j with
  | .arr items =>
    simp only [texts?, ofTexts, Text.mapM_eq_some_iff, reads_text _ _, Json.arr.injEq]
    rw [← List.forall₂_eq_eq_eq, List.forall₂_map_right_iff]
  | .null | .bool _ | .num _ | .decimal _ | .str _ | .obj _ => simp [texts?, ofTexts]

theorem reads_lineNumber : Reads lineNumber? fun n j => j = .num n ∧ n < 2 ^ 64 := by
  intro j n
  match j with
  | .num m =>
    simp only [lineNumber?, Json.num.injEq]
    split
    · rw [Option.some.injEq]
      omega
    · exact iff_of_false nofun (by omega)
  | .null | .bool _ | .decimal _ | .str _ | .arr _ | .obj _ => simp [lineNumber?]

theorem find?_name_iff {α : Type} {choices : List α} {name : α → String}
    (hall : ∀ a, a ∈ choices) (hname : Function.Injective name) (s : String) (a : α) :
    (choices.find? fun b => name b == s) = some a ↔ s = name a := by
  constructor
  · intro h
    have hsame := List.find?_some h
    exact (beq_iff_eq.mp hsame).symm
  · rintro rfl
    cases h : choices.find? fun b => name b == name a with
    | none => simpa using List.find?_eq_none.mp h a (hall a)
    | some b =>
      have hsame := List.find?_some h
      rw [hname (beq_iff_eq.mp hsame)]

theorem reads_choice {α : Type} {choices : List α} {name : α → String}
    (hall : ∀ a, a ∈ choices) (hname : Function.Injective name) :
    Reads (choice? choices name) fun a => Named (name a) := by
  intro j a
  constructor
  · intro h
    rw [choice?.eq_def] at h
    split at h
    · rw [find?_name_iff hall hname] at h
      exact h ▸ .text
    · rw [find?_name_iff hall hname] at h
      exact h ▸ .field
    · cases h
  · rintro (_ | _)
    · exact (find?_name_iff hall hname _ a).mpr rfl
    · exact (find?_name_iff hall hname _ a).mpr rfl

end FlatFile.Json

namespace FlatFile

open Json Schema

/-! ### The spellings of each type -/

theorem Language.reads : Reads Language.ofJson? fun l => Named l.name :=
  reads_choice (fun l => by cases l <;> decide) fun l l' h => by
    cases l <;> cases l' <;> first | rfl | exact absurd h (by decide)

theorem DiagnosticCode.reads : Reads DiagnosticCode.ofJson? fun c => Named c.name :=
  reads_choice (fun c => by cases c <;> decide) fun c c' h => by
    cases c <;> cases c' <;> first | rfl | exact absurd h (by decide)

namespace NamingRules

/-- The fields of naming rules. -/
def slots (r : NamingRules) : List Slot :=
  [⟨"extra_reserved", (· = ofTexts r.extraReserved), r.extraReserved = []⟩,
    ⟨"reserved_override", Perhaps (fun ss j => j = ofTexts ss) r.reservedOverride,
      r.reservedOverride = none⟩]

theorem reads : Reads ofJson? fun r => Spells r.slots := by
  intro j r
  refine Iff.trans ?_ (spells_iff r.slots j).symm
  simp only [slots, List.map_cons, List.map_nil, ofJson?]
  cases structure? ["extra_reserved", "reserved_override"] j with
  | none => simp
  | some vs =>
    match vs with
    | [extra, override] =>
      simp only [← orDefault_iff reads_texts, ← optional_iff reads_texts nofun, Option.some.injEq,
        exists_eq_left', List.forall₂_cons, List.forall₂_nil_left_iff, and_true,
        Option.bind_eq_bind, Option.bind_eq_some_iff, Option.pure_def]
      constructor
      · rintro ⟨extra', hextra, override', hoverride, rfl⟩
        exact ⟨hextra, hoverride⟩
      · rintro ⟨hextra, hoverride⟩
        exact ⟨_, hextra, _, hoverride, rfl⟩
    | [] | [_] | _ :: _ :: _ :: _ => simp

end NamingRules

namespace Profile

/-- The fields of a profile. -/
def slots (p : Profile) : List Slot :=
  [⟨"language", Named p.language.name, p.language = .kotlin⟩,
    ⟨"package", (· = .str p.package), p.package = "org.example"⟩,
    ⟨"record_name", (· = .str p.recordName), p.recordName = "Record"⟩,
    ⟨"parser_name", (· = .str p.parserName), p.parserName = "FixedLengthParser"⟩,
    ⟨"template_dir", Perhaps (fun s j => j = .str s) p.templateDir, p.templateDir = none⟩]

theorem reads : Reads ofJson? fun p => Spells p.slots := by
  intro j p
  refine Iff.trans ?_ (spells_iff p.slots j).symm
  simp only [slots, List.map_cons, List.map_nil, ofJson?]
  cases structure? ["language", "package", "record_name", "parser_name", "template_dir"] j with
  | none => simp
  | some vs =>
    match vs with
    | [language, package, recordName, parserName, templateDir] =>
      simp only [← orDefault_iff reads_text, ← orDefault_iff Language.reads,
        ← optional_iff reads_text nofun, Option.some.injEq,
        exists_eq_left', List.forall₂_cons, List.forall₂_nil_left_iff, and_true,
        Option.bind_eq_bind, Option.bind_eq_some_iff, Option.pure_def]
      constructor
      · rintro ⟨_, hlanguage, _, hpackage, _, hrecord, _, hparser, _, htemplates, rfl⟩
        exact ⟨hlanguage, hpackage, hrecord, hparser, htemplates⟩
      · rintro ⟨hlanguage, hpackage, hrecord, hparser, htemplates⟩
        exact ⟨_, hlanguage, _, hpackage, _, hrecord, _, hparser, _, htemplates, rfl⟩
    | [] | [_] | [_, _] | [_, _, _] | [_, _, _, _] | _ :: _ :: _ :: _ :: _ :: _ :: _ => simp

end Profile

namespace OutputRules

/-- The fields of output rules. -/
def slots (o : OutputRules) : List Slot :=
  [⟨"dir", (· = .str o.dir), o.dir = "."⟩,
    ⟨"record_file", Perhaps (fun s j => j = .str s) o.recordFile, o.recordFile = none⟩,
    ⟨"parser_file", Perhaps (fun s j => j = .str s) o.parserFile, o.parserFile = none⟩]

theorem reads : Reads ofJson? fun o => Spells o.slots := by
  intro j o
  refine Iff.trans ?_ (spells_iff o.slots j).symm
  simp only [slots, List.map_cons, List.map_nil, ofJson?]
  cases structure? ["dir", "record_file", "parser_file"] j with
  | none => simp
  | some vs =>
    match vs with
    | [dir, recordFile, parserFile] =>
      simp only [← orDefault_iff reads_text, ← optional_iff reads_text nofun, Option.some.injEq,
        exists_eq_left', List.forall₂_cons, List.forall₂_nil_left_iff, and_true,
        Option.bind_eq_bind, Option.bind_eq_some_iff, Option.pure_def]
      constructor
      · rintro ⟨_, hdir, _, hrecord, _, hparser, rfl⟩
        exact ⟨hdir, hrecord, hparser⟩
      · rintro ⟨hdir, hrecord, hparser⟩
        exact ⟨_, hdir, _, hrecord, _, hparser, rfl⟩
    | [] | [_] | [_, _] | _ :: _ :: _ :: _ :: _ => simp

end OutputRules

namespace Settings

/-- The fields of settings. -/
def slots (s : Settings) : List Slot :=
  [⟨"render", Spells s.render.slots, s.render = {}⟩,
    ⟨"naming", Spells s.naming.slots, s.naming = {}⟩,
    ⟨"output", Spells s.output.slots, s.output = {}⟩]

theorem reads : Reads ofJson? fun s => Spells s.slots := by
  intro j s
  refine Iff.trans ?_ (spells_iff s.slots j).symm
  simp only [slots, List.map_cons, List.map_nil, ofJson?]
  cases structure? ["render", "naming", "output"] j with
  | none => simp
  | some vs =>
    match vs with
    | [render, naming, output] =>
      simp only [← orDefault_iff Profile.reads, ← orDefault_iff NamingRules.reads,
        ← orDefault_iff OutputRules.reads, Option.some.injEq, exists_eq_left', List.forall₂_cons,
        List.forall₂_nil_left_iff, and_true, Option.bind_eq_bind, Option.bind_eq_some_iff,
        Option.pure_def]
      constructor
      · rintro ⟨_, hrender, _, hnaming, _, houtput, rfl⟩
        exact ⟨hrender, hnaming, houtput⟩
      · rintro ⟨hrender, hnaming, houtput⟩
        exact ⟨_, hrender, _, hnaming, _, houtput, rfl⟩
    | [] | [_] | [_, _] | _ :: _ :: _ :: _ :: _ => simp

end Settings

namespace Diagnostic

/-- The fields of a finding. -/
def slots (d : Diagnostic) : List Slot :=
  [⟨"line", fun j => j = .num d.line ∧ d.line < 2 ^ 64, False⟩,
    ⟨"code", Named d.code.name, False⟩, ⟨"message", (· = .str d.message), False⟩]

theorem reads : Reads ofJson? fun d => Spells d.slots := by
  intro j d
  refine Iff.trans ?_ (spells_iff d.slots j).symm
  simp only [slots, List.map_cons, List.map_nil, ofJson?]
  cases structure? ["line", "code", "message"] j with
  | none => simp
  | some vs =>
    match vs with
    | [line, code, message] =>
      simp only [← required_iff reads_lineNumber, ← required_iff DiagnosticCode.reads,
        ← required_iff reads_text, Option.some.injEq, exists_eq_left', List.forall₂_cons,
        List.forall₂_nil_left_iff, and_true, Option.bind_eq_bind, Option.bind_eq_some_iff,
        Option.pure_def]
      constructor
      · rintro ⟨_, hline, _, hcode, _, hmessage, rfl⟩
        exact ⟨hline, hcode, hmessage⟩
      · rintro ⟨hline, hcode, hmessage⟩
        exact ⟨_, hline, _, hcode, _, hmessage, rfl⟩
    | [] | [_] | [_, _] | _ :: _ :: _ :: _ :: _ => simp

end Diagnostic

namespace Diagnostics

/-- The list of findings is spelled by an array. -/
def ItemsSpelled (ds : List Diagnostic) (j : Json) : Prop :=
  ∃ items, j = .arr items ∧ List.Forall₂ (fun j d => Spells d.slots j) items ds

/-- The only field of a collection of findings. -/
def slots (ds : Diagnostics) : List Slot := [⟨"items", ItemsSpelled ds.items, False⟩]

theorem reads_items : Reads items? ItemsSpelled := by
  intro j ds
  match j with
  | .arr items =>
    simp only [items?, ItemsSpelled, Text.mapM_eq_some_iff, Diagnostic.reads _ _, Json.arr.injEq,
      exists_eq_left']
  | .null | .bool _ | .num _ | .decimal _ | .str _ | .obj _ => simp [items?, ItemsSpelled]

theorem reads : Reads ofJson? fun ds => Spells ds.slots := by
  intro j ds
  refine Iff.trans ?_ (spells_iff ds.slots j).symm
  simp only [slots, List.map_cons, List.map_nil, ofJson?]
  cases structure? ["items"] j with
  | none => simp
  | some vs =>
    match vs with
    | [items] =>
      simp only [← required_iff reads_items, Option.some.injEq, exists_eq_left',
        List.forall₂_cons, List.forall₂_nil_left_iff, and_true, Option.map_eq_some_iff]
      constructor
      · rintro ⟨_, hitems, rfl⟩
        exact hitems
      · intro hitems
        exact ⟨_, hitems, rfl⟩
    | [] | _ :: _ :: _ => simp

end Diagnostics

namespace Schema.ReservedWords

/-- A set of words is spelled by a list of its words, in any order. -/
def Spelled (r : ReservedWords) (j : Json) : Prop :=
  ∃ ws, j = ofTexts ws ∧ ∀ w, w ∈ ws ↔ w ∈ r.words

theorem mem_ofList {ws : List String} {w : String} : w ∈ (ofList ws).words ↔ w ∈ ws := by
  have h := @contains_extend empty ws w
  simpa [contains, ofList, empty] using congrArg (· = true) h

theorem ofList_eq_iff {ws : List String} {r : ReservedWords} :
    ofList ws = r ↔ ∀ w, w ∈ ws ↔ w ∈ r.words := by
  constructor
  · rintro rfl w
    exact mem_ofList.symm
  · intro h
    -- both lists increase and have the same members
    have hmem : ∀ w, w ∈ (ofList ws).words ↔ w ∈ r.words := fun w => mem_ofList.trans (h w)
    have hperm := (List.perm_ext_iff_of_nodup (ofList ws).increasing.nodup
      r.increasing.nodup).mpr hmem
    exact ext (hperm.eq_of_pairwise (fun _ _ _ _ hlt hgt => absurd hlt hgt.not_gt)
      (ofList ws).increasing r.increasing)

theorem reads : Reads ofJson? Spelled := by
  intro j r
  simp only [ofJson?, Option.map_eq_some_iff, reads_texts _ _, ofList_eq_iff, Spelled]

end Schema.ReservedWords

theorem Checksum.reads : Reads Checksum.ofJson? fun c j => j = .str c.text := by
  intro j c
  simp only [ofJson?, Option.map_eq_some_iff, reads_text _ _]
  constructor
  · rintro ⟨s, rfl, rfl⟩
    rfl
  · rintro rfl
    exact ⟨_, rfl, rfl⟩

/-! ### What is written reads back -/

namespace Json

section
variable {α : Type} {domain : α → Prop} {write : α → Json} {read : Json → Option α}
  {spells : α → Json → Prop}

/-- The value of a text, and the text that is written for it. -/
def reread (write : α → Json) (read : Json → Option α) (text : String) : Option (α × String) :=
  ((read? text).bind read).map fun a => (a, (write a).compact)

/-- **A faithful form** of the values of a domain.  Exactly the spellings of a value are read as it,
the text of a value reads back as the value, and whatever is accepted is written as a text that
gives the same value and the same text again. -/
structure Faithful (domain : α → Prop) (write : α → Json) (read : Json → Option α)
    (spells : α → Json → Prop) : Prop where
  accepts : ∀ j a, read j = some a ↔ spells a j
  returns : ∀ a, domain a → (read? (write a).compact).bind read = some a
  settles : ∀ j a, read j = some a →
    reread write read (write a).compact = some (a, (write a).compact)

/-- A form is faithful when what is written is a spelling and no other values are spelled. -/
theorem faithful_of_reads (accepts : Reads read spells)
    (written : ∀ a, domain a → spells a (write a)) (inside : ∀ a j, spells a j → domain a) :
    Faithful domain write read spells := by
  have returns : ∀ a, domain a → (read? (write a).compact).bind read = some a := by
    intro a ha
    rw [read?_compact]
    exact (accepts _ a).mpr (written a ha)
  refine ⟨accepts, returns, fun j a hread => ?_⟩
  rw [reread, returns a (inside a j ((accepts j a).mp hread))]
  rfl

theorem perhaps_ofOption (write : α → Json) (o : Option α) :
    Perhaps (fun a j => j = write a) o (ofOption write o) := by
  cases o with
  | none => exact .null
  | some a => exact .given rfl

end

end Json

theorem NamingRules.spells_toJson (r : NamingRules) : Spells r.slots r.toJson :=
  spells_of_fields (show ["extra_reserved", "reserved_override"].Nodup by decide)
    (.cons ⟨rfl, rfl⟩ (.cons ⟨rfl, perhaps_ofOption _ _⟩ .nil))

theorem Profile.spells_toJson (p : Profile) : Spells p.slots p.toJson :=
  spells_of_fields
    (show ["language", "package", "record_name", "parser_name", "template_dir"].Nodup by decide)
    (.cons ⟨rfl, .text⟩ (.cons ⟨rfl, rfl⟩ (.cons ⟨rfl, rfl⟩ (.cons ⟨rfl, rfl⟩
      (.cons ⟨rfl, perhaps_ofOption _ _⟩ .nil)))))

theorem OutputRules.spells_toJson (o : OutputRules) : Spells o.slots o.toJson :=
  spells_of_fields (show ["dir", "record_file", "parser_file"].Nodup by decide)
    (.cons ⟨rfl, rfl⟩ (.cons ⟨rfl, perhaps_ofOption _ _⟩
      (.cons ⟨rfl, perhaps_ofOption _ _⟩ .nil)))

theorem Settings.spells_toJson (s : Settings) : Spells s.slots s.toJson :=
  spells_of_fields (show ["render", "naming", "output"].Nodup by decide)
    (.cons ⟨rfl, s.render.spells_toJson⟩ (.cons ⟨rfl, s.naming.spells_toJson⟩
      (.cons ⟨rfl, s.output.spells_toJson⟩ .nil)))

namespace Diagnostic

theorem spells_toJson {d : Diagnostic} (h : d.line < 2 ^ 64) : Spells d.slots d.toJson :=
  spells_of_fields (show ["line", "code", "message"].Nodup by decide)
    (.cons ⟨rfl, rfl, h⟩ (.cons ⟨rfl, .text⟩ (.cons ⟨rfl, rfl⟩ .nil)))

/-- Only a finding whose line number fits is spelled. -/
theorem line_lt_of_spells {d : Diagnostic} {j : Json} (h : Spells d.slots j) :
    d.line < 2 ^ 64 := by
  obtain ⟨vs, -, hfits⟩ := (spells_iff d.slots j).mp h
  obtain ⟨o, _, hline, -, -⟩ := List.forall₂_cons_left_iff.mp hfits
  cases o with
  | none => exact hline.elim
  | some v => exact hline.2

end Diagnostic

namespace Diagnostics

theorem spells_toJson {ds : Diagnostics} (h : ∀ d ∈ ds.items, d.line < 2 ^ 64) :
    Spells ds.slots ds.toJson := by
  have hitems : ItemsSpelled ds.items (.arr (ds.items.map Diagnostic.toJson)) := by
    refine ⟨_, rfl, ?_⟩
    rw [List.forall₂_map_left_iff, List.forall₂_same]
    exact fun d hd => Diagnostic.spells_toJson (h d hd)
  exact spells_of_fields (show ["items"].Nodup by decide) (.cons ⟨rfl, hitems⟩ .nil)

theorem line_lt_of_spells {ds : Diagnostics} {j : Json} (h : Spells ds.slots j) :
    ∀ d ∈ ds.items, d.line < 2 ^ 64 := by
  obtain ⟨vs, -, hfits⟩ := (spells_iff ds.slots j).mp h
  obtain ⟨o, _, hitems, -, -⟩ := List.forall₂_cons_left_iff.mp hfits
  cases o with
  | none => exact hitems.elim
  | some v =>
    obtain ⟨items, -, hspelled⟩ := hitems
    have hlines : List.Forall₂ (fun d j => d.line < 2 ^ 64 ∧ Spells d.slots j) ds.items items :=
      hspelled.flip.imp fun _ _ hd => ⟨Diagnostic.line_lt_of_spells hd, hd⟩
    exact ((List.forall₂_and_left _ _).mp hlines).1

end Diagnostics

/-- **The JSON forms are faithful.**  For sets of words, naming rules, profiles, output rules,
settings, findings, collections of findings and checksums: the text of a value reads back as the
value, and every JSON value that is accepted, in whatever order, with whatever unknown fields,
without fields that have their default, or as an array, is one of the stated spellings, and is
written as a text that gives the same value and the same text again. -/
theorem forms_faithful :
    Faithful (fun _ => True) ReservedWords.toJson ReservedWords.ofJson? ReservedWords.Spelled ∧
      Faithful (fun _ => True) NamingRules.toJson NamingRules.ofJson? (fun r => Spells r.slots) ∧
      Faithful (fun _ => True) Profile.toJson Profile.ofJson? (fun p => Spells p.slots) ∧
      Faithful (fun _ => True) OutputRules.toJson OutputRules.ofJson? (fun o => Spells o.slots) ∧
      Faithful (fun _ => True) Settings.toJson Settings.ofJson? (fun s => Spells s.slots) ∧
      Faithful (fun d => d.line < 2 ^ 64) Diagnostic.toJson Diagnostic.ofJson?
        (fun d => Spells d.slots) ∧
      Faithful (fun ds => ∀ d ∈ ds.items, d.line < 2 ^ 64) Diagnostics.toJson Diagnostics.ofJson?
        (fun ds => Spells ds.slots) ∧
      Faithful (fun _ => True) Checksum.toJson Checksum.ofJson? (fun c j => j = .str c.text) := by
  refine ⟨?_, ?_, ?_, ?_, ?_, ?_, ?_, ?_⟩
  · exact faithful_of_reads ReservedWords.reads (fun r _ => ⟨r.words, rfl, fun _ => Iff.rfl⟩)
      fun _ _ _ => trivial
  · exact faithful_of_reads NamingRules.reads (fun r _ => r.spells_toJson) fun _ _ _ => trivial
  · exact faithful_of_reads Profile.reads (fun p _ => p.spells_toJson) fun _ _ _ => trivial
  · exact faithful_of_reads OutputRules.reads (fun o _ => o.spells_toJson) fun _ _ _ => trivial
  · exact faithful_of_reads Settings.reads (fun s _ => s.spells_toJson) fun _ _ _ => trivial
  · exact faithful_of_reads Diagnostic.reads (fun _ => Diagnostic.spells_toJson)
      fun _ _ => Diagnostic.line_lt_of_spells
  · exact faithful_of_reads Diagnostics.reads (fun _ => Diagnostics.spells_toJson)
      fun _ _ => Diagnostics.line_lt_of_spells
  · exact faithful_of_reads Checksum.reads (fun _ _ => rfl) fun _ _ _ => trivial

example : (read? "[\"\\u006f\", null ]").bind OutputRules.ofJson? = some ⟨"o", none, none⟩ := by
  decide +kernel

end FlatFile
