import FlatFile.Proofs.LabelNames
import FlatFile.Proofs.RecordArtifacts

/-!
# Accessor names

Templates see every column under its name and under its name with the first character in upper
case, after which the accessors of a Java record are called.  Distinct texts may agree once they
start with a capital, as `abc` and `Abc` do.  Names of columns never start with one, so that the
first character of an accessor can be put back in lower case (`uncapitalize_pascalName`): distinct
names have distinct accessors (`nodup_pascalNames`).
-/

namespace FlatFile.Target
open Schema Text Template

/-! ### Capitalised names -/

/-- The characters of what may follow `get` in the name of an accessor: word characters, at least
one, and no digit first. -/
structure IsAccessorName (s : List Char) : Prop where
  ne_nil : s ≠ []
  word : ∀ c ∈ s, isWordChar c = true
  lead : startsWithDigit s = false

/-- The characters that may lead a name have no form of their own in the table. -/
theorem upperForm_of_lead {c : Char} (h : c.isLower = true ∨ c = '_') :
    upperForm c = [c.toUpper] := by
  have hlookup : upperForms.lookup c = none := by
    refine List.lookup_eq_none_iff.mpr fun q hq => bne_iff_ne.mpr ?_
    have hkey : ∀ q ∈ upperForms, q.1.isLower = false ∧ q.1 ≠ '_' := by decide
    rintro rfl
    rcases h with hlower | hunderscore
    · rw [(hkey q hq).1] at hlower
      cases hlower
    · exact (hkey q hq).2 hunderscore
  rw [upperForm, hlookup, Option.getD_none]

theorem isAlpha_of_isLower {c : Char} (h : c.isLower = true) : c.isAlpha = true := by
  simp [Char.isAlpha, h]

section Names
variable {name : String} (h : IsName name.toList)
include h

theorem toList_pascalName :
    ∃ c rest, name.toList = c :: rest ∧ (c.isLower = true ∨ c = '_') ∧
      (pascalName name).toList = c.toUpper :: rest := by
  obtain ⟨c, rest, hname, hlead⟩ := h.lead
  refine ⟨c, rest, hname, hlead, ?_⟩
  simp only [pascalName, hname, upperForm_of_lead hlead, String.toList_ofList,
    List.singleton_append]

/-- **The name is in its capitalised form**: it comes back with the first character in lower
case. -/
theorem uncapitalize_pascalName : uncapitalize (pascalName name).toList = name.toList := by
  obtain ⟨c, rest, hname, hlead, hpascal⟩ := toList_pascalName h
  rw [hpascal, hname, uncapitalize, Char.toLower_toUpper_eq_toLower, toLower_of_lead hlead]

theorem isAccessorName_pascalName : IsAccessorName (pascalName name).toList := by
  obtain ⟨c, rest, hname, hlead, hpascal⟩ := toList_pascalName h
  rw [hpascal]
  have hupper : isWordChar c.toUpper = true ∧ isDigit c.toUpper = false := by
    rcases hlead with hlower | rfl
    · have halpha : c.toUpper.isAlpha = true := by
        rw [Char.isAlpha_toUpper_eq_isAlpha, isAlpha_of_isLower hlower]
      exact ⟨isWordChar_of_isAlpha halpha, isDigit_of_isAlpha halpha⟩
    · decide
  refine ⟨List.cons_ne_nil _ _, ?_, hupper.2⟩
  intro d hd
  rcases List.mem_cons.mp hd with rfl | hd
  · exact hupper.1
  · exact h.word d (by rw [hname]; exact List.mem_cons_of_mem c hd)

end Names

/-- **Distinct names have distinct capitalised forms.** -/
theorem nodup_pascalNames {names : List String} (hnames : ∀ n ∈ names, IsName n.toList)
    (hdistinct : names.Nodup) : (names.map pascalName).Nodup := by
  refine hdistinct.map_on fun n hn m hm heq => ?_
  have hlists := congrArg (fun s : String => uncapitalize s.toList) heq
  simp only [uncapitalize_pascalName (hnames n hn), uncapitalize_pascalName (hnames m hm)] at hlists
  exact String.toList_inj.mp hlists

/-! ### Rows -/

/-- **What a template sees of the column at index `i`**, one of `count`: its name, the name of its
accessor, and whether it is the first and the last of them. -/
structure RowOf (count i : Nat) (c : Column) (accessor : String) (row : Scope) : Prop where
  name : row.lookup "name" = some (.text c.name)
  accessor : row.lookup "pascal_name" = some (.text accessor)
  first : row.lookup "first" = some (.flag (decide (i = 0)))
  last : row.lookup "last" = some (.flag (decide (i + 1 = count)))

theorem rowOf_columnScope (count i : Nat) (c : Column) :
    RowOf count i c (pascalName c.name) (columnScope count i c) := by
  constructor
  · rfl
  · rfl
  · rfl
  · rfl

theorem getElem?_columnScopes (columns : List Column) (i : Nat) :
    (columnScopes columns)[i]? = columns[i]?.map (columnScope columns.length i) := by
  rw [columnScopes, List.getElem?_map, List.getElem?_zipIdx, Option.map_map, Nat.zero_add]
  rfl

/-- The accessor of a Java record: its name, and the field it gives. -/
def javaGetter (accessor name : String) : String :=
  "    public String get" ++ accessor ++ "() \x7b\n        return " ++ name ++ ";\n    \x7d\n\n"

/-- The text of a Java record holds one accessor a column, in the order of the columns. -/
theorem javaText_getters (record package : String) (names : List String) :
    ∃ front back, javaText record package names = front ++
      String.join (List.zipWith javaGetter (names.map pascalName) names) ++ back := by
  have hgetters : List.zipWith javaGetter (names.map pascalName) names =
      names.map fun n => "    public String get" ++ pascalName n ++
        "() \x7b\n        return " ++ n ++ ";\n    \x7d\n\n" := by
    rw [List.zipWith_map_left, List.zipWith_self]
    rfl
  unfold javaText
  rw [hgetters]
  -- the five texts behind the accessors are put together
  rw [String.append_assoc, String.append_assoc, String.append_assoc, String.append_assoc]
  exact ⟨_, _, rfl⟩

end FlatFile.Target

namespace FlatFile.Compilation
open Schema Target

/-- **Accessors never collide.**  Templates see one row a column of a compiled layout, in order.
The names of the accessors are distinct, and each is made of word characters, at least one and no
digit first; so the methods of the accessors are distinct too.  The Java record, whose text is
known, has these accessors one after the other, each for its column.  Exactly the first row is
marked as the first, and exactly the last as the last. -/
theorem accessors_never_collide (reserved : ReservedWords) (raws : List String) (c : Compilation)
    (p : Profile) (h : (ofLines reserved raws).result = .ok c) :
    ∃ (rows : List Template.Scope) (accessors : List String),
      (scope c.layout p).lookup "columns" = some (.list rows) ∧
      rows ≠ [] ∧ rows.length = c.layout.columns.length ∧
      accessors.length = c.layout.columns.length ∧
      (∀ (i : Nat) col row accessor, c.layout.columns[i]? = some col → rows[i]? = some row →
        accessors[i]? = some accessor → RowOf rows.length i col accessor row) ∧
      accessors.Nodup ∧ (∀ accessor ∈ accessors, IsAccessorName accessor.toList) ∧
      (accessors.map fun accessor => "get" ++ accessor).Nodup ∧
      (p.language = .java → p.templateDir = none → ∀ tree, ∃ a front back,
        Artifacts.emit tree p c.layout = .ok a ∧
        a.record.contents =
          javaText p.recordName p.package (c.layout.columns.map Column.name) ∧
        a.record.contents = front ++ String.join (List.zipWith javaGetter accessors
          (c.layout.columns.map Column.name)) ++ back) := by
  obtain ⟨hne, hlawful, -⟩ := lawful_of_ofLines h
  have hnames : ∀ n ∈ c.layout.columns.map Column.name, IsName n.toList := by
    intro n hn
    obtain ⟨col, hcol, rfl⟩ := List.mem_map.mp hn
    exact (hlawful.fits col hcol).named
  have hdistinct := nodup_pascalNames hnames hlawful.distinct
  have hlength : (columnScopes c.layout.columns).length = c.layout.columns.length := by
    simp [columnScopes]
  refine ⟨columnScopes c.layout.columns, (c.layout.columns.map Column.name).map pascalName, rfl, ?_,
    hlength, by simp, ?_, hdistinct, ?_, ?_, ?_⟩
  · rw [← List.length_pos_iff, hlength]
    exact List.length_pos_iff.mpr hne
  · intro i col row accessor hcol hrow haccessor
    rw [getElem?_columnScopes, hcol] at hrow
    rw [List.getElem?_map, List.getElem?_map, hcol] at haccessor
    obtain rfl := Option.some.inj hrow
    obtain rfl := Option.some.inj haccessor
    rw [hlength]
    exact rowOf_columnScope _ i col
  · intro accessor haccessor
    obtain ⟨n, hn, rfl⟩ := List.mem_map.mp haccessor
    exact isAccessorName_pascalName (hnames n hn)
  · exact hdistinct.map fun _ _ heq => (String.append_right_inj _).mp heq
  · intro hjava hdir tree
    obtain ⟨a, ha, hrecord⟩ := Artifacts.exists_record tree hdir hne
    obtain ⟨front, back, htext⟩ :=
      javaText_getters p.recordName p.package (c.layout.columns.map Column.name)
    have hcontents : a.record.contents =
        javaText p.recordName p.package (c.layout.columns.map Column.name) := by
      rw [hrecord, recordText, hjava]
    exact ⟨a, front, back, ha, hcontents, hcontents.trans htext⟩

/-- Names that differ in capitals behind the first character, or in an underscore before it. -/
theorem accessors_never_collide_capitals :
    (ofLines .empty ["Abc 1 2", "aBC 3 4", "x 5 6", "_x 7 8"]).result
        = .ok ⟨⟨[⟨"abc", 1, 2⟩, ⟨"aBC", 3, 4⟩, ⟨"x", 5, 6⟩, ⟨"_x", 7, 8⟩]⟩, ⟨[]⟩⟩ ∧
      ∃ accessors : List String, accessors.length = 4 ∧
        (accessors.map fun accessor => "get" ++ accessor).Nodup ∧
        (∀ accessor ∈ accessors, IsAccessorName accessor.toList) ∧
        ∃ a front back, Artifacts.emit {} { language := .java }
            ⟨[⟨"abc", 1, 2⟩, ⟨"aBC", 3, 4⟩, ⟨"x", 5, 6⟩, ⟨"_x", 7, 8⟩]⟩ = .ok a ∧
          a.record.contents = javaText "Record" "org.example" ["abc", "aBC", "x", "_x"] ∧
          a.record.contents = front ++ String.join (List.zipWith javaGetter accessors
            ["abc", "aBC", "x", "_x"]) ++ back := by
  have hc : (ofLines .empty ["Abc 1 2", "aBC 3 4", "x 5 6", "_x 7 8"]).result
      = .ok ⟨⟨[⟨"abc", 1, 2⟩, ⟨"aBC", 3, 4⟩, ⟨"x", 5, 6⟩, ⟨"_x", 7, 8⟩]⟩, ⟨[]⟩⟩ := by
    decide +kernel
  obtain ⟨-, accessors, -, -, -, hlength, -, -, hwords, hmethods, hjava⟩ :=
    accessors_never_collide _ _ _ { language := .java } hc
  exact ⟨hc, accessors, hlength, hmethods, hwords, hjava rfl rfl {}⟩

end FlatFile.Compilation
