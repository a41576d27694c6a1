import FlatFile.Proofs.ParserArtifacts

/-!
# Generated records

The text of a record type, written out for each language (`recordText`): it depends on the names of
the columns, in order, and on the profile.  The built-in templates of the records are put together
from few pieces (`Piece`), of which three go through the columns: with a text for each of them, with
commas between these texts, or with a comma inside the text of every column but the first.  Each
piece is a node of the template and shows a text (`renderNode_piece`), so that a template renders to
the texts of its pieces one after the other.
-/

namespace FlatFile.Target

open Template

/-! ### Texts that go through the columns -/

/-- A text for every name, one after the other. -/
def each (text : String → String) (names : List String) : String := String.join (names.map text)

/-- A text for every name, with commas between them. -/
def listed (text : String → String) (names : List String) : String :=
  ", ".intercalate (names.map text)

/-- A text for every name, one after the other, each behind the same lead; in all but the first a
comma follows the lead. -/
def led (lead : String) (text : String → String) : List String → String
  | [] => ""
  | name :: names =>
    lead ++ text name ++ String.join (names.map fun other => lead ++ ", " ++ text other)

theorem map_zipIdx_fst {α : Type} (f : α → String) (items : List α) (k : Nat) :
    (items.zipIdx k).map (fun q => f q.1) = items.map f := by
  have hfst : (items.zipIdx k).map Prod.fst = items := List.zipIdx_map_fst k items
  calc (items.zipIdx k).map (fun q => f q.1)
      = ((items.zipIdx k).map Prod.fst).map f := by rw [List.map_map]; rfl
    _ = items.map f := by rw [hfst]

/-- The commas of a list are behind all texts but the last. -/
theorem join_zipIdx_listed (text : String → String) (names : List String) (k count : Nat)
    (h : k + names.length = count) :
    String.join ((names.zipIdx k).map fun q => text q.1 ++ if q.2 + 1 == count then "" else ", ")
      = listed text names := by
  induction names generalizing k with
  | nil => rfl
  | cons name names ih =>
    rw [List.zipIdx_cons, List.map_cons, String.join_cons]
    rw [List.length_cons] at h
    rw [ih (k + 1) (by omega)]
    cases names with
    | nil =>
      rw [List.length_nil] at h
      simp [listed, h]
    | cons other names =>
      have hne : (k + 1 == count) = false := by
        rw [List.length_cons] at h
        simp only [beq_eq_false_iff_ne]
        omega
      simp [listed, hne]

/-- Only the first name has no comma behind its lead. -/
theorem join_zipIdx_led (lead : String) (text : String → String) (names : List String) :
    String.join (names.zipIdx.map fun q => lead ++ ((if q.2 == 0 then "" else ", ") ++ text q.1))
      = led lead text names := by
  cases names with
  | nil => rfl
  | cons name names =>
    have hothers : (names.zipIdx 1).map
        (fun q => lead ++ ((if q.2 == 0 then "" else ", ") ++ text q.1))
          = names.map fun other => lead ++ ", " ++ text other := by
      rw [← map_zipIdx_fst (fun other => lead ++ ", " ++ text other) names 1]
      refine List.map_congr_left fun q hq => ?_
      have hpos : (q.2 == 0) = false := by
        have hle := List.le_snd_of_mem_zipIdx hq
        simp only [beq_eq_false_iff_ne]
        omega
      simp only [hpos, Bool.false_eq_true, if_false, String.append_assoc]
    rw [List.zipIdx_cons, List.map_cons, String.join_cons, hothers]
    simp [led, String.append_assoc]

/-! ### The text of a record -/

/-- The text of a Kotlin record. -/
def kotlinText (record package : String) (names : List String) : String :=
  packageLines .kotlin package ++ "class " ++ record ++ "(" ++
    listed (fun n => "private val " ++ n ++ ": String") names ++
    ") \x7b\n    override fun toString(): String \x7b\n        return \"" ++ record ++ " \x7b" ++
    listed (fun n => n ++ "='$" ++ n ++ "'") names ++ "\x7d\"\n    \x7d\n\x7d\n"

/-- The text of a Java record. -/
def javaText (record package : String) (names : List String) : String :=
  packageLines .java package ++ "public class " ++ record ++ " \x7b\n" ++
    each (fun n => "    private final String " ++ n ++ ";\n") names ++
    "\n    public " ++ record ++ "(" ++ listed (fun n => "String " ++ n) names ++ ") \x7b\n" ++
    each (fun n => "        this." ++ n ++ " = " ++ n ++ ";\n") names ++ "    \x7d\n\n" ++
    each (fun n => "    public String get" ++ pascalName n ++ "() \x7b\n        return " ++ n ++
      ";\n    \x7d\n\n") names ++
    "    @Override\n    public String toString() \x7b\n        return \"" ++ record ++
    " \x7b\" +\n" ++
    led "                \"" (fun n => n ++ "='\" + " ++ n ++ " + \"'\" +\n") names ++
    "                \"\x7d\";\n    \x7d\n\x7d\n"

/-- The text of a Rust record. -/
def rustText (record : String) (names : List String) : String :=
  "use std::fmt;\n\n#[allow(non_snake_case)]\n#[derive(Debug, Clone, PartialEq, Eq)]\npub struct " ++
    record ++ " \x7b\n" ++ each (fun n => "    pub " ++ n ++ ": String,\n") names ++
    "\x7d\n\nimpl fmt::Display for " ++ record ++
    " \x7b\n    fn fmt(&self, f: &mut fmt::Formatter<'_>) -> fmt::Result \x7b\n        f.write_str(\"" ++
    record ++ " \x7b\")?;\n" ++
    led "        write!(f, \"" (fun n => n ++ "='\x7b\x7d'\", self." ++ n ++ ")?;\n") names ++
    "        f.write_str(\"\x7d\")\n    \x7d\n\x7d\n"

/-- The text of the record of a profile, over the names of the columns. -/
def recordText (p : Profile) (names : List String) : String :=
  match p.language with
  | .kotlin => kotlinText p.recordName p.package names
  | .java => javaText p.recordName p.package names
  | .rust => rustText p.recordName names

/-! ### Pieces of a template -/

/-- A part of what a template writes for a column. -/
inductive Part where
  | text (s : String)
  | name
  /-- The name with its first character in upper case. -/
  | pascalName

/-- The node of a part. -/
def Part.node : Part → Node
  | .text s => .text s
  | .name => .value "name"
  | .pascalName => .value "pascal_name"

/-- What a part shows for a name. -/
def Part.shown (name : String) : Part → String
  | .text s => s
  | .name => name
  | .pascalName => Target.pascalName name

/-- What parts show for a name, one after the other. -/
def cellText (parts : List Part) (name : String) : String :=
  String.join (parts.map (Part.shown name))

/-- A piece of the template of a record. -/
inductive Piece where
  | text (s : String)
  /-- The name of the record type. -/
  | typeName
  /-- The parts for every column. -/
  | each (parts : List Part)
  /-- The parts for every column, with commas between the columns. -/
  | listed (parts : List Part)
  /-- A lead and the parts for every column, with a comma behind the lead of all but the first. -/
  | led (lead : String) (parts : List Part)

/-- The node of a piece. -/
def Piece.node : Piece → Node
  | .text s => .text s
  | .typeName => .value "record_name"
  | .each parts => .group "columns" false (parts.map Part.node)
  | .listed parts =>
    .group "columns" false (parts.map Part.node ++ [.group "last" true [.text ", "]])
  | .led lead parts =>
    .group "columns" false (.text lead :: .group "first" true [.text ", "] :: parts.map Part.node)

/-- What a piece shows. -/
def Piece.shown (record : String) (names : List String) : Piece → String
  | .text s => s
  | .typeName => record
  | .each parts => Target.each (cellText parts) names
  | .listed parts => Target.listed (cellText parts) names
  | .led lead parts => Target.led lead (cellText parts) names

/-- The pieces of the template of a record, behind the package. -/
def recordPieces : Language → List Piece
  | .kotlin =>
    [.text "class ", .typeName, .text "(",
     .listed [.text "private val ", .name, .text ": String"],
     .text ") \x7b\n    override fun toString(): String \x7b\n        return \"", .typeName,
     .text " \x7b", .listed [.name, .text "='$", .name, .text "'"],
     .text "\x7d\"\n    \x7d\n\x7d\n"]
  | .java =>
    [.text "public class ", .typeName, .text " \x7b\n",
     .each [.text "    private final String ", .name, .text ";\n"],
     .text "\n    public ", .typeName, .text "(", .listed [.text "String ", .name],
     .text ") \x7b\n", .each [.text "        this.", .name, .text " = ", .name, .text ";\n"],
     .text "    \x7d\n\n",
     .each [.text "    public String get", .pascalName, .text "() \x7b\n        return ", .name,
       .text ";\n    \x7d\n\n"],
     .text "    @Override\n    public String toString() \x7b\n        return \"", .typeName,
     .text " \x7b\" +\n",
     .led "                \"" [.name, .text "='\" + ", .name, .text " + \"'\" +\n"],
     .text "                \"\x7d\";\n    \x7d\n\x7d\n"]
  | .rust =>
    [.text "use std::fmt;\n\n#[allow(non_snake_case)]\n#[derive(Debug, Clone, PartialEq, Eq)]\npub struct ",
     .typeName, .text " \x7b\n", .each [.text "    pub ", .name, .text ": String,\n"],
     .text "\x7d\n\nimpl fmt::Display for ", .typeName,
     .text " \x7b\n    fn fmt(&self, f: &mut fmt::Formatter<'_>) -> fmt::Result \x7b\n        f.write_str(\"",
     .typeName, .text " \x7b\")?;\n",
     .led "        write!(f, \"" [.name, .text "='\x7b\x7d'\", self.", .name, .text ")?;\n"],
     .text "        f.write_str(\"\x7d\")\n    \x7d\n\x7d\n"]

/-- The nodes of the template of a record. -/
def recordNodes (l : Language) : List Node := packageNodes l ++ (recordPieces l).map Piece.node

set_option maxRecDepth 100000 in
theorem passes_recordNodes (l : Language) :
    passes (fun nodes => nodes = recordNodes l)
      (build [] [] (tokens (sourceChars (Builtin.lines l .record)))) = true := by
  cases l <;>
  · simp only [sourceChars, Builtin.lines, Builtin.kotlinRecord, Builtin.javaRecord,
      Builtin.rustRecord, List.flatMap_cons, List.flatMap_nil]
    repeat rw [String.toList_ofList]
    decide +kernel

theorem parse_record (l : Language) :
    Template.parse (Builtin.source l .record) = .ok ⟨recordNodes l⟩ := by
  obtain ⟨nodes, hparse, hnodes⟩ := parse_source (passes_recordNodes l)
  obtain rfl := of_decide_eq_true hnodes
  exact hparse

theorem cellText_eq (parts : List Part) :
    cellText parts = fun name => String.join (parts.map (Part.shown name)) := rfl

/-- The texts of the pieces, behind the package, make the text of the record. -/
theorem join_recordPieces (p : Profile) (names : List String) :
    packageLines p.language p.package ++
        String.join ((recordPieces p.language).map (Piece.shown p.recordName names))
      = recordText p names := by
  rw [recordText]
  cases p.language with
  | kotlin =>
    unfold kotlinText
    simp only [recordPieces, Piece.shown, cellText_eq, Part.shown, List.map_cons, List.map_nil,
      String.join_cons, String.join_nil, String.append_assoc, String.append_empty]
  | java =>
    unfold javaText
    simp only [recordPieces, Piece.shown, cellText_eq, Part.shown, List.map_cons, List.map_nil,
      String.join_cons, String.join_nil, String.append_assoc, String.append_empty]
  | rust =>
    have htext : String.join ((recordPieces .rust).map (Piece.shown p.recordName names))
        = rustText p.recordName names := by
      unfold rustText
      simp only [recordPieces, Piece.shown, cellText_eq, Part.shown, List.map_cons, List.map_nil,
        String.join_cons, String.join_nil, String.append_assoc, String.append_empty]
    exact String.empty_append.trans htext

/-! ### Rendering the pieces -/

section Render
variable (layout : Layout) (p : Profile)

/-- Parts render to what they show for the name of the column. -/
theorem renderNodes_cell (parts : List Part) (count index : Nat) (c : Column) :
    renderNodes (parts.map Part.node) [columnScope count index c, scope layout p]
      = .ok (cellText parts c.name) := by
  have hname : find [columnScope count index c, scope layout p] "name" = .ok (.text c.name) := by
    simp [find, columnScope, List.lookup]
  have hpascal : find [columnScope count index c, scope layout p] "pascal_name"
      = .ok (.text (pascalName c.name)) := by
    simp [find, columnScope, List.lookup]
  induction parts with
  | nil => rfl
  | cons part parts ih =>
    have hcell : cellText (part :: parts) c.name
        = part.shown c.name ++ cellText parts c.name := by
      rw [cellText, List.map_cons, String.join_cons, ← cellText]
    rw [hcell, List.map_cons]
    refine renderNodes_cons_ok ?_ ih
    cases part with
    | text s => rfl
    | name => rw [Part.node, renderNode, hname]; rfl
    | pascalName => rw [Part.node, renderNode, hpascal]; rfl

/-- A section over the columns renders when its body does, in the scope of each of them. -/
theorem renderNode_section {body : List Node} (text : String → Nat → String)
    (h : ∀ index c, renderNodes body
      [columnScope layout.columns.length index c, scope layout p] = .ok (text c.name index)) :
    renderNode (.group "columns" false body) [scope layout p]
      = .ok (String.join ((layout.columns.map Column.name).zipIdx.map fun q => text q.1 q.2)) := by
  have hrows : find [scope layout p] "columns" = .ok (.list (layout.columns.zipIdx.map fun q =>
      columnScope layout.columns.length q.2 q.1)) := rfl
  rw [renderNode_rows hrows fun q _ => h q.2 q.1, List.zipIdx_map, List.map_map]
  rfl

/-- **Every piece renders to what it shows.** -/
theorem renderNode_piece (piece : Piece) :
    renderNode piece.node [scope layout p]
      = .ok (piece.shown p.recordName (layout.columns.map Column.name)) := by
  cases piece with
  | text s => rfl
  | typeName => rfl
  | each parts =>
    rw [Piece.node, renderNode_section layout p (fun name _ => cellText parts name)
      fun index c => renderNodes_cell layout p parts _ index c, map_zipIdx_fst]
    rfl
  | listed parts =>
    have hbody : ∀ index c, renderNodes (parts.map Part.node ++ [.group "last" true [.text ", "]])
        [columnScope layout.columns.length index c, scope layout p]
          = .ok (cellText parts c.name ++
              if index + 1 == layout.columns.length then "" else ", ") := by
      intro index c
      refine renderNodes_append_ok (renderNodes_cell layout p parts _ index c) ?_
      refine renderNodes_singleton_ok (renderNode_unless ?_ ", ")
      simp [find, columnScope, List.lookup]
    rw [Piece.node, renderNode_section layout p (fun name index => cellText parts name ++
      if index + 1 == layout.columns.length then "" else ", ") hbody, join_zipIdx_listed]
    · rfl
    · simp
  | led lead parts =>
    have hbody : ∀ index c, renderNodes
        (.text lead :: .group "first" true [.text ", "] :: parts.map Part.node)
        [columnScope layout.columns.length index c, scope layout p]
          = .ok (lead ++ ((if index == 0 then "" else ", ") ++ cellText parts c.name)) := by
      intro index c
      refine renderNodes_cons_ok rfl (renderNodes_cons_ok (renderNode_unless ?_ ", ")
        (renderNodes_cell layout p parts _ index c))
      simp [find, columnScope, List.lookup]
    rw [Piece.node, renderNode_section layout p (fun name index => lead ++
      ((if index == 0 then "" else ", ") ++ cellText parts name)) hbody, join_zipIdx_led]
    rfl

theorem renderNodes_pieces (pieces : List Piece) :
    renderNodes (pieces.map Piece.node) [scope layout p]
      = .ok (String.join (pieces.map
          (Piece.shown p.recordName (layout.columns.map Column.name)))) := by
  induction pieces with
  | nil => rfl
  | cons piece pieces ih =>
    rw [List.map_cons, List.map_cons, String.join_cons]
    exact renderNodes_cons_ok (renderNode_piece layout p piece) ih

/-- **The built-in template of a record renders to the text of the record.** -/
theorem renderNodes_record :
    renderNodes (recordNodes p.language) [scope layout p]
      = .ok (recordText p (layout.columns.map Column.name)) := by
  rw [← join_recordPieces]
  exact renderNodes_append_ok (renderNodes_package layout p) (renderNodes_pieces layout p _)

end Render

end FlatFile.Target

namespace FlatFile

open Schema Target

/-- **A layout with columns has artifacts, and its record is known.** -/
theorem Artifacts.exists_record (tree : FileTree) {p : Profile} {layout : Layout}
    (hdir : p.templateDir = none) (hcolumns : layout.columns ≠ []) :
    ∃ a, emit tree p layout = .ok a ∧
      a.record = ⟨.record, p.recordFile, recordText p (layout.columns.map Column.name)⟩ := by
  obtain ⟨front, back, after, hparser, hfront, hback, hafter⟩ := parser_parts p.language
  refine ⟨_, emit_builtin hdir hcolumns (parse_record p.language) hparser
    (renderNodes_record layout p) (renderNodes_parts layout p hfront hback hafter), rfl⟩

namespace Compilation

/-- **Generated records list the columns.**  The built-in templates always give a record for a
compiled layout, and its text is the one written out for the language, over the names of the
columns: each place that has a text for a column has one for every column, in the order of the
layout, with commas only between them, and all else depends on the profile only.  So layouts with
the same names in the same order have the same record, wherever their columns stand. -/
theorem emit_record_lists_columns (tree : FileTree) (reserved : ReservedWords) (raws : List String)
    (c : Compilation) (p : Profile) (hc : (ofLines reserved raws).result = .ok c)
    (hdir : p.templateDir = none) :
    ∃ a, Artifacts.emit tree p c.layout = .ok a ∧
      a.record = ⟨.record, p.recordFile, recordText p (c.layout.columns.map Column.name)⟩ ∧
      ∀ tree' reserved' raws' c', (ofLines reserved' raws').result = .ok c' →
        c'.layout.columns.map Column.name = c.layout.columns.map Column.name →
        ∃ a', Artifacts.emit tree' p c'.layout = .ok a' ∧ a'.record = a.record := by
  obtain ⟨hcolumns, -, -⟩ := lawful_of_ofLines hc
  obtain ⟨a, ha, hrecord⟩ := Artifacts.exists_record tree hdir hcolumns
  refine ⟨a, ha, hrecord, ?_⟩
  intro tree' reserved' raws' c' hc' hnames
  obtain ⟨hcolumns', -, -⟩ := lawful_of_ofLines hc'
  obtain ⟨a', ha', hrecord'⟩ := Artifacts.exists_record tree' hdir hcolumns'
  exact ⟨a', ha', by rw [hrecord', hrecord, hnames]⟩

/-- Two columns in Kotlin, without a package; moved to other places they have the same record. -/
theorem emit_record_two_columns :
    (ofLines (.ofList ["fun"]) ["flag 0 1", "name 1 3"]).result
        = .ok ⟨⟨[⟨"flag", 0, 1⟩, ⟨"name", 1, 3⟩]⟩, ⟨[]⟩⟩ ∧
      ∃ a a', Artifacts.emit {} { package := "" } ⟨[⟨"flag", 0, 1⟩, ⟨"name", 1, 3⟩]⟩ = .ok a ∧
        a.record.contents = "class Record(private val flag: String, private val name: String) \x7b\n    override fun toString(): String \x7b\n        return \"Record \x7bflag='$flag', name='$name'\x7d\"\n    \x7d\n\x7d\n" ∧
        Artifacts.emit {} { package := "" } ⟨[⟨"flag", 4, 9⟩, ⟨"name", 20, 30⟩]⟩ = .ok a' ∧
        a'.record = a.record := by
  have hc : (ofLines (.ofList ["fun"]) ["flag 0 1", "name 1 3"]).result
      = .ok ⟨⟨[⟨"flag", 0, 1⟩, ⟨"name", 1, 3⟩]⟩, ⟨[]⟩⟩ := rfl
  have hc' : (ofLines .empty ["Flag 4 9", "name 20 30"]).result
      = .ok ⟨⟨[⟨"flag", 4, 9⟩, ⟨"name", 20, 30⟩]⟩, ⟨[]⟩⟩ := by decide +kernel
  have htext : recordText { package := "" } ["flag", "name"]
      = "class Record(private val flag: String, private val name: String) \x7b\n    override fun toString(): String \x7b\n        return \"Record \x7bflag='$flag', name='$name'\x7d\"\n    \x7d\n\x7d\n" := by
    decide +kernel
  obtain ⟨a, ha, hrecord, hsame⟩ :=
    emit_record_lists_columns {} _ _ _ { package := "" } hc rfl
  obtain ⟨a', ha', heq⟩ := hsame {} _ _ _ hc' rfl
  refine ⟨hc, a, a', ha, ?_, ha', heq⟩
  rw [hrecord, ← htext]
  rfl

end Compilation

end FlatFile
