import FlatFile.Artifact.Emit
import FlatFile.Proofs.ColumnReading
import FlatFile.Proofs.Rendering

/-!
# Generated parsers

The built-in templates of the parsers are known up to the nodes that only use the names of the two
types (`parser_parts`): the package, the required length, and the section over the columns.  What a
template with these parts renders to is then computed part by part (`renderNodes_parts`), and the
positions it writes are those the layout reads at (`read?_eq_spans`).
-/

namespace FlatFile.Target

open Template

/-! ### Lines of a parser -/

/-- What ends the package line, in a language with packages. -/
def packageEnd : Language → Option String
  | .kotlin => some "\n\n"
  | .java => some ";\n\n"
  | .rust => none

/-- The lines that declare a package; an empty one is not declared. -/
def packageLines (l : Language) (package : String) : String :=
  match packageEnd l with
  | none => ""
  | some ending => if package.isEmpty then "" else "package " ++ package ++ ending

/-- What stands before the required length in its line. -/
def lengthBefore : Language → String
  | .kotlin => "        if (line.length != "
  | .java => "    public static final int LINE_LENGTH = "
  | .rust => "    pub const LINE_LENGTH: usize = "

/-- What stands behind the required length in its line. -/
def lengthAfter : Language → String
  | .kotlin => ") \x7b\n"
  | .java | .rust => ";\n"

/-- The line with the required length. -/
def lengthLine (l : Language) (n : Nat) : String :=
  lengthBefore l ++ toString n ++ lengthAfter l

/-- The line that reads a column. -/
def columnLine : Language → Bool → Column → String
  | .kotlin, _, c =>
    "            " ++ c.name ++ " = extractField(line, " ++ toString c.offset ++ ", " ++
      toString c.last ++ "),\n"
  | .java, isLast, c =>
    "                extractField(line, " ++ toString c.offset ++ ", " ++ toString c.last ++ ")" ++
      (if isLast then "" else ",") ++ "\n"
  | .rust, _, c =>
    "            " ++ c.name ++ ": field(" ++ toString c.offset ++ ", " ++ toString c.last ++
      "),\n"

/-- The lines that read the columns, in order. -/
def columnLines (l : Language) (columns : List Column) : List String :=
  columns.zipIdx.map fun p => columnLine l (p.2 + 1 == columns.length) p.1

/-! ### Parts of a template -/

/-- The nodes of the package. -/
def packageNodes (l : Language) : List Node :=
  match packageEnd l with
  | none => []
  | some ending => [.group "package" false [.text "package ", .value "package", .text ending]]

/-- The first text behind the package. -/
def opening : Language → String
  | .kotlin => "import java.io.File\nimport java.io.IOException\n\nclass "
  | .java =>
    "import java.io.BufferedReader;\nimport java.io.FileReader;\nimport java.io.IOException;\nimport java.util.ArrayList;\nimport java.util.List;\n\npublic class "
  | .rust => "use std::io::BufRead;\n\nuse super::"

/-- What stands between the last name and the line with the required length. -/
def aboveLength : Language → String
  | .kotlin => "? \x7b\n"
  | .java | .rust => " \x7b\n"

/-- What stands between the line with the required length and the next name. -/
def belowLength : Language → String
  | .kotlin => "            return null\n        \x7d\n        return "
  | .java => "\n    public List<"
  | .rust => "\n    pub fn parse_line(line: &str) -> Option<"

/-- The nodes of the required length. -/
def lengthNodes (l : Language) : List Node :=
  [.text (aboveLength l ++ lengthBefore l), .value "line_end",
   .text (lengthAfter l ++ belowLength l)]

/-- The nodes in the section over the columns. -/
def columnNodes : Language → List Node
  | .kotlin =>
    [.text "            ", .value "name", .text " = extractField(line, ", .value "offset",
     .text ", ", .value "end", .text "),\n"]
  | .java =>
    [.text "                extractField(line, ", .value "offset", .text ", ", .value "end",
     .text ")", .group "last" true [.text ","], .text "\n"]
  | .rust =>
    [.text "            ", .value "name", .text ": field(", .value "offset", .text ", ",
     .value "end", .text "),\n"]

/-- The variables that hold the names of the two types. -/
def nameKinds : Kinds := [("record_name", .scalar), ("parser_name", .scalar)]

/-- A node that uses only the names of the two types. -/
def plain (n : Node) : Bool := n.scoped nameKinds

/-- Nodes with the parts of a parser, and plain ones before, between and behind them. -/
def isParser (l : Language) (nodes : List Node) : Bool :=
  let body := nodes.drop (packageNodes l).length
  let behind := body.dropWhile plain
  let tail := behind.tail.dropWhile plain
  nodes.take (packageNodes l).length = packageNodes l ∧
  (body.takeWhile plain).head? = some (.text (opening l)) ∧
  (body.takeWhile plain).tail.getLast? = some (.text (aboveLength l ++ lengthBefore l)) ∧
  behind.head? = some (.value "line_end") ∧
  (behind.tail.takeWhile plain).head? = some (.text (lengthAfter l ++ belowLength l)) ∧
  tail.head? = some (.group "columns" false (columnNodes l)) ∧
  tail.tail.all plain

/-- Whether a tree was built and passes a check. -/
def passes (check : List Node → Bool) : Except TemplateError (List Node) → Bool
  | .ok nodes => check nodes
  | .error _ => false

/-- The characters of a template that is listed line by line. -/
def sourceChars (lines : List String) : List Char :=
  lines.flatMap fun l => l.toList.flatMap Builtin.braces ++ ['\n']

theorem parse_source {l : Language} {kind : ArtifactKind} {check : List Node → Bool}
    (h : passes check (build [] [] (tokens (sourceChars (Builtin.lines l kind)))) = true) :
    ∃ nodes, Template.parse (Builtin.source l kind) = .ok ⟨nodes⟩ ∧ check nodes = true := by
  have hparse : Template.parse (Builtin.source l kind)
      = (build [] [] (tokens (sourceChars (Builtin.lines l kind)))).map Template.mk := by
    rw [Template.parse, Builtin.source, Builtin.sourceOf, String.toList_ofList]
    rfl
  cases hbuild : build [] [] (tokens (sourceChars (Builtin.lines l kind))) with
  | error e => rw [hbuild] at h; exact nomatch h
  | ok nodes =>
    rw [hbuild] at h hparse
    exact ⟨nodes, hparse, h⟩

-- the characters of a line are put in one by one, since evaluating them from the text is slow
set_option maxRecDepth 100000 in
theorem passes_isParser (l : Language) :
    passes (isParser l) (build [] [] (tokens (sourceChars (Builtin.lines l .parser)))) = true := by
  cases l <;>
  · simp only [sourceChars, Builtin.lines, Builtin.kotlinParser, Builtin.javaParser,
      Builtin.rustParser, List.flatMap_cons, List.flatMap_nil]
    repeat rw [String.toList_ofList]
    decide +kernel

set_option maxRecDepth 100000 in
theorem passes_scopedAll (l : Language) :
    passes (scopedAll · scopeKinds)
      (build [] [] (tokens (sourceChars (Builtin.lines l .record)))) = true := by
  cases l <;>
  · simp only [sourceChars, Builtin.lines, Builtin.kotlinRecord, Builtin.javaRecord,
      Builtin.rustRecord, List.flatMap_cons, List.flatMap_nil]
    repeat rw [String.toList_ofList]
    decide +kernel

theorem scopedAll_takeWhile_plain (nodes : List Node) :
    scopedAll (nodes.takeWhile plain) nameKinds = true := by
  rw [scopedAll_iff]
  intro n hn
  have hplain : plain n = true := List.mem_takeWhile_imp hn
  exact hplain

/-- **The parts of a template that passes**: the package, the required length and the columns, with
plain nodes around them. -/
theorem parts_of_isParser {l : Language} {nodes : List Node} (h : isParser l nodes = true) :
    ∃ front back after, nodes = packageNodes l ++ (.text (opening l) :: front ++ lengthNodes l ++
        back ++ .group "columns" false (columnNodes l) :: after) ∧
      scopedAll front nameKinds = true ∧ scopedAll back nameKinds = true ∧
      scopedAll after nameKinds = true := by
  obtain ⟨hpackage, hopening, hlast, hlength, hnext, hcolumns, hafter⟩ := of_decide_eq_true h
  have hnodes := List.take_append_drop (packageNodes l).length nodes
  rw [hpackage] at hnodes
  generalize nodes.drop (packageNodes l).length = body at *
  obtain ⟨firsts, hfirsts⟩ := List.head?_eq_some_iff.mp hopening
  rw [hfirsts, List.tail_cons] at hlast
  obtain ⟨front, rfl⟩ := List.getLast?_eq_some_iff.mp hlast
  obtain ⟨rest, hrest⟩ := List.head?_eq_some_iff.mp hlength
  rw [hrest, List.tail_cons] at hnext hcolumns hafter
  obtain ⟨back, hback⟩ := List.head?_eq_some_iff.mp hnext
  obtain ⟨after, hcut⟩ := List.head?_eq_some_iff.mp hcolumns
  rw [hcut, List.tail_cons] at hafter
  refine ⟨front, back, after, ?_, ?_, ?_, scopedAll_iff.mpr (List.all_eq_true.mp hafter)⟩
  · have hbody : body.takeWhile plain ++ .value "line_end" ::
        (rest.takeWhile plain ++ rest.dropWhile plain) = body := by
      rw [List.takeWhile_append_dropWhile, ← hrest, List.takeWhile_append_dropWhile]
    rw [← hnodes, ← hbody, hfirsts, hback, hcut]
    simp [lengthNodes]
  · have hplain := scopedAll_takeWhile_plain body
    rw [hfirsts, scopedAll_iff] at hplain
    exact scopedAll_iff.mpr fun n hn => hplain n (by simp [hn])
  · have hplain := scopedAll_takeWhile_plain rest
    rw [hback, scopedAll_iff] at hplain
    exact scopedAll_iff.mpr fun n hn => hplain n (by simp [hn])

theorem parser_parts (l : Language) :
    ∃ front back after : List Node, Template.parse (Builtin.source l .parser)
        = .ok ⟨packageNodes l ++ (.text (opening l) :: front ++ lengthNodes l ++ back ++
            .group "columns" false (columnNodes l) :: after)⟩ ∧
      scopedAll front nameKinds = true ∧ scopedAll back nameKinds = true ∧
      scopedAll after nameKinds = true := by
  obtain ⟨nodes, hparse, hpasses⟩ := parse_source (passes_isParser l)
  obtain ⟨front, back, after, rfl, hplain⟩ := parts_of_isParser hpasses
  exact ⟨front, back, after, hparse, hplain⟩

/-! ### Rendering the parts -/

/-- The scope with the names of the two types alone. -/
def nameScope (record parser : String) : Scope :=
  [("record_name", .text record), ("parser_name", .text parser)]

/-- The text of plain nodes. -/
def plainText (nodes : List Node) (record parser : String) : String :=
  match renderNodes nodes [nameScope record parser] with
  | .ok s => s
  | .error _ => ""

section Render
variable (layout : Layout) (p : Profile)

theorem agree_names :
    Agree nameKinds [scope layout p] [nameScope p.recordName p.parserName] := by
  refine Agree.of_mem ?_
  simp only [nameKinds, List.forall_mem_cons]
  exact ⟨⟨_, rfl, rfl, .text _⟩, ⟨_, rfl, rfl, .text _⟩, nofun⟩

/-- Plain nodes render, and their text depends on the two names only. -/
theorem renderNodes_plain {nodes : List Node} (h : scopedAll nodes nameKinds = true) :
    renderNodes nodes [scope layout p] = .ok (plainText nodes p.recordName p.parserName) := by
  obtain ⟨out, hout, hnames⟩ := exists_renderNodes nodes h (agree_names layout p)
  rw [hout, plainText, hnames]

theorem renderNodes_package :
    renderNodes (packageNodes p.language) [scope layout p]
      = .ok (packageLines p.language p.package) := by
  rw [packageNodes, packageLines]
  cases packageEnd p.language with
  | none => rfl
  | some ending =>
    have hfind : find [scope layout p] "package" = .ok (.text p.package) := rfl
    have hbody : renderNodes [.text "package ", .value "package", .text ending] [scope layout p]
        = .ok ("package " ++ p.package ++ ending) := by
      simp [renderNodes, renderNode, hfind, String.append_assoc]
    apply renderNodes_singleton_ok
    rw [renderNode_text hfind, hbody]
    by_cases hempty : p.package.isEmpty = true
    · simp only [hempty, Bool.true_eq_false, if_false, if_true]
    · simp only [hempty, Bool.false_eq_true, if_false, if_true]

theorem renderNodes_length :
    renderNodes (lengthNodes p.language) [scope layout p]
      = .ok (aboveLength p.language ++ lengthLine p.language layout.lineLength
          ++ belowLength p.language) := by
  have hfind : find [scope layout p] "line_end" = .ok (number layout.lineLength) := rfl
  simp [lengthNodes, lengthLine, renderNodes, renderNode, hfind, number, String.append_assoc]

theorem renderNodes_column (l : Language) (count index : Nat) (c : Column) :
    renderNodes (columnNodes l) [columnScope count index c, scope layout p]
      = .ok (columnLine l (index + 1 == count) c) := by
  have hname : find [columnScope count index c, scope layout p] "name" = .ok (.text c.name) := by
    simp [find, columnScope, List.lookup]
  have hoffset : find [columnScope count index c, scope layout p] "offset"
      = .ok (.text (toString c.offset)) := by
    simp [find, columnScope, number, List.lookup]
  have hend : find [columnScope count index c, scope layout p] "end"
      = .ok (.text (toString c.last)) := by
    simp [find, columnScope, number, List.lookup]
  have hlast : find [columnScope count index c, scope layout p] "last"
      = .ok (.flag (index + 1 == count)) := by
    simp [find, columnScope, List.lookup]
  cases l with
  | kotlin =>
    simp only [columnNodes, renderNodes, renderNode, hname, hoffset, hend, String.append_empty,
      ← String.append_assoc]
    rfl
  | java =>
    have hcomma : renderNode (.group "last" true [.text ","])
        [columnScope count index c, scope layout p]
          = .ok (if index + 1 == count then "" else ",") :=
      renderNode_unless hlast ","
    simp only [columnNodes, renderNodes, hcomma]
    simp only [renderNode, hoffset, hend, String.append_empty, ← String.append_assoc]
    rfl
  | rust =>
    simp only [columnNodes, renderNodes, renderNode, hname, hoffset, hend, String.append_empty,
      ← String.append_assoc]
    rfl

theorem renderNode_columns (l : Language) :
    renderNode (.group "columns" false (columnNodes l)) [scope layout p]
      = .ok (String.join (columnLines l layout.columns)) :=
  renderNode_rows rfl fun q _ => renderNodes_column layout p l layout.columns.length q.2 q.1

/-- **The text of a parser**, part by part. -/
theorem renderNodes_parts {front back after : List Node}
    (hfront : scopedAll front nameKinds = true) (hback : scopedAll back nameKinds = true)
    (hafter : scopedAll after nameKinds = true) :
    renderNodes (packageNodes p.language ++ (.text (opening p.language) :: front ++
        lengthNodes p.language ++ back ++
        .group "columns" false (columnNodes p.language) :: after)) [scope layout p]
      = .ok (packageLines p.language p.package ++ (opening p.language ++
          plainText front p.recordName p.parserName ++
          (aboveLength p.language ++ lengthLine p.language layout.lineLength ++
            belowLength p.language) ++
          plainText back p.recordName p.parserName ++
          (String.join (columnLines p.language layout.columns) ++
            plainText after p.recordName p.parserName))) := by
  refine renderNodes_append_ok (renderNodes_package layout p) ?_
  refine renderNodes_append_ok (renderNodes_append_ok (renderNodes_append_ok ?_
    (renderNodes_length layout p)) (renderNodes_plain layout p hback)) ?_
  · exact renderNodes_cons_ok rfl (renderNodes_plain layout p hfront)
  · exact renderNodes_cons_ok (renderNode_columns layout p p.language)
      (renderNodes_plain layout p hafter)

end Render

end FlatFile.Target

namespace FlatFile

open Schema Target Text

/-- **The positions a layout reads at**: the characters of a column are those from its offset up to
its end. -/
theorem read?_eq_spans (l : Layout) (line : String) :
    l.read? line = if line.length = l.lineLength
      then some ⟨l.columns.map fun c =>
        (c.name, String.ofList (trim ((line.toList.take c.last).drop c.offset)))⟩
      else none := by
  simp only [Layout.read?, Column.slice, Column.width, String.length_toList, List.drop_take]

theorem head?_opening {l : Language} (h : l ≠ .rust) : (opening l).toList.head? = some 'i' := by
  cases l with
  | kotlin => rw [opening, String.toList_ofList]; rfl
  | java => rw [opening, String.toList_ofList]; rfl
  | rust => exact absurd rfl h

/-- In front of a text that starts otherwise, the package lines are seen exactly when there are
some. -/
theorem starts_with_package_iff {l : Language} (hl : l ≠ .rust) {package body : String}
    (hbody : body.toList.head? = some 'i') :
    (∃ rest, packageLines l package ++ body = "package " ++ rest) ↔ package ≠ "" := by
  obtain ⟨ending, hending⟩ : ∃ ending, packageEnd l = some ending := by
    cases l with
    | kotlin => exact ⟨_, rfl⟩
    | java => exact ⟨_, rfl⟩
    | rust => exact absurd rfl hl
  simp only [packageLines, hending]
  constructor
  · rintro ⟨rest, hrest⟩ rfl
    have hhead := congrArg (fun s => s.toList.head?) hrest
    simp [hbody] at hhead
  · intro hpackage
    have hempty : package.isEmpty = false := by simpa using hpackage
    refine ⟨package ++ ending ++ body, ?_⟩
    simp only [hempty, Bool.false_eq_true, if_false, String.append_assoc]

namespace Artifacts

theorem emit_builtin {tree : FileTree} {p : Profile} {layout : Layout} {record parser : Template}
    {recordText parserText : String} (hdir : p.templateDir = none) (hcolumns : layout.columns ≠ [])
    (hrecord : Template.parse (Builtin.source p.language .record) = .ok record)
    (hparser : Template.parse (Builtin.source p.language .parser) = .ok parser)
    (hr : record.render (scope layout p) = .ok recordText)
    (hp : parser.render (scope layout p) = .ok parserText) :
    emit tree p layout
      = .ok ⟨⟨.record, p.recordFile, recordText⟩, ⟨.parser, p.parserFile, parserText⟩⟩ := by
  have htemplates : Templates.ofProfile tree p = .ok ⟨record, parser⟩ := by
    simp only [Templates.ofProfile, hdir, Templates.builtin, Templates.ofSources, hrecord, hparser]
  have hne : layout.columns.isEmpty = false := by simpa using hcolumns
  simp only [emit, htemplates, render, hne, Bool.false_eq_true, if_false, hr, hp]

/-- **A layout with columns has artifacts, and its parser is known**: the package, the required
length and a line for each column, with texts around them that depend on the names of the two types
only. -/
theorem exists_parser_text :
    ∃ front back after : Language → String → String → String,
      (∀ l record parser, l ≠ .rust → (front l record parser).toList.head? = some 'i') ∧
      ∀ (tree : FileTree) (p : Profile) (layout : Layout), p.templateDir = none →
        layout.columns ≠ [] → ∃ a, emit tree p layout = .ok a ∧
          a.parser.contents = packageLines p.language p.package ++
            (front p.language p.recordName p.parserName ++
              lengthLine p.language layout.lineLength ++
              back p.language p.recordName p.parserName ++
              String.join (columnLines p.language layout.columns) ++
              after p.language p.recordName p.parserName) := by
  choose front back after hparse hfront hback hafter using parser_parts
  refine ⟨fun l r q => opening l ++ plainText (front l) r q ++ aboveLength l,
    fun l r q => belowLength l ++ plainText (back l) r q, fun l r q => plainText (after l) r q,
    ?_, ?_⟩
  · intro l r q hl
    rw [String.toList_append, String.toList_append, List.append_assoc, List.head?_append,
      head?_opening hl]
    rfl
  · intro tree p layout hdir hcolumns
    obtain ⟨nodes, hrecord, hscoped⟩ := parse_source (passes_scopedAll p.language)
    obtain ⟨recordText, hr, -⟩ :=
      Template.exists_renderNodes nodes hscoped (agree_scope layout p)
    have hp := renderNodes_parts layout p (hfront p.language) (hback p.language)
      (hafter p.language)
    refine ⟨_, emit_builtin hdir hcolumns hrecord (hparse p.language) hr hp, ?_⟩
    simp only [String.append_assoc]

end Artifacts

namespace Compilation

/-- **Generated parsers agree with the reader.**  The built-in templates always give artifacts for a
compiled layout.  Around the package, the line with the required length and the lines of the
columns, the text of a parser depends only on the language and the two names of the profile.  The
required length is the one the layout reads lines of, and the offset and the end in the line of a
column are where the layout reads it.  A package is declared exactly when it is not empty, and in
Rust the parser does not depend on it. -/
theorem emit_parser_agrees :
    ∃ front back after : Language → String → String → String,
      ∀ (tree : FileTree) (reserved : ReservedWords) (raws : List String) (c : Compilation)
        (p : Profile), (ofLines reserved raws).result = .ok c → p.templateDir = none →
        (∃ a, Artifacts.emit tree p c.layout = .ok a ∧
          a.parser.contents = packageLines p.language p.package ++
            (front p.language p.recordName p.parserName ++
              lengthLine p.language c.layout.lineLength ++
              back p.language p.recordName p.parserName ++
              String.join (columnLines p.language c.layout.columns) ++
              after p.language p.recordName p.parserName) ∧
          (p.language = .rust → ∀ package, ∃ a', a'.parser.contents = a.parser.contents ∧
            Artifacts.emit tree { p with package := package } c.layout = .ok a') ∧
          (p.language ≠ .rust →
            ((∃ rest, a.parser.contents = "package " ++ rest) ↔ p.package ≠ ""))) ∧
        ∀ line, c.layout.read? line = if line.length = c.layout.lineLength
          then some ⟨c.layout.columns.map fun col =>
            (col.name, String.ofList (trim ((line.toList.take col.last).drop col.offset)))⟩
          else none := by
  obtain ⟨front, back, after, hhead, hemit⟩ := Artifacts.exists_parser_text
  refine ⟨front, back, after, fun tree reserved raws c p hc hdir => ⟨?_, read?_eq_spans _⟩⟩
  obtain ⟨hcolumns, -, -⟩ := lawful_of_ofLines hc
  obtain ⟨a, ha, hcontents⟩ := hemit tree p c.layout hdir hcolumns
  refine ⟨a, ha, hcontents, ?_, ?_⟩
  · intro hrust package
    obtain ⟨a', ha', hcontents'⟩ := hemit tree { p with package := package } c.layout hdir hcolumns
    refine ⟨a', ?_, ha'⟩
    have hnone : ∀ q, packageLines p.language q = "" := fun q => by rw [hrust]; rfl
    rw [hcontents', hcontents, hnone, hnone]
  · intro hl
    rw [hcontents]
    apply starts_with_package_iff hl
    simp only [String.toList_append, List.append_assoc, List.head?_append, hhead _ _ _ hl]
    rfl

/-- Two columns that share a position, in Java and without a package: only the first line ends in a
comma, and nothing declares a package. -/
theorem emit_parser_two_columns :
    (ofLines (.ofList ["fun"]) ["flag 0 1", "name 1 3"]).result
        = .ok ⟨⟨[⟨"flag", 0, 1⟩, ⟨"name", 1, 3⟩]⟩, ⟨[]⟩⟩ ∧
      ∃ a front back after,
        Artifacts.emit {} { language := .java, package := "" }
            ⟨[⟨"flag", 0, 1⟩, ⟨"name", 1, 3⟩]⟩ = .ok a ∧
          a.parser.contents = front ++ "    public static final int LINE_LENGTH = 3;\n" ++ back ++
            "                extractField(line, 0, 1),\n                extractField(line, 0, 3)\n" ++
            after ∧
          ¬ ∃ rest, a.parser.contents = "package " ++ rest := by
  have hc : (ofLines (.ofList ["fun"]) ["flag 0 1", "name 1 3"]).result
      = .ok ⟨⟨[⟨"flag", 0, 1⟩, ⟨"name", 1, 3⟩]⟩, ⟨[]⟩⟩ := rfl
  have hlength : lengthLine .java 3 = "    public static final int LINE_LENGTH = 3;\n" := by
    decide +kernel
  have hlines : String.join (columnLines .java [⟨"flag", 0, 1⟩, ⟨"name", 1, 3⟩])
      = "                extractField(line, 0, 1),\n                extractField(line, 0, 3)\n" := by
    decide +kernel
  obtain ⟨front, back, after, h⟩ := emit_parser_agrees
  obtain ⟨⟨a, ha, hcontents, -, hpackage⟩, -⟩ :=
    h {} _ _ _ { language := .java, package := "" } hc rfl
  refine ⟨hc, a, front .java "Record" "FixedLengthParser", back .java "Record" "FixedLengthParser",
    after .java "Record" "FixedLengthParser", ha, ?_,
    fun hrest => (hpackage nofun).mp hrest rfl⟩
  rw [← hlength, ← hlines, hcontents]
  exact String.empty_append

end Compilation

end FlatFile
