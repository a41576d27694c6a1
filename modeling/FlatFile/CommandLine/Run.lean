import FlatFile.Artifact.Disk
import FlatFile.CommandLine.Invocation
import FlatFile.Config.Load
import FlatFile.Stream

/-!
# Runs

What a run of the program does: it prints on two channels, reports what it does, ends with an exit
code and leaves a file tree behind.  Only `generate` changes the tree.  The exit code is zero when
all went well or help was asked for, one when something failed or has drifted, two when the
arguments do not fit.

What a run reports is kept apart from what it prints: it may be shown on standard output as well,
which is settled outside.
-/

namespace FlatFile.CommandLine

/-- What came of a run. -/
structure Outcome where
  exitCode : Nat
  stdout : String
  stderr : String
  /-- The files and directories after the run. -/
  tree : FileTree
  /-- What was reported on the way, first to last. -/
  events : List Event
  deriving DecidableEq

/-- Why a run stops. -/
inductive Stop where
  | configuration (e : Config.LoadError)
  | schema (path : String) (f : Failure)
  | data (path : String) (e : FileError)
  | failure (f : Failure)
  deriving DecidableEq, Repr

namespace Stop

/-- What stopped the run and its causes, the outermost first. -/
def chain : Stop → List String
  | configuration e => ["failed to load configuration", e.message]
  | schema path f => ("failed to compile schema " ++ path) :: f.chain
  | data path e => ["failed to read data file " ++ path, e.message]
  | failure f => f.chain

/-- What stopped the run, as it is printed. -/
def text (s : Stop) : String := "Error: " ++ ": ".intercalate s.chain ++ "\n"

end Stop

/-! ## Tables -/

/-- A text with blanks before it, up to a width. -/
def padLeft (width : Nat) (s : String) : String :=
  String.ofList (List.replicate (width - s.length) ' ') ++ s

/-- A text with blanks behind it, up to a width. -/
def padRight (width : Nat) (s : String) : String :=
  s ++ String.ofList (List.replicate (width - s.length) ' ')

/-- A row of the table of columns. -/
def row (name first last width : String) : String :=
  padRight 24 name ++ " " ++ padLeft 6 first ++ " " ++ padLeft 6 last ++ " " ++ padLeft 6 width
    ++ "\n"

/-- The columns of a layout as a table, with the line length below it. -/
def table (l : Layout) : String :=
  row "name" "start" "end" "width"
    ++ String.join (l.columns.map fun c =>
      row c.name (toString c.first) (toString c.last) (toString c.width))
    ++ "\nline length: " ++ toString l.lineLength ++ "\n"

/-! ## Commands -/

/-- Renders the files of a layout, named as the settings say. -/
def artifacts (s : Settings) (t : FileTree) (l : Layout) : Except Failure Artifacts :=
  (Artifacts.emit t s.render l).map fun a =>
    { record := { a.record with fileName := s.recordFile }
      parser := { a.parser with fileName := s.parserFile } }

/-- The directory of the generated files. -/
def outputDir (s : Settings) (output : Option String) : String := output.getD s.output.dir

/-- What is printed for a file that has drifted. -/
def driftText (d : Drift) : String :=
  "❌ " ++ d.text ++ "\n" ++ if d.diff = "" then "" else d.diff ++ "\n"

/-- Writes the files of a layout. -/
def generate (s : Settings) (t : FileTree) (output : Option String) (l : Layout) : Outcome :=
  match artifacts s t l with
  | .error f => ⟨1, "", (Stop.failure f).text, t, []⟩
  | .ok a =>
    let written := a.write (outputDir s output) t
    match written.result with
    | (after, .error e) => ⟨1, "", (Stop.failure (.file e)).text, after, written.events⟩
    | (after, .ok paths) =>
      ⟨0, String.join (paths.map fun p => "✅ wrote " ++ p ++ "\n"), "", after, written.events⟩

/-- Tells which files of a layout have drifted. -/
def check (s : Settings) (t : FileTree) (output : Option String) (l : Layout) : Outcome :=
  match artifacts s t l with
  | .error f => ⟨1, "", (Stop.failure f).text, t, []⟩
  | .ok a =>
    match a.drifts (outputDir s output) t with
    | .error e => ⟨1, "", (Stop.failure (.file e)).text, t, []⟩
    | .ok [] => ⟨0, "✅ generated files are up to date\n", "", t, []⟩
    | .ok drifts => ⟨1, String.join (drifts.map driftText), "", t, []⟩

/-- Prints the columns of a layout. -/
def columns (t : FileTree) (json : Bool) (l : Layout) : Outcome :=
  ⟨0, if json then l.toJson.pretty ++ "\n" else table l, "", t, []⟩

/-- Prints the records of a data file, one a line. -/
def preview (t : FileTree) (data : String) (l : Layout) : Outcome :=
  match t.readText data with
  | .error e => ⟨1, "", (Stop.data data e).text, t, []⟩
  | .ok lines =>
    let read := Reading.ofText l lines
    { exitCode := 0
      stdout := String.join (read.result.records.map fun r => r.toJson ++ "\n")
      stderr := read.result.diagnostics.text
      tree := t
      events := read.events }

namespace Action

/-- The schema file of an action. -/
def schema : Action → String
  | generate schema _ | check schema _ | columns schema _ | preview schema _ => schema

/-- Carries an action out on the layout of its schema. -/
def perform (s : Settings) (t : FileTree) (l : Layout) : Action → Outcome
  | generate _ output => CommandLine.generate s t output l
  | check _ output => CommandLine.check s t output l
  | columns _ json => CommandLine.columns t json l
  | preview _ data => CommandLine.preview t data l

end Action

/-- The settings of a run. -/
def Invocation.settings (i : Invocation) (h : Config.Host) (t : FileTree)
    (env : Config.Environment) : Except Config.LoadError Settings :=
  (Config.load h t env i.config).map fun s =>
    match i.language with
    | none => s
    | some l => s.withLanguage l

/-- Carries an invocation out: the settings first, then the schema, then the action. -/
def Invocation.run (i : Invocation) (h : Config.Host) (t : FileTree) (env : Config.Environment) :
    Outcome :=
  match i.settings h t env with
  | .error e => ⟨1, "", (Stop.configuration e).text, t, []⟩
  | .ok s =>
    let compiled := Compilation.ofFile s.reservedWords t i.action.schema
    match compiled.result with
    | .error f => ⟨1, "", (Stop.schema i.action.schema f).text, t, compiled.events⟩
    | .ok c =>
      let o := i.action.perform s t c.layout
      { o with stderr := c.diagnostics.text ++ o.stderr, events := compiled.events ++ o.events }

/-- Runs the program on a file tree, with environment variables and arguments. -/
def run (h : Config.Host) (t : FileTree) (env : Config.Environment) (args : List String) :
    Outcome :=
  match Invocation.ofArgs args with
  | .error .help => ⟨0, usage, "", t, []⟩
  | .error .misfit => ⟨2, "", usage, t, []⟩
  | .ok i => i.run h t env

end FlatFile.CommandLine
