import FlatFile.Digest.Checksum
import FlatFile.Failure
import FlatFile.Target.Builtin
import FlatFile.Target.Scope

/-!
# Artifacts

The two files generated for a layout, the record type and the line parser.  Each is its template
rendered in the scope of the layout and the profile, so the same layout and profile always give the
same text.
-/

namespace FlatFile

/-- A generated file. -/
structure Artifact where
  kind : ArtifactKind
  /-- Its name in the output directory. -/
  fileName : String
  contents : String
  deriving DecidableEq, Repr

/-- The checksum of a generated file. -/
def Artifact.checksum (a : Artifact) : Checksum := .ofText a.contents

/-- The two generated files. -/
structure Artifacts where
  record : Artifact
  parser : Artifact
  deriving DecidableEq, Repr

/-- The generated files in the order in which they are handled. -/
def Artifacts.toList (a : Artifacts) : List Artifact := [a.record, a.parser]

/-- The templates of the two files. -/
structure Templates where
  record : Template
  parser : Template
  deriving DecidableEq, Repr

namespace Templates

/-- Reads both templates from their sources, that of the record first. -/
def ofSources (record parser : String) : Except TemplateError Templates :=
  match Template.parse record with
  | .error e => .error e
  | .ok r =>
    match Template.parse parser with
    | .error e => .error e
    | .ok p => .ok ⟨r, p⟩

/-- The built-in templates of a language. -/
def builtin (l : Language) : Except TemplateError Templates :=
  ofSources (Target.Builtin.source l .record) (Target.Builtin.source l .parser)

/-- Reads the template of a kind from a directory. -/
def load (t : FileTree) (dir : String) (kind : ArtifactKind) : Except Failure Template :=
  match t.readText (Path.join dir kind.templateFile) with
  | .error e => .error (.file e)
  | .ok source =>
    match Template.parse source with
    | .error e => .error (.template e)
    | .ok template => .ok template

/-- Reads both templates from a directory, that of the record first. -/
def loadDir (t : FileTree) (dir : String) : Except Failure Templates :=
  match load t dir .record with
  | .error e => .error e
  | .ok r =>
    match load t dir .parser with
    | .error e => .error e
    | .ok p => .ok ⟨r, p⟩

/-- The templates a profile asks for: those of its directory, or else the built-in ones. -/
def ofProfile (t : FileTree) (p : Profile) : Except Failure Templates :=
  match p.templateDir with
  | some dir => loadDir t dir
  | none =>
    match builtin p.language with
    | .error e => .error (.template e)
    | .ok templates => .ok templates

end Templates

namespace Artifacts

/-- Renders both files of a layout, the record first; an empty layout has none. -/
def render (templates : Templates) (profile : Profile) (layout : Layout) :
    Except Failure Artifacts :=
  if layout.columns.isEmpty then .error (.schema .emptySchema)
  else
    let scope := Target.scope layout profile
    match templates.record.render scope with
    | .error e => .error (.template e)
    | .ok record =>
      match templates.parser.render scope with
      | .error e => .error (.template e)
      | .ok parser =>
        .ok ⟨⟨.record, profile.recordFile, record⟩, ⟨.parser, profile.parserFile, parser⟩⟩

/-- Renders both files of a layout with the templates of the profile. -/
def emit (t : FileTree) (profile : Profile) (layout : Layout) : Except Failure Artifacts :=
  match Templates.ofProfile t profile with
  | .error e => .error e
  | .ok templates => render templates profile layout

end Artifacts

end FlatFile
