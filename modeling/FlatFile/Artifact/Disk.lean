import FlatFile.Artifact.Emit
import FlatFile.Diff.Changes
import FlatFile.Event

/-!
# Artifacts on disk

Writing the generated files into a directory, and telling whether the files there still are what
would be generated.  A file has drifted when it is missing or its checksum differs.
-/

namespace FlatFile

/-- The checksum of the file at a path; `none` when there is no file. -/
def FileTree.checksum? (t : FileTree) (path : String) : Except FileError (Option Checksum) :=
  match t.read path with
  | .ok bytes => .ok (some (.ofBytes bytes))
  | .error .notFound => .ok none
  | .error e => .error e

/-- A generated file that is not what stands on disk. -/
structure Drift where
  kind : ArtifactKind
  path : String
  /-- The checksum of what would be generated. -/
  expected : Checksum
  /-- The checksum of the file; `none` when it is missing. -/
  actual : Option Checksum
  /-- The line diff from the file to what would be generated. -/
  diff : String
  deriving DecidableEq, Repr

/-- The drift in words. -/
def Drift.text (d : Drift) : String :=
  match d.actual with
  | none => d.kind.name ++ " artifact missing: " ++ d.path
  | some actual =>
    d.kind.name ++ " artifact out of date: " ++ d.path ++ " (on disk " ++ actual.short
      ++ ", expected " ++ d.expected.short ++ ")"

namespace Artifact

/-- The report that a file was written. -/
def writtenEvent (a : Artifact) (path : String) : Event :=
  { level := .info
    message := "wrote artifact"
    fields := [("kind", .text a.kind.name), ("path", .text path),
      ("checksum", .text a.checksum.short)] }

/-- Writes a file into a directory that is there; gives the path of the file. -/
def write (a : Artifact) (dir : String) (t : FileTree) :
    Traced (FileTree × Except FileError String) :=
  let path := Path.join dir a.fileName
  match t.write path a.contents.toUTF8 with
  | (t', .error e) => ⟨(t', .error e), []⟩
  | (t', .ok ()) => ⟨(t', .ok path), [a.writtenEvent path]⟩

/-- Whether the file in a directory has drifted. -/
def drift? (a : Artifact) (dir : String) (t : FileTree) : Except FileError (Option Drift) :=
  let path := Path.join dir a.fileName
  match t.checksum? path with
  | .error e => .error e
  | .ok none =>
    .ok (some ⟨a.kind, path, a.checksum, none, Diff.lineDiff "" a.contents⟩)
  | .ok (some actual) =>
    if actual = a.checksum then .ok none
    else
      match t.readText path with
      | .error e => .error e
      | .ok onDisk =>
        .ok (some ⟨a.kind, path, a.checksum, some actual, Diff.lineDiff onDisk a.contents⟩)

end Artifact

namespace Artifacts

/-- Writes both files into a directory, which is made when it is missing; gives their paths. -/
def write (a : Artifacts) (dir : String) (t : FileTree) :
    Traced (FileTree × Except FileError (List String)) :=
  match t.createDirectories dir with
  | (made, .error e) => ⟨(made, .error e), []⟩
  | (made, .ok ()) =>
    (a.record.write dir made).andThen fun
      | (half, .error e) => ⟨(half, .error e), []⟩
      | (half, .ok recordPath) =>
        (a.parser.write dir half).map fun
          | (full, .error e) => (full, .error e)
          | (full, .ok parserPath) => (full, .ok [recordPath, parserPath])

/-- The files of a directory that have drifted, the record first. -/
def drifts (a : Artifacts) (dir : String) (t : FileTree) : Except FileError (List Drift) :=
  match a.record.drift? dir t with
  | .error e => .error e
  | .ok r =>
    match a.parser.drift? dir t with
    | .error e => .error e
    | .ok p => .ok (r.toList ++ p.toList)

end Artifacts

end FlatFile
