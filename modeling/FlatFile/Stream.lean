import FlatFile.Compile
import FlatFile.Failure
import FlatFile.Record

/-!
# Schemas and data from bytes

Compiling a schema file and reading a stream of data.  All lines are decoded before the first of
them is looked at, so bytes that are no text anywhere are a failure, whatever the lines before them
say.
-/

namespace FlatFile

open Schema

/-- The report that a schema file was compiled. -/
def Compilation.compiledEvent (path : String) (c : Compilation) : Event :=
  { level := .info
    message := "compiled schema"
    fields := [("path", .text path), ("columns", .number c.layout.columns.length),
      ("line_length", .number c.layout.lineLength)] }

/-- Compiles the schema file at a path. -/
def Compilation.ofFile (reserved : ReservedWords) (t : FileTree) (path : String) :
    Traced (Except Failure Compilation) :=
  match t.readLines path with
  | .error e => ⟨.error (.file e), []⟩
  | .ok raws =>
    (Compilation.ofLines reserved raws).andThen fun
      | .error e => ⟨.error (.schema e), []⟩
      | .ok c => ⟨.ok c, [c.compiledEvent path]⟩

/-- Reads the lines of a stream of bytes. -/
def Reading.ofBytes (l : Layout) (bytes : ByteArray) : Traced (Except Failure Reading) :=
  match Text.byteLines? bytes with
  | none => ⟨.error (.file .notText), []⟩
  | some lines => (Reading.ofLines l lines).map .ok

end FlatFile
