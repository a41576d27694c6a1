import FlatFile.Files.Path

/-!
# File trees

The files and directories below a working directory, which is the root of the tree.  An entry is
found by the list of its names from there down.  Paths are walked segment by segment: `.` and an
empty segment stay, `..` goes up, a name must be a directory unless it comes last.  There is nothing
above the working directory: a path with a leading slash starts there too, and `..` does not lead
out of it.  Names may hold any character but the slash.
-/

namespace FlatFile

/-- Why a file operation fails. -/
inductive FileError where
  | notFound
  | alreadyExists
  | notDirectory
  | isDirectory
  | notText
  | other (message : String)
  deriving DecidableEq, Repr

/-- The failure in words. -/
def FileError.message : FileError → String
  | notFound => "No such file or directory (os error 2)"
  | alreadyExists => "File exists (os error 17)"
  | notDirectory => "Not a directory (os error 20)"
  | isDirectory => "Is a directory (os error 21)"
  | notText => "stream did not contain valid UTF-8"
  | other message => message

/-- What stands at a place in a tree. -/
inductive Entry where
  | file (bytes : ByteArray)
  | directory

instance : DecidableEq Entry
  | .file a, .file b =>
    decidable_of_decidable_of_iff (p := a.data = b.data)
      ⟨fun h => congrArg Entry.file (ByteArray.ext h), fun h => by cases h; rfl⟩
  | .file _, .directory | .directory, .file _ => .isFalse nofun
  | .directory, .directory => .isTrue rfl

/-- Files and directories by the names that lead to them. -/
structure FileTree where
  entries : List (List String × Entry) := []
  deriving DecidableEq

namespace FileTree

/-- The entry at a place; the working directory itself is a directory. -/
def get? (t : FileTree) (place : List String) : Option Entry :=
  if place = [] then some .directory else t.entries.lookup place

/-- Sets the entry of a place in a list of entries. -/
def setEntry (place : List String) (e : Entry) :
    List (List String × Entry) → List (List String × Entry)
  | [] => [(place, e)]
  | (p, f) :: rest => if p = place then (place, e) :: rest else (p, f) :: setEntry place e rest

/-- Puts an entry at a place. -/
def set (t : FileTree) (place : List String) (e : Entry) : FileTree :=
  ⟨setEntry place e t.entries⟩

/-- Takes the entry at a place away. -/
def erase (t : FileTree) (place : List String) : FileTree :=
  ⟨t.entries.filter fun p => p.1 ≠ place⟩

/-! ## Walking -/

/-- One step from the directory at `place`. -/
def enter (t : FileTree) (place : List String) (segment : String) :
    Except FileError (List String) :=
  if segment = "" ∨ segment = "." then .ok place
  else if segment = ".." then .ok place.dropLast
  else
    match t.get? (place ++ [segment]) with
    | none => .error .notFound
    | some (.file _) => .error .notDirectory
    | some .directory => .ok (place ++ [segment])

/-- Walks from the directory at `place` through directories. -/
def walk (t : FileTree) (place : List String) : List String → Except FileError (List String)
  | [] => .ok place
  | s :: rest =>
    match t.enter place s with
    | .error e => .error e
    | .ok next => t.walk next rest

/-- The place that segments lead to when their last one names an entry of a directory; with dots or
nothing in its place they lead to a directory. -/
def locate (t : FileTree) (segs : List String) : Except FileError (List String ⊕ List String) :=
  match segs.getLast? with
  | none => .ok (.inl [])
  | some s =>
    if s = "" ∨ Path.isDots s then (t.walk [] segs).map .inl
    else (t.walk [] segs.dropLast).map fun place => .inr (place ++ [s])

/-- Whether a path leads to a directory. -/
def isDirectory (t : FileTree) (segs : List String) : Bool :=
  match t.walk [] segs with
  | .ok _ => true
  | .error _ => false

/-! ## Reading -/

/-- The bytes of the file at a path. -/
def read (t : FileTree) (path : String) : Except FileError ByteArray :=
  if path = "" then .error .notFound
  else
    match t.locate (Path.segments path) with
    | .error e => .error e
    | .ok (.inl _) => .error .isDirectory
    | .ok (.inr place) =>
      match t.get? place with
      | none => .error .notFound
      | some .directory => .error .isDirectory
      | some (.file bytes) => .ok bytes

/-- The text of the file at a path. -/
def readText (t : FileTree) (path : String) : Except FileError String :=
  match t.read path with
  | .error e => .error e
  | .ok bytes =>
    match String.fromUTF8? bytes with
    | none => .error .notText
    | some s => .ok s

/-- Whether a path leads to a file. -/
def isFile (t : FileTree) (path : String) : Bool :=
  match t.read path with
  | .ok _ => true
  | .error _ => false

/-- Whether a path leads to anything. -/
def present (t : FileTree) (path : String) : Bool :=
  path ≠ "" && (t.isFile path || t.isDirectory (Path.segments path))

/-- The lines of the file at a path, each decoded on its own. -/
def readLines (t : FileTree) (path : String) : Except FileError (List String) :=
  match t.read path with
  | .error e => .error e
  | .ok bytes =>
    match Text.byteLines? bytes with
    | none => .error .notText
    | some ls => .ok ls

/-! ## Changing

A change gives the tree behind it, also when it fails half way. -/

/-- Writes a file; its directory must be there. -/
def write (t : FileTree) (path : String) (bytes : ByteArray) : FileTree × Except FileError Unit :=
  if path = "" then (t, .error .notFound)
  else
    let segs := Path.segments path
    if segs.getLast? = some "" then
      match t.walk [] (Path.dropSlashes segs).dropLast with
      | .error e => (t, .error e)
      | .ok _ => (t, .error .isDirectory)
    else
      match t.locate segs with
      | .error e => (t, .error e)
      | .ok (.inl _) => (t, .error .isDirectory)
      | .ok (.inr place) =>
        match t.get? place with
        | some .directory => (t, .error .isDirectory)
        | _ => (t.set place (.file bytes), .ok ())

/-- Makes one directory; the one around it must be there. -/
def makeDirectory (t : FileTree) (segs : List String) : FileTree × Except FileError Unit :=
  let named := Path.dropSlashes segs
  match named.getLast? with
  | none => (t, .error (if segs.length ≤ 1 then .notFound else .alreadyExists))
  | some s =>
    match t.walk [] named.dropLast with
    | .error e => (t, .error e)
    | .ok place =>
      if Path.isDots s then (t, .error .alreadyExists)
      else
        match t.get? (place ++ [s]) with
        | some _ => (t, .error .alreadyExists)
        | none => (t.set (place ++ [s]) .directory, .ok ())

/-- Makes a directory that may be there already. -/
def settleDirectory (t : FileTree) (segs : List String) : FileTree × Except FileError Unit :=
  match t.makeDirectory segs with
  | (t', .ok ()) => (t', .ok ())
  | (_, .error e) => if t.isDirectory segs then (t, .ok ()) else (t, .error e)

/-- Makes the directory of components, given from the last to the first, with those around it. -/
def makeDirectories (t : FileTree) : List String → FileTree × Except FileError Unit
  | [] => (t, .ok ())
  | c :: outer =>
    let segs := (c :: outer).reverse
    match t.makeDirectory segs with
    | (_, .error .notFound) =>
      match t.makeDirectories outer with
      | (t', .ok ()) => t'.settleDirectory segs
      | failed => failed
    | _ => t.settleDirectory segs

/-- Makes the directory at a path, with those around it. -/
def createDirectories (t : FileTree) (path : String) : FileTree × Except FileError Unit :=
  if path = "" then (t, .ok ())
  else
    let segs := Path.segments path
    match t.makeDirectory segs with
    | (_, .error .notFound) =>
      match t.makeDirectories (Path.components path).reverse.tail with
      | (t', .ok ()) => t'.settleDirectory segs
      | failed => failed
    | _ => t.settleDirectory segs

/-- Removes the file at a path. -/
def removeFile (t : FileTree) (path : String) : FileTree × Except FileError Unit :=
  if path = "" then (t, .error .notFound)
  else
    match t.locate (Path.segments path) with
    | .error e => (t, .error e)
    | .ok (.inl _) => (t, .error .isDirectory)
    | .ok (.inr place) =>
      match t.get? place with
      | none => (t, .error .notFound)
      | some .directory => (t, .error .isDirectory)
      | some (.file _) => (t.erase place, .ok ())

/-- Puts an entry at a path, making the directories around it. -/
def plant (t : FileTree) (path : String) (e : Entry) : FileTree :=
  match e with
  | .directory => (t.createDirectories path).1
  | .file bytes =>
    ((t.makeDirectories (Path.components path).reverse.tail).1.write path bytes).1

/-- The entries of a tree that another tree lacks or has otherwise. -/
def changedFrom (t before : FileTree) : List (List String × Entry) :=
  t.entries.filter fun p => before.get? p.1 ≠ some p.2

end FileTree

end FlatFile
