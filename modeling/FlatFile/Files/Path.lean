import FlatFile.Text.Lines

/-!
# Paths

A path is a text of segments with slashes between them.  It is kept as it is written: joining never
normalises, and what `.`, `..` and an empty segment mean is settled when a path is walked.
-/

namespace FlatFile.Path

/-- The segments of a path, with the empty ones. -/
def segments (p : String) : List String := (Text.cutAt '/' p.toList).map String.ofList

/-- The segments without empty ones at the end. -/
def dropSlashes (segs : List String) : List String := (segs.reverse.dropWhile (· == "")).reverse

/-- The segments without those at the end that stay: empty ones and `.`. -/
def dropStays (segs : List String) : List String :=
  (segs.reverse.dropWhile fun s => s == "" || s == ".").reverse

/-- The segments that name a step: no empty ones, and `.` only in the first place. -/
def components (p : String) : List String :=
  match segments p with
  | [] => []
  | s :: rest =>
    (if s = "" then [] else [s]) ++ rest.filter fun t => t ≠ "" ∧ t ≠ "."

/-- A segment that names no entry. -/
def isDots (s : String) : Bool := s == "." || s == ".."

/-- A file of a directory: an empty directory adds nothing, and an absolute file stands alone. -/
def join (dir file : String) : String :=
  if file.toList.head? = some '/' ∨ dir = "" then file
  else if dir.toList.getLast? = some '/' then dir ++ file
  else dir ++ "/" ++ file

/-- The last segment of a path. -/
def lastSegment (p : String) : String := (segments p).getLast?.getD ""

/-- Whether the last segment of a path has the extension `ext`, with something before the dot. -/
def hasExtension (ext : String) (p : String) : Bool :=
  let s := (lastSegment p).toList
  let tail := '.' :: ext.toList
  tail.isSuffixOf s && tail.length < s.length

/-- A path with the extension `ext` added to the last segment that names an entry; `none` when the
path ends by going up or names nothing. -/
def withExtension? (ext : String) (p : String) : Option String :=
  let named := dropStays (segments p)
  match named.getLast? with
  | none => none
  | some s => if s = ".." then none else some ("/".intercalate named ++ "." ++ ext)

end FlatFile.Path
