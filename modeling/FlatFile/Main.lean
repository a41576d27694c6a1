import FlatFile.CommandLine.Run

/-!
# The program

Reads the variables of the environment, the files below the working directory and the user's file,
carries the arguments out, prints, and writes what has changed.  The working directory is the root
of the tree, and the user's file stands in it where its path leads from there.

Configuration files are read in TOML only; one in another registered format stops the program as one
that cannot be read.  Nothing of what a run reports is shown.
-/

namespace FlatFile.CommandLine

/-- The variables in a block of bytes: a name, an equals sign and a value each, with a null byte
behind it. -/
def environmentOf (block : ByteArray) : Config.Environment :=
  (Text.cutAt 0 block.data.toList).filterMap fun bytes => do
    let s ← String.fromUTF8? ⟨bytes.toArray⟩
    let name := s.toList.takeWhile (· ≠ '=')
    match s.toList.drop name.length with
    | [] => none
    | _ :: value => some (String.ofList name, String.ofList value)

/-- The variables of the environment, all that are set. -/
def readEnvironment : IO Config.Environment := do
  pure (environmentOf (← IO.FS.readBinFile "/proc/self/environ"))

/-- The user's file, in the directory that a variable names or else below the home directory. -/
def userFile? (env : Config.Environment) : Option String :=
  (env.lookup "HOME").map fun home =>
    let dir := (env.lookup "XDG_CONFIG_HOME").filter fun dir => dir.startsWith "/"
    dir.getD (home ++ "/.config") ++ "/fwgen/fwgen.toml"

/-- Adds an entry of a directory, with all below it, to a tree; links to directories are passed
over. -/
partial def addEntry (place : List String) (t : FileTree) (e : IO.FS.DirEntry) : IO FileTree := do
  let here := place ++ [e.fileName]
  let kind := (← e.path.symlinkMetadata).type
  if kind == .dir then
    (← e.path.readDir).foldlM (addEntry here) (t.set here .directory)
  else if ← e.path.isDir then
    pure t
  else
    let bytes ← IO.FS.readBinFile e.path
    pure (t.set here (.file bytes))

/-- The files and directories below the working directory. -/
def readTree : IO FileTree := do
  let root ← IO.currentDir
  (← root.readDir).foldlM (addEntry []) {}

/-- Adds the file at a path to a tree, if there is one. -/
def addFile (t : FileTree) (path : String) : IO FileTree :=
  try
    let bytes ← IO.FS.readBinFile path
    pure (t.plant path (.file bytes))
  catch _ => pure t

/-- Writes an entry. -/
def writeEntry (place : List String) : Entry → IO Unit
  | .directory => IO.FS.createDirAll ("/".intercalate place)
  | .file bytes => IO.FS.writeBinFile ("/".intercalate place) bytes

/-- Runs the program in the working directory; gives its exit code. -/
def program (args : List String) : IO UInt32 := do
  let env ← readEnvironment
  let host := Config.Host.listed (userFile? env) fun _ _ => none
  let before ← host.userFile.toList.foldlM addFile (← readTree)
  let outcome := run host before env args
  for (place, entry) in outcome.tree.changedFrom before do
    writeEntry place entry
  IO.print outcome.stdout
  IO.eprint outcome.stderr
  pure outcome.exitCode.toUInt32

end FlatFile.CommandLine

/-- The command line. -/
def main (args : List String) : IO UInt32 := FlatFile.CommandLine.program args
