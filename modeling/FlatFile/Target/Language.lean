import FlatFile.Schema.Reserved
import FlatFile.Text.Letter

/-!
# Target languages

The languages that record types and line parsers are generated in, with their names, file extensions
and keywords.
-/

namespace FlatFile

/-- A language to generate. -/
inductive Language where
  | kotlin
  | java
  | rust
  deriving DecidableEq, Repr

namespace Language

/-- The keywords of Kotlin. -/
def kotlinKeywords : List String :=
  ["as", "as?", "abstract", "annotation", "break", "class", "companion", "const", "continue",
   "data", "delegate", "do", "dynamic", "else", "enum", "expect", "external", "false", "final",
   "finally", "for", "fun", "if", "import", "in", "inline", "interface", "is", "lateinit",
   "mutable", "noinline", "null", "object", "open", "operator", "out", "override", "package",
   "private", "protected", "public", "reified", "return", "sealed", "super", "suspend", "tailrec",
   "this", "throw", "true", "try", "typealias", "typeof", "val", "var", "when", "while"]

/-- The keywords of Java. -/
def javaKeywords : List String :=
  ["abstract", "assert", "boolean", "break", "byte", "case", "catch", "char", "class", "const",
   "continue", "default", "do", "double", "else", "enum", "extends", "false", "final", "finally",
   "float", "for", "goto", "if", "implements", "import", "instanceof", "int", "interface", "long",
   "native", "new", "null", "package", "private", "protected", "public", "return", "short",
   "static", "strictfp", "super", "switch", "synchronized", "this", "throw", "throws",
   "transient", "true", "try", "void", "volatile", "while", "_"]

/-- The keywords of Rust. -/
def rustKeywords : List String :=
  ["as", "break", "const", "continue", "crate", "else", "enum", "extern", "false", "fn", "for",
   "if", "impl", "in", "let", "loop", "match", "mod", "move", "mut", "pub", "ref", "return",
   "self", "Self", "static", "struct", "super", "trait", "true", "type", "unsafe", "use", "where",
   "while", "async", "await", "dyn", "abstract", "become", "box", "do", "final", "macro",
   "override", "priv", "typeof", "unsized", "virtual", "yield", "try"]

/-- All languages, the default one first. -/
def all : List Language := [kotlin, java, rust]

/-- The name of a language. -/
def name : Language → String
  | kotlin => "kotlin"
  | java => "java"
  | rust => "rust"

/-- The extension of its source files. -/
def extension : Language → String
  | kotlin => "kt"
  | java => "java"
  | rust => "rs"

/-- The keywords of a language, as they are listed. -/
def keywords : Language → List String
  | kotlin => kotlinKeywords
  | java => javaKeywords
  | rust => rustKeywords

/-- The keywords of a language as a set. -/
def reservedWords (l : Language) : Schema.ReservedWords := .ofList l.keywords

/-- The language a user names: its name, or `kt` and `rs`, in any case. -/
def ofUserText? (s : String) : Option Language :=
  let t := Text.asciiLower s
  if t = "kotlin" ∨ t = "kt" then some kotlin
  else if t = "java" then some java
  else if t = "rust" ∨ t = "rs" then some rust
  else none

/-- What is said to a user who names no language. -/
def unsupported (s : String) : String :=
  "unsupported language '" ++ Text.asciiLower s ++ "' (expected kotlin, java or rust)"

end Language

end FlatFile
