import FlatFile.Json.Value
import FlatFile.Text.Escape

/-!
# JSON text

Two forms of a value: `compact`, without any blank, and `pretty`, with one element or field a line,
indented by two spaces a level.  In a string the quote, the backslash and the control characters are
escaped and nothing else is.
-/

namespace FlatFile.Json

open Text (hexDigit)

/-- A character as it stands in a string. -/
def escapeChar (c : Char) : List Char :=
  if c = '"' then ['\\', '"']
  else if c = '\\' then ['\\', '\\']
  else if c = '\x08' then ['\\', 'b']
  else if c = '\x0c' then ['\\', 'f']
  else if c = '\n' then ['\\', 'n']
  else if c = '\r' then ['\\', 'r']
  else if c = '\t' then ['\\', 't']
  else if c.toNat < 0x20 then
    ['\\', 'u', '0', '0', hexDigit (c.toNat / 16), hexDigit c.toNat]
  else [c]

/-- A string with its quotes. -/
def quote (s : String) : String :=
  "\"" ++ String.ofList (s.toList.flatMap escapeChar) ++ "\""

/-- Joins texts with a separator between them. -/
def joinWith (sep : String) : List String → String
  | [] => ""
  | [s] => s
  | s :: rest => s ++ sep ++ joinWith sep rest

mutual

/-- The value without blanks. -/
def compact : Json → String
  | .null => "null"
  | .bool b => if b then "true" else "false"
  | .num n => toString n
  | .decimal d => d.literal
  | .str s => quote s
  | .arr items => "[" ++ joinWith "," (compactItems items) ++ "]"
  | .obj fields => "\x7b" ++ joinWith "," (compactFields fields) ++ "\x7d"

/-- The elements of an array without blanks. -/
def compactItems : List Json → List String
  | [] => []
  | v :: vs => compact v :: compactItems vs

/-- The fields of an object without blanks. -/
def compactFields : List (String × Json) → List String
  | [] => []
  | (k, v) :: rest => (quote k ++ ":" ++ compact v) :: compactFields rest

end

/-- The start of a line `depth` levels deep. -/
def indent (depth : Nat) : String := String.ofList (List.replicate (2 * depth) ' ')

/-- Entries between brackets, one a line. -/
def block (opening closing : String) (depth : Nat) (entries : List String) : String :=
  if entries.isEmpty then opening ++ closing
  else
    opening ++ "\n"
      ++ joinWith ",\n" (entries.map fun e => indent (depth + 1) ++ e)
      ++ "\n" ++ indent depth ++ closing

mutual

/-- The value with one entry a line, at a depth. -/
def prettyAt (depth : Nat) : Json → String
  | .null => "null"
  | .bool b => if b then "true" else "false"
  | .num n => toString n
  | .decimal d => d.literal
  | .str s => quote s
  | .arr items => block "[" "]" depth (prettyItems (depth + 1) items)
  | .obj fields => block "\x7b" "\x7d" depth (prettyFields (depth + 1) fields)

/-- The elements of an array, at a depth. -/
def prettyItems (depth : Nat) : List Json → List String
  | [] => []
  | v :: vs => prettyAt depth v :: prettyItems depth vs

/-- The fields of an object, at a depth. -/
def prettyFields (depth : Nat) : List (String × Json) → List String
  | [] => []
  | (k, v) :: rest => (quote k ++ ": " ++ prettyAt depth v) :: prettyFields depth rest

end

/-- The value with one entry a line. -/
def pretty (v : Json) : String := prettyAt 0 v

end FlatFile.Json
