/-!
# Writing TOML text

How a text is quoted: in the first form, of basic, literal, multi-line basic and multi-line literal,
that needs no escape, or else in a basic form with escapes.  Lists of texts stand on one line when
they have at most one element, and one element a line otherwise.
-/

namespace FlatFile.Toml

/-- A control character other than the tab and the newline. -/
def isControl (c : Char) : Bool :=
  (c.toNat < 0x20 && c != '\t' && c != '\n') || c.toNat == 0x7f

/-- The longest run of a character; `run` is the one that is under way. -/
def longestRunFrom (q : Char) (run : Nat) : List Char → Nat
  | [] => run
  | c :: rest =>
    if c = q then longestRunFrom q (run + 1) rest else max run (longestRunFrom q 0 rest)

/-- The longest run of a character. -/
def longestRun (q : Char) (s : List Char) : Nat := longestRunFrom q 0 s

/-- The forms of a quoted text. -/
inductive QuoteForm where
  | basic
  | literal
  | longBasic
  | longLiteral
  deriving DecidableEq, Repr

/-- The form a text is quoted in. -/
def quoteForm (s : List Char) : QuoteForm :=
  let control := s.any isControl
  let backslash := s.contains '\\'
  let newline := s.contains '\n'
  let double := longestRun '"' s
  let single := longestRun '\x27' s
  if ¬ control ∧ ¬ backslash ∧ ¬ newline ∧ double = 0 then .basic
  else if ¬ control ∧ ¬ newline ∧ single = 0 then .literal
  else if ¬ control ∧ ¬ backslash ∧ double ≤ 2 then .longBasic
  else if ¬ control ∧ single ≤ 2 then .longLiteral
  else if newline then .longBasic
  else .basic

/-- An upper-case hexadecimal digit. -/
def upperHexDigit (n : Nat) : Char := ("0123456789ABCDEF".toList)[n % 16]?.getD '0'

/-- A character other than the quote and the newline in a basic form. -/
def escaped (c : Char) : List Char :=
  if c = '\x08' then ['\\', 'b']
  else if c = '\t' then ['\\', 't']
  else if c = '\x0c' then ['\\', 'f']
  else if c = '\r' then ['\\', 'r']
  else if c = '\\' then ['\\', '\\']
  else if c.toNat < 0x20 ∨ c.toNat = 0x7f then
    ['\\', 'u', '0', '0', upperHexDigit (c.toNat / 16), upperHexDigit c.toNat]
  else [c]

/-- The inside of a basic string. -/
def basicInside (s : List Char) : List Char :=
  s.flatMap fun c =>
    if c = '"' then ['\\', '"'] else if c = '\n' then ['\\', 'n'] else escaped c

/-- The inside of a multi-line basic string, behind `run` quotes in a row: the third is escaped. -/
def longBasicInside (run : Nat) : List Char → List Char
  | [] => []
  | c :: rest =>
    if c = '"' then
      if run = 2 then '\\' :: '"' :: longBasicInside 0 rest
      else '"' :: longBasicInside (run + 1) rest
    else if c = '\n' then '\n' :: longBasicInside 0 rest
    else escaped c ++ longBasicInside 0 rest

/-- The line end behind opening threefold quotes: there is one when the text has several lines. -/
def openingEnd (s : List Char) : List Char := if s.contains '\n' then ['\n'] else []

/-- A quoted text. -/
def quoteChars (s : List Char) : List Char :=
  match quoteForm s with
  | .basic => '"' :: basicInside s ++ ['"']
  | .literal => '\x27' :: s ++ ['\x27']
  | .longBasic =>
    ['"', '"', '"'] ++ openingEnd s ++ longBasicInside 0 s ++ ['"', '"', '"']
  | .longLiteral =>
    ['\x27', '\x27', '\x27'] ++ openingEnd s ++ s ++ ['\x27', '\x27', '\x27']

/-- A quoted text. -/
def quote (s : String) : String := String.ofList (quoteChars s.toList)

/-- A list of texts. -/
def quoteList (items : List String) : String :=
  match items with
  | [] => "[]"
  | [s] => "[" ++ quote s ++ "]"
  | _ => "[\n" ++ String.join (items.map fun s => "    " ++ quote s ++ ",\n") ++ "]"

/-- An assignment on a line of its own. -/
def line (name value : String) : String := name ++ " = " ++ value ++ "\n"

end FlatFile.Toml
