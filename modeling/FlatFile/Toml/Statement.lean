import FlatFile.Binary64.Text
import FlatFile.Toml.Quoted
import FlatFile.Toml.Value

/-!
# TOML statements

A document is a sequence of statements, one a line: table headers, headers of tables in an array,
and assignments.  A key is a path of names with dots between them.  The readers give what they read
and what follows it.  A key has fewer than eighty names.
-/

namespace FlatFile.Toml

open Text

/-- A statement of a document. -/
inductive Statement where
  | header (path : List String)
  | element (path : List String)
  | assign (path : List String) (value : Toml)

/-! ## Keys -/

/-- A character of an unquoted name. -/
def isBare (c : Char) : Bool := c.isAlphanum || c == '_' || c == '-'

/-- Reads one name of a key. -/
def name? (s : List Char) : Option (String × List Char) :=
  match s with
  | '"' :: rest => (basic? rest).map fun r => (String.ofList r.1, r.2)
  | '\x27' :: rest => (literal? rest).map fun r => (String.ofList r.1, r.2)
  | _ =>
    match s.takeWhile isBare with
    | [] => none
    | cs => some (String.ofList cs, s.dropWhile isBare)

/-- Reads a key of at most `count` names and the blanks around it. -/
def names? : (count : Nat) → List Char → Option (List String × List Char)
  | 0, _ => none
  | count + 1, s =>
    match name? (s.dropWhile isSpace) with
    | none => none
    | some (name, rest) =>
      match rest.dropWhile isSpace with
      | '.' :: more => (names? count more).map fun r => (name :: r.1, r.2)
      | other => some ([name], other)

/-- How many names a key may have, and how many arrays and inline tables may stand in each other. -/
def depthLimit : Nat := 79

/-- Reads a key and the blanks around it. -/
def key? (s : List Char) : Option (List String × List Char) := names? depthLimit s

/-! ## Blanks, comments and line ends -/

/-- Drops blanks, line ends and comments; `none` when a comment holds a character it may not. -/
def skipLines (inComment : Bool) : List Char → Option (List Char)
  | [] => some []
  | c :: rest =>
    if c = '\n' then skipLines false rest
    else if c = '\r' ∧ rest.head? = some '\n' then skipLines inComment rest
    else if inComment then if isPlain c then skipLines true rest else none
    else if isSpace c then skipLines false rest
    else if c = '#' then skipLines true rest
    else some (c :: rest)

/-- Whether nothing but a comment is left of a line. -/
def endsLine (s : List Char) : Bool :=
  match s.dropWhile isSpace with
  | [] | '\n' :: _ | '\r' :: '\n' :: _ | '#' :: _ => true
  | _ => false

/-! ## Values -/

/-- Reads digits; an underscore may stand between two of them. -/
def digits? (isDigit : Char → Bool) : List Char → Option (List Char × List Char)
  | [] => some ([], [])
  | c :: rest =>
    if isDigit c then prepend c (digits? isDigit rest)
    else if c = '_' then
      match rest with
      | d :: _ => if isDigit d then digits? isDigit rest else none
      | [] => none
    else some ([], c :: rest)

/-- The value of digits in a base, when it fits 64 bits. -/
def inBase? (base : Nat) (ds : List Char) : Option Int :=
  match ds.mapM hexValue? with
  | none => none
  | some vs =>
    let n : Int := (vs.foldl (fun v d => base * v + d) 0 : Nat)
    if n ≤ int64Max then some n else none

/-- Reads an integer behind the prefix of its base. -/
def based? (base : Nat) (isDigit : Char → Bool) (s : List Char) : Option (Toml × List Char) :=
  match s with
  | [] => none
  | c :: _ =>
    if isDigit c then
      match digits? isDigit s with
      | none => none
      | some (ds, rest) => (inBase? base ds).map fun i => (.integer i, rest)
    else none

/-- Reads one or more digits. -/
def someDigits? (s : List Char) : Option (List Char × List Char) :=
  match s with
  | [] => none
  | c :: _ => if isDigit c then digits? isDigit s else none

/-- Reads a sign, when there is one. -/
def sign : List Char → List Char × List Char
  | '+' :: rest => (['+'], rest)
  | '-' :: rest => (['-'], rest)
  | s => ([], s)

/-- Reads the whole part of a number with its sign: a lone zero, or digits that start with none. -/
def whole? (s : List Char) : Option (List Char × List Char) :=
  let (mark, rest) := sign s
  match rest with
  | '0' :: more => some (mark ++ ['0'], more)
  | _ => (someDigits? rest).map fun r => (mark ++ r.1, r.2)

/-- Reads a decimal integer. -/
def decimal? (s : List Char) : Option (Toml × List Char) :=
  match whole? s with
  | none => none
  | some (cs, rest) => (readInt64? cs).map fun i => (.integer i, rest)

/-- Reads an exponent. -/
def exponent? : List Char → Option (List Char × List Char)
  | [] => none
  | c :: rest =>
    if c = 'e' ∨ c = 'E' then
      let (mark, more) := sign rest
      (someDigits? more).map fun r => ('e' :: mark ++ r.1, r.2)
    else none

/-- Reads the point and the digits behind it. -/
def fraction? : List Char → Option (List Char × List Char)
  | '.' :: rest => (someDigits? rest).map fun r => ('.' :: r.1, r.2)
  | _ => none

/-- Reads a number with a fraction, an exponent or both. -/
def floatChars? (s : List Char) : Option (List Char × List Char) :=
  match whole? s with
  | none => none
  | some (cs, rest) =>
    match fraction? rest with
    | none => (exponent? rest).map fun r => (cs ++ r.1, r.2)
    | some (part, more) =>
      match exponent? more with
      | none => some (cs ++ part, more)
      | some (power, behind) => some (cs ++ part ++ power, behind)

/-- Reads the name of an infinity or of the undefined number. -/
def namedFloat? (s : List Char) : Option (Toml × List Char) :=
  match sign s with
  | (mark, 'i' :: 'n' :: 'f' :: rest) => some (.float (.infinite (mark = ['-'])), rest)
  | (_, 'n' :: 'a' :: 'n' :: rest) => some (.float .undefined, rest)
  | _ => none

/-- Reads a floating-point number; one that is too large is refused, but not a negative one. -/
def float? (s : List Char) : Option (Toml × List Char) :=
  match floatChars? s with
  | none => namedFloat? s
  | some (cs, rest) =>
    match Binary64.read? cs with
    | none | some (.infinite false) => none
    | some x => some (.float x, rest)

/-- Reads an integer in a base other than ten. -/
def basedInteger? : List Char → Option (Toml × List Char)
  | '0' :: 'x' :: rest => based? 16 (fun c => (hexValue? c).isSome) rest
  | '0' :: 'o' :: rest => based? 8 (fun c => '0' ≤ c && c ≤ '7') rest
  | '0' :: 'b' :: rest => based? 2 (fun c => '0' ≤ c && c ≤ '1') rest
  | _ => none

/-- Reads a boolean. -/
def boolean? : List Char → Option (Toml × List Char)
  | 't' :: 'r' :: 'u' :: 'e' :: rest => some (.boolean true, rest)
  | 'f' :: 'a' :: 'l' :: 's' :: 'e' :: rest => some (.boolean false, rest)
  | _ => none

/-- Reads a value without quotes and brackets. -/
def plain? (s : List Char) : Option (Toml × List Char) :=
  boolean? s <|> (moment? s).map (fun r => (.moment r.1, r.2)) <|> float? s <|> basedInteger? s
    <|> decimal? s

end FlatFile.Toml
