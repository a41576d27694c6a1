import FlatFile.Json.Value
import FlatFile.Text.Escape

/-!
# Reading JSON

The value of a text.  Blanks may stand around each part of a value, and nothing else may follow it.
In a string the control characters must be escaped, any other character may be, and one that takes
two code units is escaped as both of them.  Each reader gives what it reads and what follows.
-/

namespace FlatFile.Json

open Text

/-- A blank between the parts of a value. -/
def isGap (c : Char) : Bool := c = ' ' || c = '\t' || c = '\n' || c = '\r'

/-- Drops blanks. -/
def skipGap (s : List Char) : List Char := s.dropWhile isGap

/-! ## Strings -/

/-- Reads a code unit of four hexadecimal digits. -/
def codeUnit? : List Char → Option (Nat × List Char)
  | a :: b :: c :: d :: rest =>
    ([a, b, c, d].mapM hexValue?).map fun ds => (ds.foldl (fun v d => 16 * v + d) 0, rest)
  | _ => none

/-- A code unit that is the first half of a character. -/
def isHigh (unit : Nat) : Bool := 0xd800 ≤ unit && unit < 0xdc00

/-- A code unit that is the second half of a character. -/
def isLow (unit : Nat) : Bool := 0xdc00 ≤ unit && unit < 0xe000

/-- The character of two halves. -/
def ofHalves (high low : Nat) : Char :=
  Char.ofNat (0x10000 + (high - 0xd800) * 0x400 + (low - 0xdc00))

/-- Reads the second half of an escaped character. -/
def low? : List Char → Option (Nat × List Char)
  | '\\' :: 'u' :: s => (codeUnit? s).filter fun r => isLow r.1
  | _ => none

/-- Reads the code units of an escaped character. -/
def codePoint? (s : List Char) : Option (Char × List Char) :=
  match codeUnit? s with
  | none => none
  | some (unit, rest) =>
    if isHigh unit then (low? rest).map fun r => (ofHalves unit r.1, r.2)
    else if isLow unit then none
    else some (Char.ofNat unit, rest)

/-- Reads what follows the backslash of an escape. -/
def escape? : List Char → Option (Char × List Char)
  | '"' :: rest => some ('"', rest)
  | '\\' :: rest => some ('\\', rest)
  | '/' :: rest => some ('/', rest)
  | 'b' :: rest => some ('\x08', rest)
  | 'f' :: rest => some ('\x0c', rest)
  | 'n' :: rest => some ('\n', rest)
  | 'r' :: rest => some ('\r', rest)
  | 't' :: rest => some ('\t', rest)
  | 'u' :: rest => codePoint? rest
  | _ => none

theorem codeUnit?_length {s rest : List Char} {n : Nat} (h : codeUnit? s = some (n, rest)) :
    rest.length < s.length := by
  unfold codeUnit? at h
  split at h
  · obtain ⟨ds, -, hd⟩ := Option.map_eq_some_iff.1 h
    obtain ⟨-, rfl⟩ := Prod.mk.inj hd
    simp only [List.length_cons]
    omega
  · cases h

theorem low?_length {s rest : List Char} {n : Nat} (h : low? s = some (n, rest)) :
    rest.length < s.length := by
  unfold low? at h
  split at h
  · have hl := codeUnit?_length (Option.filter_eq_some_iff.1 h).1
    simp only [List.length_cons]
    omega
  · cases h

theorem codePoint?_length {s rest : List Char} {c : Char} (h : codePoint? s = some (c, rest)) :
    rest.length < s.length := by
  unfold codePoint? at h
  split at h
  · cases h
  · rename_i unit behind hunit
    have hu := codeUnit?_length hunit
    split at h
    · obtain ⟨⟨low, rest'⟩, hlow, hd⟩ := Option.map_eq_some_iff.1 h
      obtain ⟨-, rfl⟩ := Prod.mk.inj hd
      exact Nat.lt_trans (low?_length hlow) hu
    · split at h
      · cases h
      · cases h
        exact hu

theorem escape?_length {s rest : List Char} {c : Char} (h : escape? s = some (c, rest)) :
    rest.length < s.length := by
  unfold escape? at h
  split at h
  case h_9 rest' =>
    have hl := codePoint?_length h
    simp only [List.length_cons]
    omega
  all_goals cases h <;> simp

/-- Reads a string behind its opening quote. -/
def string? (s : List Char) : Option (List Char × List Char) :=
  match s with
  | [] => none
  | c :: rest =>
    if c = '"' then some ([], rest)
    else if c = '\\' then
      match h : escape? rest with
      | none => none
      | some (e, rest') =>
        have := escape?_length h
        prepend e (string? rest')
    else if c.toNat < 0x20 then none
    else prepend c (string? rest)
termination_by s.length
decreasing_by
  all_goals simp only [List.length_cons]
  all_goals omega

/-! ## Numbers -/

/-- A character of a number. -/
def isNumberChar (c : Char) : Bool :=
  isDigit c || c = '-' || c = '+' || c = '.' || c = 'e' || c = 'E'

/-- The number of a literal. -/
def ofLiteral? (literal : List Char) : Option Json :=
  match hi : integer? literal with
  | some n => some (.num n)
  | none =>
    if hn : isNumber literal = true then
      some (.decimal ⟨String.ofList literal, by rwa [String.toList_ofList],
        by rwa [String.toList_ofList]⟩)
    else none

/-- Reads a number, which ends where no character of a number follows. -/
def number? (s : List Char) : Option (Json × List Char) :=
  (ofLiteral? (s.takeWhile isNumberChar)).map fun v => (v, s.dropWhile isNumberChar)

/-! ## Values

The readers of values call each other.  They take a bound on the number of calls, `fuel`, which
`read?` sets to the length of the text. -/

mutual

/-- Reads a value. -/
def value? : (fuel : Nat) → List Char → Option (Json × List Char)
  | 0, _ => none
  | fuel + 1, s =>
    match s with
    | 'n' :: 'u' :: 'l' :: 'l' :: rest => some (.null, rest)
    | 't' :: 'r' :: 'u' :: 'e' :: rest => some (.bool true, rest)
    | 'f' :: 'a' :: 'l' :: 's' :: 'e' :: rest => some (.bool false, rest)
    | '"' :: rest => (string? rest).map fun r => (.str (String.ofList r.1), r.2)
    | '[' :: rest =>
      match skipGap rest with
      | ']' :: rest' => some (.arr [], rest')
      | rest' => (items? fuel rest').map fun r => (.arr r.1, r.2)
    | '\x7b' :: rest =>
      match skipGap rest with
      | '\x7d' :: rest' => some (.obj [], rest')
      | rest' => (fields? fuel rest').map fun r => (.obj r.1, r.2)
    | _ => number? s

/-- Reads the elements of an array up to its closing bracket. -/
def items? : (fuel : Nat) → List Char → Option (List Json × List Char)
  | 0, _ => none
  | fuel + 1, s =>
    match value? fuel s with
    | none => none
    | some (v, rest) =>
      match skipGap rest with
      | ',' :: more => (items? fuel (skipGap more)).map fun r => (v :: r.1, r.2)
      | ']' :: more => some ([v], more)
      | _ => none

/-- Reads the fields of an object up to its closing brace. -/
def fields? : (fuel : Nat) → List Char → Option (List (String × Json) × List Char)
  | 0, _ => none
  | fuel + 1, s =>
    match field? fuel s with
    | none => none
    | some (field, rest) =>
      match skipGap rest with
      | ',' :: more => (fields? fuel (skipGap more)).map fun r => (field :: r.1, r.2)
      | '\x7d' :: more => some ([field], more)
      | _ => none

/-- Reads a field of an object. -/
def field? : (fuel : Nat) → List Char → Option ((String × Json) × List Char)
  | 0, _ => none
  | fuel + 1, s =>
    match s with
    | '"' :: rest =>
      match string? rest with
      | none => none
      | some (name, behind) =>
        match skipGap behind with
        | ':' :: more =>
          (value? fuel (skipGap more)).map fun r => ((String.ofList name, r.1), r.2)
        | _ => none
    | _ => none

end

/-- The value of a text. -/
def read? (text : String) : Option Json :=
  match value? (text.toList.length + 1) (skipGap text.toList) with
  | none => none
  | some (v, rest) => if skipGap rest = [] then some v else none

end FlatFile.Json
