import FlatFile.Text.Escape

/-!
# Quoted text in TOML

The four ways of quoting a text: basic strings in `"` with escapes, literal strings in `'` without
any, and the multi-line form of both in threefold quotes.  Each reader starts behind the opening
quotes and gives the text and what follows the closing ones.
-/

namespace FlatFile.Toml

open Text (hexValue? prepend)

/-- A character that may stand as it is in a string or a comment: no control character but the
tab. -/
def isPlain (c : Char) : Bool := c == '\t' || (0x20 ≤ c.toNat && c.toNat != 0x7f)

/-- A blank within a line. -/
def isSpace (c : Char) : Bool := c == ' ' || c == '\t'

/-- The character of a hexadecimal code point. -/
def codePoint? (digits : List Char) : Option Char :=
  match digits.mapM hexValue? with
  | none => none
  | some ds =>
    let n := ds.foldl (fun v d => 16 * v + d) 0
    if n.isValidChar then some (Char.ofNat n) else none

/-- Reads a code point of `count` digits. -/
def hexEscape? (count : Nat) (s : List Char) : Option (Char × List Char) :=
  if s.length < count then none
  else (codePoint? (s.take count)).map fun c => (c, s.drop count)

/-- Reads what follows the backslash of an escape. -/
def escape? : List Char → Option (Char × List Char)
  | 'b' :: rest => some ('\x08', rest)
  | 't' :: rest => some ('\t', rest)
  | 'n' :: rest => some ('\n', rest)
  | 'f' :: rest => some ('\x0c', rest)
  | 'r' :: rest => some ('\r', rest)
  | '"' :: rest => some ('"', rest)
  | '\\' :: rest => some ('\\', rest)
  | 'u' :: rest => hexEscape? 4 rest
  | 'U' :: rest => hexEscape? 8 rest
  | _ => none

theorem hexEscape?_length {n : Nat} {s rest : List Char} {c : Char}
    (h : hexEscape? n s = some (c, rest)) : rest.length ≤ s.length := by
  unfold hexEscape? at h
  split at h
  · cases h
  · obtain ⟨d, -, hd⟩ := Option.map_eq_some_iff.1 h
    obtain ⟨-, rfl⟩ := Prod.mk.inj hd
    simp

theorem escape?_length {s rest : List Char} {c : Char} (h : escape? s = some (c, rest)) :
    rest.length < s.length := by
  unfold escape? at h
  split at h
  case h_8 rest' =>
    have hl := hexEscape?_length h
    simp only [List.length_cons]
    omega
  case h_9 rest' =>
    have hl := hexEscape?_length h
    simp only [List.length_cons]
    omega
  all_goals cases h <;> simp

/-- Reads a basic string. -/
def basic? (s : List Char) : Option (List Char × List Char) :=
  match s with
  | [] => none
  | c :: rest =>
    if c = '"' then some ([], rest)
    else if c = '\\' then
      match h : escape? rest with
      | none => none
      | some (e, rest') =>
        have := escape?_length h
        prepend e (basic? rest')
    else if isPlain c then prepend c (basic? rest)
    else none
termination_by s.length
decreasing_by
  all_goals simp only [List.length_cons]
  all_goals omega

/-- Reads a literal string. -/
def literal? : List Char → Option (List Char × List Char)
  | [] => none
  | c :: rest =>
    if c = '\x27' then some ([], rest)
    else if isPlain c then prepend c (literal? rest)
    else none

/-- Drops a line end. -/
def lineEnd? : List Char → Option (List Char)
  | '\n' :: rest => some rest
  | '\r' :: '\n' :: rest => some rest
  | _ => none

/-- Drops blanks and line ends. -/
def skipBlank : List Char → List Char
  | [] => []
  | c :: rest =>
    if isSpace c ∨ c = '\n' ∨ (c = '\r' ∧ rest.head? = some '\n') then skipBlank rest
    else c :: rest

theorem skipBlank_length (s : List Char) : (skipBlank s).length ≤ s.length := by
  induction s with
  | nil => simp [skipBlank]
  | cons c rest ih =>
    simp only [skipBlank]
    split
    · simp only [List.length_cons]; omega
    · simp

theorem lineEnd?_length {s rest : List Char} (h : lineEnd? s = some rest) :
    rest.length < s.length := by
  unfold lineEnd? at h
  split at h
  · cases h; simp
  · cases h; simp only [List.length_cons]; omega
  · cases h

/-- Reads what follows a backslash at the end of a line: the line end and all blanks behind it. -/
def continuation? (s : List Char) : Option (List Char) :=
  (lineEnd? (s.dropWhile isSpace)).map skipBlank

theorem dropWhile_length (p : Char → Bool) (s : List Char) :
    (s.dropWhile p).length ≤ s.length := by
  induction s with
  | nil => simp
  | cons c rest ih =>
    simp only [List.dropWhile_cons]
    split
    · simp only [List.length_cons]; omega
    · simp

theorem continuation?_length {s rest : List Char} (h : continuation? s = some rest) :
    rest.length < s.length := by
  obtain ⟨r, hr, rfl⟩ := Option.map_eq_some_iff.1 h
  have h1 := lineEnd?_length hr
  have h2 := skipBlank_length r
  have h3 := dropWhile_length isSpace s
  omega

/-- Up to two quotes that stand right before the closing ones and belong to the text. -/
def extraQuotes (quote : Char) : List Char → List Char × List Char
  | a :: b :: rest =>
    if a = quote then
      if b = quote then ([quote, quote], rest) else ([quote], b :: rest)
    else ([], a :: b :: rest)
  | [a] => if a = quote then ([quote], []) else ([], [a])
  | [] => ([], [])

/-- What follows a threefold quote. -/
def closing? (quote : Char) : List Char → Option (List Char)
  | a :: b :: c :: rest => if a = quote ∧ b = quote ∧ c = quote then some rest else none
  | _ => none

/-- Reads a multi-line basic string. -/
def longBasic? (s : List Char) : Option (List Char × List Char) :=
  match closing? '"' s with
  | some rest => some (extraQuotes '"' rest)
  | none =>
    match s with
    | [] => none
    | c :: rest =>
      if c = '\\' then
        match hc : continuation? rest with
        | some rest' =>
          have := continuation?_length hc
          longBasic? rest'
        | none =>
          match he : escape? rest with
          | none => none
          | some (e, rest') =>
            have := escape?_length he
            prepend e (longBasic? rest')
      else if c = '\r' then if rest.head? = some '\n' then longBasic? rest else none
      else if c = '\n' ∨ isPlain c then prepend c (longBasic? rest)
      else none
termination_by s.length
decreasing_by
  all_goals simp only [List.length_cons]
  all_goals omega

/-- Reads a multi-line literal string. -/
def longLiteral? (s : List Char) : Option (List Char × List Char) :=
  match closing? '\x27' s with
  | some rest => some (extraQuotes '\x27' rest)
  | none =>
    match s with
    | [] => none
    | c :: rest =>
      if c = '\r' then if rest.head? = some '\n' then longLiteral? rest else none
      else if c = '\n' ∨ isPlain c then prepend c (longLiteral? rest)
      else none
termination_by s.length

/-- Drops a line end right behind opening threefold quotes. -/
def dropFirstEnd (s : List Char) : List Char := (lineEnd? s).getD s

/-- Reads a quoted text with its opening quotes; `none` when there is none. -/
def quoted? (s : List Char) : Option (List Char × List Char) :=
  match closing? '"' s, closing? '\x27' s, s with
  | some rest, _, _ => longBasic? (dropFirstEnd rest)
  | _, some rest, _ => longLiteral? (dropFirstEnd rest)
  | _, _, '"' :: rest => basic? rest
  | _, _, '\x27' :: rest => literal? rest
  | _, _, _ => none

end FlatFile.Toml
