/-!
# Lines

Three ways of cutting a sequence into lines.  `cutLines` drops the line ends, `\n` or `\r\n`, and
works on characters and on bytes alike; `keepLines` leaves the ends in place and also ends a line
at a lone `\r`.  `cutAt` cuts at every occurrence of a separator.
-/

namespace FlatFile.Text

variable {α : Type} [DecidableEq α]

/-- The lines of a sequence: each `lf` ends a line, a `cr` right before it belongs to the end, and
what follows the last end is a line unless it is empty. -/
def cutLines (lf cr : α) : List α → List (List α)
  | [] => []
  | a :: rest =>
    if a = lf then [] :: cutLines lf cr rest
    else if a = cr ∧ rest.head? = some lf then cutLines lf cr rest
    else match cutLines lf cr rest with
      | [] => [[a]]
      | l :: ls => (a :: l) :: ls

/-- The pieces between the occurrences of `sep`; there is always at least one. -/
def cutAt (sep : α) : List α → List (List α)
  | [] => [[]]
  | a :: rest =>
    if a = sep then [] :: cutAt sep rest
    else match cutAt sep rest with
      | [] => [[a]]
      | p :: ps => (a :: p) :: ps

/-- The lines of a text. -/
def lines (s : String) : List String :=
  (cutLines '\n' '\r' s.toList).map String.ofList

/-- The lines of a text with their ends, which are `\n`, `\r\n` and a lone `\r`. -/
def keepLines : List Char → List (List Char)
  | [] => []
  | c :: rest =>
    if c = '\n' ∨ (c = '\r' ∧ rest.head? ≠ some '\n') then [c] :: keepLines rest
    else match keepLines rest with
      | [] => [[c]]
      | l :: ls => (c :: l) :: ls

/-- The lines of a sequence of bytes as texts, each decoded on its own; `none` when one of them is
no text. -/
def byteLines? (bytes : ByteArray) : Option (List String) :=
  (cutLines (10 : UInt8) 13 bytes.data.toList).mapM fun line =>
    String.fromUTF8? (ByteArray.mk line.toArray)

end FlatFile.Text
