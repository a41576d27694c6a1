import FlatFile.Binary64.Shortest
import FlatFile.Text.Decimal

/-!
# Reading and writing floating-point numbers

A number is read from digits with an optional point and an optional exponent, or from the name of an
infinity or of the undefined number in any case.  It is written with the fewest digits that read
back, always without an exponent, and without a point when no digits follow it.
-/

namespace FlatFile.Binary64

open Text

/-! ## Reading -/

/-- Reads what follows the digits: nothing, or an exponent. -/
def exponent? : List Char → Option Int
  | [] => some 0
  | c :: rest => if c = 'e' ∨ c = 'E' then readSigned? rest else none

/-- Reads the digits behind a point, when there is one. -/
def fraction : List Char → List Char × List Char
  | '.' :: rest => (rest.takeWhile isDigit, rest.dropWhile isDigit)
  | rest => ([], rest)

/-- Reads a decimal: digits on at least one side of the point, and an exponent. -/
def decimal? (s : List Char) : Option Decimal :=
  let whole := s.takeWhile isDigit
  let (part, rest) := fraction (s.dropWhile isDigit)
  if whole = [] ∧ part = [] then none
  else (exponent? rest).map fun e => ⟨digitsValue (whole ++ part), e - part.length⟩

/-- Reads a number behind its sign. -/
def unsigned? (negative : Bool) (s : List Char) : Option Binary64 :=
  let name := s.map Char.toLower
  if name = "inf".toList ∨ name = "infinity".toList then some (.infinite negative)
  else if name = "nan".toList then some .undefined
  else (decimal? s).map (ofDecimal negative)

/-- Reads a number. -/
def read? : List Char → Option Binary64
  | '-' :: rest => unsigned? true rest
  | '+' :: rest => unsigned? false rest
  | s => unsigned? false s

/-! ## Writing -/

/-- The digits behind the point, without zeros at the end. -/
def dropZeros (s : List Char) : List Char := (s.reverse.dropWhile (· == '0')).reverse

/-- A decimal without an exponent. -/
def positional (d : Decimal) : List Char :=
  let ds := Nat.toDigits 10 d.digits
  if 0 ≤ d.exponent then ds ++ List.replicate d.exponent.toNat '0'
  else
    let count := (-d.exponent).toNat
    let padded := List.replicate (count + 1 - ds.length) '0' ++ ds
    let whole := padded.take (padded.length - count)
    match dropZeros (padded.drop (padded.length - count)) with
    | [] => whole
    | part => whole ++ '.' :: part

/-- A number with its sign in front; the undefined number has none. -/
def text : Binary64 → String
  | finite negative size =>
    String.ofList ((if negative then ['-'] else []) ++ positional size.shortest)
  | infinite negative => if negative then "-inf" else "inf"
  | undefined => "NaN"

example : (read? "1.10".toList).map text = some "1.1" := by decide +kernel

example : (read? "-1e-7".toList).map text = some "-0.0000001" := by decide +kernel

example : (read? "9223372036854775808".toList).map text = some "9223372036854776000" := by
  decide +kernel

end FlatFile.Binary64
