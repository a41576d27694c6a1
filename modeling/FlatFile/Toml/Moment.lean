import FlatFile.Text.Decimal

/-!
# Dates and times in TOML

A moment is a date, a time of day, or both, and then perhaps with the offset of the local clock.
Dates must exist in the calendar; a minute may have a sixty-first second.  Fractions of a second are
cut to nine digits.
-/

namespace FlatFile.Toml

open Text

/-- A date. -/
structure Date where
  year : Nat
  month : Nat
  day : Nat
  deriving DecidableEq, Repr

/-- A time of day. -/
structure Clock where
  hour : Nat
  minute : Nat
  second : Nat
  /-- The fraction of the second in billionths. -/
  billionths : Nat
  deriving DecidableEq, Repr

/-- How far the local clock is ahead. -/
inductive Offset where
  | utc
  | minutes (m : Int)
  deriving DecidableEq, Repr

/-- A date, a time of day, or both. -/
inductive Moment where
  | date (d : Date)
  | clock (c : Clock)
  | both (d : Date) (c : Clock) (offset : Option Offset)
  deriving DecidableEq, Repr

/-! ## Reading -/

/-- Reads exactly `count` digits whose value lies between `low` and `high`. -/
def number? (count low high : Nat) (s : List Char) : Option (Nat × List Char) :=
  let ds := s.take count
  let n := digitsValue ds
  if ds.length = count ∧ ds.all isDigit ∧ low ≤ n ∧ n ≤ high then some (n, s.drop count) else none

/-- Reads one character. -/
def mark? (c : Char) : List Char → Option (List Char)
  | [] => none
  | d :: rest => if d = c then some rest else none

/-- Whether a year has a leap day. -/
def isLeap (year : Nat) : Bool := year % 4 == 0 && (year % 100 != 0 || year % 400 == 0)

/-- The number of days of a month. -/
def daysIn (year month : Nat) : Nat :=
  if month = 2 then if isLeap year then 29 else 28
  else if month = 4 ∨ month = 6 ∨ month = 9 ∨ month = 11 then 30
  else 31

/-- Reads a date. -/
def date? (s : List Char) : Option (Date × List Char) := do
  let (year, s) ← number? 4 0 9999 s
  let s ← mark? '-' s
  let (month, s) ← number? 2 1 12 s
  let s ← mark? '-' s
  let (day, s) ← number? 2 1 (daysIn year month) s
  pure (⟨year, month, day⟩, s)

/-- The fraction of a second in billionths. -/
def billionthsOf (ds : List Char) : Nat :=
  let kept := ds.take 9
  digitsValue kept * Nat.pow 10 (9 - kept.length)

/-- Reads a fraction of a second, when there is one. -/
def secondFraction : List Char → Nat × List Char
  | '.' :: rest =>
    match rest.takeWhile isDigit with
    | [] => (0, '.' :: rest)
    | ds => (billionthsOf ds, rest.dropWhile isDigit)
  | s => (0, s)

/-- Reads a time of day. -/
def clock? (s : List Char) : Option (Clock × List Char) := do
  let (hour, s) ← number? 2 0 23 s
  let s ← mark? ':' s
  let (minute, s) ← number? 2 0 59 s
  let s ← mark? ':' s
  let (second, s) ← number? 2 0 60 s
  let (part, s) := secondFraction s
  pure (⟨hour, minute, second, part⟩, s)

/-- Reads hours and minutes of an offset as minutes. -/
def offsetMinutes? (s : List Char) : Option (Nat × List Char) := do
  let (hour, s) ← number? 2 0 23 s
  let s ← mark? ':' s
  let (minute, s) ← number? 2 0 59 s
  pure (60 * hour + minute, s)

/-- Reads an offset, when there is one; `none` when it is malformed. -/
def offset? : List Char → Option (Option Offset × List Char)
  | [] => some (none, [])
  | c :: rest =>
    if c = 'Z' ∨ c = 'z' then some (some .utc, rest)
    else if c = '+' then (offsetMinutes? rest).map fun r => (some (.minutes r.1), r.2)
    else if c = '-' then (offsetMinutes? rest).map fun r => (some (.minutes (-(r.1 : Int))), r.2)
    else some (none, c :: rest)

/-- The time of day behind a date, with its offset; `none` when there is no time. -/
def timeAfter? : List Char → Option (Clock × Option Offset × List Char)
  | [] => none
  | c :: rest =>
    if c = 'T' ∨ c = 't' ∨ c = ' ' then do
      let (time, s) ← clock? rest
      let (offset, s) ← offset? s
      pure (time, offset, s)
    else none

/-- Reads a moment. -/
def moment? (s : List Char) : Option (Moment × List Char) :=
  match date? s with
  | some (d, rest) =>
    match timeAfter? rest with
    | some (time, offset, rest') => some (.both d time offset, rest')
    | none => some (.date d, rest)
  | none => (clock? s).map fun r => (.clock r.1, r.2)

/-! ## Writing -/

/-- A number with zeros in front, up to a width. -/
def padded (width n : Nat) : List Char :=
  let ds := Nat.toDigits 10 n
  List.replicate (width - ds.length) '0' ++ ds

/-- A date as text. -/
def Date.chars (d : Date) : List Char :=
  padded 4 d.year ++ '-' :: padded 2 d.month ++ '-' :: padded 2 d.day

/-- A time of day as text, without zeros at the end of the fraction. -/
def Clock.chars (c : Clock) : List Char :=
  padded 2 c.hour ++ ':' :: padded 2 c.minute ++ ':' :: padded 2 c.second
    ++ if c.billionths = 0 then []
      else '.' :: ((padded 9 c.billionths).reverse.dropWhile (· == '0')).reverse

/-- An offset as text. -/
def Offset.chars : Offset → List Char
  | utc => ['Z']
  | minutes m =>
    (if m < 0 then '-' else '+') :: padded 2 (m.natAbs / 60) ++ ':' :: padded 2 (m.natAbs % 60)

/-- A moment as text. -/
def Moment.text : Moment → String
  | date d => String.ofList d.chars
  | clock c => String.ofList c.chars
  | both d c offset =>
    String.ofList (d.chars ++ 'T' :: c.chars ++ (offset.map Offset.chars).getD [])

example : (moment? "1979-05-27 07:32:00.5-07:00".toList).map (fun r => r.1.text)
    = some "1979-05-27T07:32:00.5-07:00" := by decide +kernel

example : moment? "2023-02-29".toList = none := by decide +kernel

end FlatFile.Toml
