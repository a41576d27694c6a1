import FlatFile.Text.Blank
import FlatFile.Text.Letter

/-!
# Template tags

A tag is a name between doubled braces, with an optional sign: none for a variable, `#` and `^` for
the start of a section and of an inverted section, `/` for the end of one.  Blanks may stand on both
sides of the sign and behind the name.  `scan` finds the tags of a text from left to right, none
overlapping another, and the text between them.
-/

namespace FlatFile.Template

open Text

/-- What a tag does. -/
inductive TagKind where
  /-- Stands for a value. -/
  | value
  /-- Starts a section. -/
  | enter (inverted : Bool)
  /-- Ends a section. -/
  | leave
  deriving DecidableEq, Repr

/-- A tag found in a text. -/
structure Tag where
  kind : TagKind
  name : List Char
  /-- The tag as it stands. -/
  source : List Char
  deriving DecidableEq, Repr

/-- Reads the sign of a tag. -/
def sign : List Char → TagKind × List Char
  | '#' :: rest => (.enter false, rest)
  | '^' :: rest => (.enter true, rest)
  | '/' :: rest => (.leave, rest)
  | rest => (.value, rest)

/-- The tag at the start of a text. -/
def tagAt? (s : List Char) : Option Tag :=
  match s with
  | '\x7b' :: '\x7b' :: inner =>
    let signed := sign (inner.dropWhile isBlank)
    let named := signed.2.dropWhile isBlank
    let name := named.takeWhile isWordChar
    match name, (named.dropWhile isWordChar).dropWhile isBlank with
    | c :: _, '\x7d' :: '\x7d' :: rest =>
      if isDigit c then none
      else some ⟨signed.1, name, s.take (s.length - rest.length)⟩
    | _, _ => none
  | _ => none

/-- A text cut at its tags: what stands before the first tag, and each tag with what follows it. -/
abbrev Cut := List Char × List (Tag × List Char)

/-- Cuts a text at its tags, passing over the first `skip` characters. -/
def scanFrom : Nat → List Char → Cut
  | _, [] => ([], [])
  | skip + 1, _ :: rest => scanFrom skip rest
  | 0, c :: rest =>
    match tagAt? (c :: rest) with
    | none =>
      let tail := scanFrom 0 rest
      (c :: tail.1, tail.2)
    | some tag =>
      let tail := scanFrom (tag.source.length - 1) rest
      ([], (tag, tail.1) :: tail.2)

/-- Cuts a text at its tags. -/
def scan (s : List Char) : Cut := scanFrom 0 s

/-! ## Tags alone on their line -/

/-- A blank that may stand before a tag on a line of its own. -/
def isIndent (c : Char) : Bool := c == ' ' || c == '\t'

/-- A blank that may stand behind a tag on a line of its own. -/
def isTrailing (c : Char) : Bool := c == ' ' || c == '\t' || c == '\r'

/-- The text before a tag without the indent of the tag's line, when nothing else stands before the
tag on that line; `fresh` says whether the text starts a line. -/
def dropIndent? (fresh : Bool) (s : List Char) : Option (List Char) :=
  let kept := (s.reverse.dropWhile isIndent).reverse
  match kept.getLast? with
  | none => if fresh then some [] else none
  | some c => if c = '\n' then some kept else none

/-- The text behind a tag without the rest of the tag's line, when that rest is blank; `final` says
whether the text runs to the end. -/
def dropTrailing? (final : Bool) (s : List Char) : Option (List Char) :=
  match s.dropWhile isTrailing with
  | [] => if final then some [] else none
  | c :: rest => if c = '\n' then some rest else none

/-- What is left of the texts around a section tag that is alone on its line. -/
def aloneOnLine? (fresh : Bool) (before : List Char) (tag : Tag) (after : List Char)
    (final : Bool) : Option (List Char × List Char) :=
  if tag.kind = .value then none
  else match dropIndent? fresh before, dropTrailing? final after with
    | some kept, some rest => some (kept, rest)
    | _, _ => none

/-- Takes the line of every section tag that is alone on it out of the text. -/
def settle (fresh : Bool) (before : List Char) : List (Tag × List Char) → Cut
  | [] => (before, [])
  | (tag, after) :: rest =>
    match aloneOnLine? fresh before tag after rest.isEmpty with
    | some (kept, after') =>
      let tail := settle true after' rest
      (kept, (tag, tail.1) :: tail.2)
    | none =>
      let tail := settle false after rest
      (before, (tag, tail.1) :: tail.2)

/-- A text cut at its tags, without the lines that hold nothing but a section tag. -/
def cut (s : List Char) : Cut :=
  let found := scan s
  settle true found.1 found.2

end FlatFile.Template
