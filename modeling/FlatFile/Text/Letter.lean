/-!
# Letter case

The upper-case and lower-case forms of a character.  A form may be several characters.  The tables
list the characters outside ASCII whose form holds an ASCII letter; every other character outside
ASCII is its own form here, which is enough wherever only ASCII letters are looked at afterwards.
-/

namespace FlatFile.Text

/-- Characters outside ASCII whose lower-case form holds an ASCII letter. -/
def lowerForms : List (Char × List Char) :=
  [('\u0130', ['i', '\u0307']), ('\u212a', ['k'])]

/-- Characters outside ASCII whose upper-case form holds an ASCII letter. -/
def upperForms : List (Char × List Char) :=
  [('\u00df', ['S', 'S']), ('\u0131', ['I']), ('\u0149', ['\u02bc', 'N']), ('\u017f', ['S']),
   ('\u01f0', ['J', '\u030c']), ('\u1e96', ['H', '\u0331']), ('\u1e97', ['T', '\u0308']),
   ('\u1e98', ['W', '\u030a']), ('\u1e99', ['Y', '\u030a']), ('\u1e9a', ['A', '\u02be']),
   ('\ufb00', ['F', 'F']), ('\ufb01', ['F', 'I']), ('\ufb02', ['F', 'L']),
   ('\ufb03', ['F', 'F', 'I']), ('\ufb04', ['F', 'F', 'L']), ('\ufb05', ['S', 'T']),
   ('\ufb06', ['S', 'T'])]

/-- The lower-case form of a character. -/
def lowerForm (c : Char) : List Char := (lowerForms.lookup c).getD [c.toLower]

/-- The upper-case form of a character. -/
def upperForm (c : Char) : List Char := (upperForms.lookup c).getD [c.toUpper]

/-- A text in lower case. -/
def lower (s : String) : String := String.ofList (s.toList.flatMap lowerForm)

/-- A text with its ASCII letters in lower case. -/
def asciiLower (s : String) : String := String.ofList (s.toList.map Char.toLower)

/-- An ASCII digit. -/
def isDigit (c : Char) : Bool := '0' ≤ c && c ≤ '9'

/-- An ASCII letter, an ASCII digit or the underscore. -/
def isWordChar (c : Char) : Bool := c.isAlphanum || c == '_'

end FlatFile.Text
