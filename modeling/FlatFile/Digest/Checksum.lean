import FlatFile.Digest.Sha256
import FlatFile.Text.Escape

/-!
# Checksums

The digest of a file's contents as lower-case hexadecimal text, which tells whether a file still is
what was generated, and the short form of it that people read.
-/

namespace FlatFile

/-- A checksum, as text. -/
structure Checksum where
  text : String
  deriving DecidableEq, Repr

namespace Checksum

/-- A byte as two hexadecimal digits. -/
def hexByte (b : UInt8) : List Char := [Text.hexDigit (b.toNat / 16), Text.hexDigit b.toNat]

/-- The checksum of bytes. -/
def ofBytes (bytes : ByteArray) : Checksum :=
  ⟨String.ofList ((Sha256.digest bytes.data.toList).flatMap hexByte)⟩

/-- The checksum of a text. -/
def ofText (s : String) : Checksum := ofBytes s.toUTF8

/-- The characters of a text that its first `n` bytes hold; `none` when the `n`-th byte is inside a
character. -/
def takeBytes? : Nat → List Char → Option (List Char)
  | _, [] => some []
  | n, c :: rest =>
    if n = 0 then some []
    else if c.utf8Size ≤ n then (takeBytes? (n - c.utf8Size) rest).map (c :: ·)
    else none

/-- The first twelve bytes of a checksum; `none` when they end inside a character. -/
def short? (c : Checksum) : Option String := (takeBytes? 12 c.text.toList).map String.ofList

/-- The short form of a checksum. -/
def short (c : Checksum) : String := c.short?.getD c.text

end Checksum

end FlatFile
