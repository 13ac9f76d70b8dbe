/-!
# Bytes and their ASCII classes

Template text is a list of bytes that need not be valid UTF-8. The classes below name the bytes
that the notation of templates gives a meaning to; each is a set of ASCII bytes, so none of them
holds a byte of a longer UTF-8 character.
-/

namespace Stencil

/-- A text as it is stored: bytes, valid UTF-8 or not. -/
abbrev Bytes := List UInt8

namespace Ascii

/-- The byte that introduces a tag. -/
def marker : UInt8 := '@'.toUInt8

def openList : UInt8 := '('.toUInt8

def closeList : UInt8 := ')'.toUInt8

def comma : UInt8 := ','.toUInt8

/-- The byte around a constant. -/
def quote : UInt8 := '"'.toUInt8

def openBody : UInt8 := '\x7b'.toUInt8

def closeBody : UInt8 := '\x7d'.toUInt8

def newline : UInt8 := '\n'.toUInt8

/-- A letter, a digit or `_`: the bytes of a tag's name. -/
def isIdentifier (b : UInt8) : Bool :=
  ('a'.toUInt8 ≤ b && b ≤ 'z'.toUInt8) || ('A'.toUInt8 ≤ b && b ≤ 'Z'.toUInt8) ||
    ('0'.toUInt8 ≤ b && b ≤ '9'.toUInt8) || b == '_'.toUInt8

/-- A space or a tab: what may stand between a parameter list and a body. -/
def isBlank (b : UInt8) : Bool :=
  b == ' '.toUInt8 || b == '\t'.toUInt8

/-- Space, tab, line feed, form feed and carriage return: what trimming removes. The vertical tab
is not among them. -/
def isSpace (b : UInt8) : Bool :=
  b == ' '.toUInt8 || b == '\t'.toUInt8 || b == '\n'.toUInt8 || b == '\x0c'.toUInt8 ||
    b == '\r'.toUInt8

/-- The text without the white space at its end. -/
def trimEnd (s : Bytes) : Bytes :=
  (s.reverse.dropWhile isSpace).reverse

/-- The text without the white space at either end. -/
def trim (s : Bytes) : Bytes :=
  trimEnd (s.dropWhile isSpace)

theorem length_dropWhile_le (p : UInt8 → Bool) (s : Bytes) : (s.dropWhile p).length ≤ s.length :=
  (List.dropWhile_suffix p).length_le

theorem length_trimEnd_le (s : Bytes) : (trimEnd s).length ≤ s.length := by
  have := length_dropWhile_le isSpace s.reverse
  simpa [trimEnd] using this

theorem length_trim_le (s : Bytes) : (trim s).length ≤ s.length :=
  Nat.le_trans (length_trimEnd_le _) (length_dropWhile_le isSpace s)

end Ascii

end Stencil
