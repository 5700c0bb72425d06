/-!
# Characters of YAML

The classes of characters that reading and writing share.
-/

namespace RouteManifest

namespace Yaml

/-- Whether a character ends a line. -/
def isBreak (c : Char) : Bool :=
  c == '\n' || c == '\r' || c.toNat == 0x85 || c.toNat == 0x2028 || c.toNat == 0x2029

/-- Whether a character is a blank or a tab. -/
def isBlank (c : Char) : Bool := c == ' ' || c == '\t'

/-- Whether a character separates: a blank, a tab, a break, or the character zero. -/
def isSeparator (c : Char) : Bool := isBlank c || isBreak c || c == '\x00'

/-- Whether a text has ended, or a separator follows. -/
def endsWord (cs : List Char) : Bool := cs.head?.all isSeparator

/-- Whether a character can be written as it is. -/
def isPrintable (c : Char) : Bool :=
  let n := c.toNat
  n == 0x0A || (0x20 ≤ n && n ≤ 0x7E)
    || (0xA0 ≤ n && n != 0xFEFF && n != 0xFFFE && n != 0xFFFF)

/-- Whether a document can hold a character. -/
def isReadable (c : Char) : Bool :=
  isPrintable c || c == '\t' || c == '\r' || c.toNat == 0x85 || c.toNat == 0xFEFF

/-- Whether a character can stand in the name of an anchor or a directive. -/
def isNamePart (c : Char) : Bool := (c.isAlphanum) || c == '_' || c == '-'

end Yaml

end RouteManifest
