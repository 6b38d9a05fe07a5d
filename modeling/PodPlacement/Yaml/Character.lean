/-! # Characters of YAML

Which characters a YAML text may hold, which ones end a line, and which ones make up names. -/

namespace PodPlacement.Yaml

/-- The character ends a line. -/
def isBreak (c : Char) : Bool :=
  c == '\n' || c == '\r' || c == '\x85' || c == '\u2028' || c == '\u2029'

/-- The character is a space or a tab, or it ends a line. -/
def isBlankOrBreak (c : Char) : Bool := c == ' ' || c == '\t' || isBreak c

/-- The character can stand in a text without an escape. -/
def isPrintable (c : Char) : Bool :=
  let n := c.toNat
  n == 0xA || (0x20 ≤ n && n ≤ 0x7E) || (0xA0 ≤ n && n ≤ 0xFFFD && n != 0xFEFF) || 0x10000 ≤ n

/-- The characters a text may hold at all. -/
def isReadable (c : Char) : Bool :=
  let n := c.toNat
  n == 0x9 || n == 0xA || n == 0xD || (0x20 ≤ n && n ≤ 0x7E) || n == 0x85 ||
    (0xA0 ≤ n && n ≤ 0xFFFD) || 0x10000 ≤ n

/-- The byte order mark, which is passed over at the start of a line. -/
def byteOrderMark : Char := '\uFEFF'

/-- The character can stand in a name: a letter or digit of ASCII, an underscore or a dash. -/
def isNameChar (c : Char) : Bool := c.isAlphanum || c == '_' || c == '-'

end PodPlacement.Yaml
