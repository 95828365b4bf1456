import DumpBridge.Text.WordTable
import DumpBridge.Text.DigitTable

/-!
# Classes of characters

Blanks, decimal digits and word characters, over all of Unicode.  Blanks separate the words of a
statement, digits make widths and versions, and word characters make names: a word ends where the
class changes.
-/

namespace DumpBridge.Text

/-- The blanks from U+0080 on: next line, no-break space, and the spaces and separators of Unicode's
property `White_Space`. -/
def blankRanges : List (Nat × Nat) :=
  [(0x0085, 0x0085), (0x00A0, 0x00A0), (0x1680, 0x1680), (0x2000, 0x200A), (0x2028, 0x2029),
   (0x202F, 0x202F), (0x205F, 0x205F), (0x3000, 0x3000)]

/-- White space of any kind. -/
def isBlank (c : Char) : Bool :=
  c = ' ' || (if c.toNat < 0x80 then 0x09 ≤ c.toNat && c.toNat ≤ 0x0D
    else inRanges blankRanges c.toNat)

/-- White space of ASCII, without the vertical tab. -/
def isAsciiBlank (c : Char) : Bool :=
  c = ' ' || c = '\t' || c = '\n' || c = '\x0c' || c = '\r'

/-- A decimal digit of any script. -/
def isDigit (c : Char) : Bool :=
  if c.toNat < 0x80 then c.isDigit else inRanges digitRanges c.toNat

/-- A character of a word: letter, mark, digit, connector or joiner. -/
def isWord (c : Char) : Bool :=
  if c.toNat < 0x80 then c.isAlphanum || c = '_' else inRanges wordRanges c.toNat

/-- A letter `A` to `Z` or `a` to `z`, or an underscore: how an unquoted name starts. -/
def isNameStart (c : Char) : Bool :=
  c.isAlpha || c = '_'

end DumpBridge.Text
