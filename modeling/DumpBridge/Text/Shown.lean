import DumpBridge.Text.Basic
import DumpBridge.Text.PrintTable

/-!
# Values shown in messages

A message shows a value between double quotes, so that blanks and odd characters can be seen.
What has no glyph of its own is shown by its number.
-/

namespace DumpBridge.Text

/-- Whether a character is shown as it is. -/
def isPrintable (c : Char) : Bool :=
  let n := c.toNat
  if n < 0x80 then 0x20 ≤ n && n < 0x7F
  else !inRanges unprintableRanges n && !inRanges extenderRanges n

/-- A character as it is shown. -/
def shownChar (c : Char) : Text :=
  if c = '\x00' then ['\\', '0']
  else if c = '\t' then ['\\', 't']
  else if c = '\n' then ['\\', 'n']
  else if c = '\r' then ['\\', 'r']
  else if c = '"' || c = '\\' then ['\\', c]
  else if isPrintable c then [c]
  else "\\u\x7b".toList ++ Nat.toDigits 16 c.toNat ++ ['\x7d']

/-- A value as it is shown. -/
def shown (t : Text) : Text :=
  '"' :: t.flatMap shownChar ++ ['"']

end DumpBridge.Text
