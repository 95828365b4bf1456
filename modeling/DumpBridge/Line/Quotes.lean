import DumpBridge.Literal.Segment

/-!
# Rules for every line: quotes, escapes and dates

These three rules also run on row data.  Backticks around names go; escapes of the dump's quoting
become the script's; and dates that do not exist become `NULL`.
-/

namespace DumpBridge.Line

open Literal (mapCode)

/-- Takes the backticks off names.  Those inside literals are data and stay. -/
def stripNameQuotes (line : Text) : Text :=
  mapCode .mysql (fun code => code.filter (· != '\x60')) line

/-- What stands for an escaped backslash while escaped quote marks are changed. -/
def backslashMark : Text :=
  "\x00BSLASH\x00".toList

/-- Halves doubled backslashes and doubles escaped quote marks.  Doubled backslashes are set aside
first, so that the second of them does not escape a quote mark. -/
def normalizeEscapes (line : Text) : Text :=
  if '\\' ∈ line then
    Text.replace backslashMark ['\\']
      (Text.replace ['\\', '\''] ['\'', '\''] (Text.replace ['\\', '\\'] backslashMark line))
  else line

/-- Replaces the zero date, with or without a time, by `NULL`. -/
def nullZeroDates (line : Text) : Text :=
  Text.replace "'0000-00-00'".toList "NULL".toList
    (Text.replace "'0000-00-00 00:00:00'".toList "NULL".toList line)

end DumpBridge.Line
