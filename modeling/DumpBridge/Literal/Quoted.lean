import DumpBridge.Literal.Items

/-!
# Values in quote marks

`quote` writes a value as a literal of the script, and `decode` reads the body of a literal.  The
values of a list are read by `valueList?`, which refuses a list with an item that is no literal.
-/

namespace DumpBridge.Literal

/-- A value as a literal: between single quote marks, with each mark inside doubled. -/
def quote (value : Text) : Text :=
  '\'' :: Text.replace ['\''] ['\'', '\''] value ++ ['\'']

/-- The value of a literal's body.  A doubled mark is one; where backslashes escape, one before a
backslash or a quote mark goes, and any other stays. -/
def decode (q : Quoting) : Text → Text
  | [] => []
  | [c] => [c]
  | c :: d :: rest =>
    if c = '\'' && d = '\'' then '\'' :: decode q rest
    else if q.escapes c && (d = '\\' || isQuote d) then d :: decode q rest
    else c :: decode q (d :: rest)

/-- Whether a text starts and ends with a single quote mark, not the same one. -/
def isSingleQuoted (t : Text) : Bool :=
  2 ≤ t.length && Text.startsWith '\'' t && Text.endsWith '\'' t

/-- The value of an item that is a literal in single quote marks, with any blanks around it. -/
def itemValue? (q : Quoting) (item : Text) : Option Text :=
  let t := Text.trim item
  if isSingleQuoted t then some (decode q t.tail.dropLast) else none

/-- The values of a list, if it has any and all its items are literals. -/
def valueList? (q : Quoting) (t : Text) : Option (List Text) :=
  match items q t with
  | [] => none
  | list => list.mapM (itemValue? q)

end DumpBridge.Literal
