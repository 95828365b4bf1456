import DumpBridge.Text.Utf8

/-!
# Places in a YAML document

Indentation means something in YAML, so a reader keeps count of lines and columns.  A line
ends at any of five breaks; a carriage return and a line feed are one break.
-/

namespace DumpBridge.Yaml

/-- A character that ends a line. -/
def isBreak (c : Char) : Bool :=
  c = '\n' || c = '\r' || c = '\x85' || c = '\u2028' || c = '\u2029'

/-- A space or a tab. -/
def isSpace (c : Char) : Bool :=
  c = ' ' || c = '\t'

/-- Whether what comes next, if anything, is a space or a break. -/
def isEdge (next : Option Char) : Bool :=
  next.all fun c => isSpace c || isBreak c

/-- A character that may stand in a document. -/
def isAllowed (c : Char) : Bool :=
  let n := c.toNat
  c = '\t' || c = '\n' || c = '\r' || (0x20 ≤ n && n ≤ 0x7E) || n = 0x85 || (0xA0 ≤ n && n ≤ 0xD7FF)
    || (0xE000 ≤ n && n ≤ 0xFFFD) || 0x10000 ≤ n

/-- A place in a document: what follows it, its line and column in characters, and its offset in
bytes. -/
structure Place where
  rest : Text
  line : Nat := 0
  column : Nat := 0
  offset : Nat := 0

namespace Place

/-- The place `n` characters on, on the same line. -/
def advance (p : Place) (n : Nat) : Place :=
  { p with
    rest := p.rest.drop n
    column := p.column + n
    offset := p.offset + Text.byteLength (p.rest.take n) }

/-- The place before `rest`, which ends what follows on the same line. -/
def advanceTo (p : Place) (rest : Text) : Place :=
  p.advance (p.rest.length - rest.length)

/-- The next character. -/
def next? (p : Place) : Option Char :=
  p.rest.head?

/-- Whether the next character is one of the given ones. -/
def isAt (p : Place) (cs : String) : Bool :=
  p.next?.any fun c => c ∈ cs.toList

/-- How many characters the break at the place has. -/
def breakLength (p : Place) : Nat :=
  match p.rest with
  | '\r' :: '\n' :: _ => 2
  | c :: _ => if isBreak c then 1 else 0
  | [] => 0

/-- The break at the place, as it counts in a value: only two of the breaks are kept as they are. -/
def breakText (p : Place) : Text :=
  match p.next? with
  | none => []
  | some c => if c = '\u2028' || c = '\u2029' then [c] else if isBreak c then ['\n'] else []

/-- The place after the break. -/
def nextLine (p : Place) : Place :=
  if p.breakLength = 0 then p
  else { p.advance p.breakLength with line := p.line + 1, column := 0 }

/-- Whether a line starts here with the given three characters alone. -/
def isMark (p : Place) (mark : String) : Bool :=
  p.column = 0 && mark.toList.isPrefixOf p.rest && isEdge p.rest[3]?

/-- Whether a document starts or ends here. -/
def isDocumentMark (p : Place) : Bool :=
  p.isMark "---" || p.isMark "..."

end Place
end DumpBridge.Yaml
