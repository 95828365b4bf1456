import DumpBridge.Text.Basic
import DumpBridge.Text.LowerTable
import DumpBridge.Text.CasedTable

/-!
# Lower case

Names are compared in lower case, over all of Unicode.  Two letters need more than a table: the
capital I with a dot becomes two characters, and a capital sigma at the end of a word becomes the
final sigma.
-/

namespace DumpBridge.Text

/-- Whether a letter has upper and lower case. -/
def isCased (c : Char) : Bool :=
  if c.toNat < 0x80 then c.isAlpha else inRanges casedRanges c.toNat

/-- Whether a character is skipped when the letters around a sigma are looked for. -/
def isCaseIgnorable (c : Char) : Bool :=
  if c.toNat < 0x80 then c = '\'' || c = '.' || c = ':' || c = '^' || c = '\x60'
  else inRanges caseIgnorableRanges c.toNat

/-- The lower case of a letter that has one character. -/
def lowerChar (c : Char) : Char :=
  if c.toNat < 0x80 then c.toLower
  else
    match lowerRuns.find? fun run =>
        decide (run.first ≤ c.toNat) && decide (c.toNat ≤ run.last)
          && decide ((c.toNat - run.first) % run.step = 0) with
    | some run => Char.ofNat (c.toNat + run.shift).toNat
    | none => c

/-- Whether the first character that is not skipped is a letter with case. -/
def meetsCased (t : Text) : Bool :=
  match t.dropWhile isCaseIgnorable with
  | c :: _ => isCased c
  | [] => false

/-- The lower case of a text; `before` holds the characters before it, last first. -/
def lowerFrom (before : Text) : Text → Text
  | [] => []
  | c :: rest =>
    let lowered :=
      if c = 'Σ' then
        if meetsCased before && !meetsCased rest then ['ς'] else ['σ']
      else if c = '\u0130' then ['i', '\u0307']
      else [lowerChar c]
    lowered ++ lowerFrom (c :: before) rest

/-- The lower case of a text. -/
def lower (t : Text) : Text :=
  lowerFrom [] t

end DumpBridge.Text
