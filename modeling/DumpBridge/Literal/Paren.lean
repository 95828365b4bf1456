import DumpBridge.Literal.Lexeme
import DumpBridge.Text.Utf8

/-!
# Parentheses outside literals

`closing?` finds the parenthesis that matches the one a text starts with, and `opening?` the
first one that opens; parentheses inside literals count for neither.  Positions are indices of
characters.  `closingByte?` and `openingByte?` do the same with byte offsets.
-/

namespace DumpBridge.Literal

/-- How many parentheses are open after a lexeme, if there were `depth` before it. -/
def Lexeme.depthAfter (depth : Nat) : Lexeme → Nat
  | code '(' => depth + 1
  | code ')' => depth - 1
  | _ => depth

/-- The lexemes before the closing parenthesis that brings `depth` open parentheses down to none. -/
def groupFrom : Nat → List Lexeme → Option (List Lexeme)
  | _, [] => none
  | depth, lexeme :: rest =>
    if lexeme = .code ')' && depth ≤ 1 then some []
    else (groupFrom (lexeme.depthAfter depth) rest).map (lexeme :: ·)

/-- The index of the parenthesis that matches the one at the start of the text. -/
def closing? (q : Quoting) (t : Text) : Option Nat :=
  if Text.startsWith '(' t then
    (groupFrom 0 (lexemes q t)).map fun group => (group.flatMap Lexeme.text).length
  else none

/-- How many characters stand before the first opening parenthesis that has at least `skip`
characters before it. -/
def openingFrom : Nat → List Lexeme → Option Nat
  | _, [] => none
  | skip, .code c :: rest =>
    if c = '(' && skip = 0 then some 0 else (openingFrom (skip - 1) rest).map (· + 1)
  | skip, lexeme :: rest =>
    (openingFrom (skip - lexeme.text.length) rest).map (· + lexeme.text.length)

/-- The index of the first opening parenthesis outside literals at index `start` or later. -/
def opening? (q : Quoting) (t : Text) (start : Nat) : Option Nat :=
  openingFrom start (lexemes q t)

/-- The byte offset of the parenthesis that matches the one at byte `offset`. -/
def closingByte? (q : Quoting) (t : Text) (offset : Nat) : Option Nat := do
  let k ← t.charIndex? offset
  let n ← closing? q (t.drop k)
  return t.byteOffset (k + n)

/-- The byte offset of the first opening parenthesis outside literals at byte `offset` or later. -/
def openingByte? (q : Quoting) (t : Text) (offset : Nat) : Option Nat :=
  (opening? q t (t.charIndexFrom offset)).map t.byteOffset

end DumpBridge.Literal
