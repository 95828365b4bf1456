import DumpBridge.Literal.Paren
import DumpBridge.Text.Pattern

/-!
# Calls: a keyword with a parenthesised list

`enum('a','b')` and `SET('x')` are keywords with a list after them.  `pieces` cuts a line into
such calls and the plain text between them.  A call ends at the parenthesis that matches its
own; if there is none, the rest of the line is plain.
-/

namespace DumpBridge.Literal

open Text (Pattern)

/-- A call, or text that holds none. -/
inductive Piece where
  | plain (t : Text)
  /-- The keyword up to its parenthesis, and what stands between the parentheses. -/
  | call (head inside : Text)
  deriving DecidableEq, Repr

/-- The characters of a piece. -/
def Piece.text : Piece → Text
  | plain t => t
  | call head inside => head ++ inside ++ [')']

/-- Puts a plain character before pieces. -/
def pushPlain (c : Char) : List Piece → List Piece
  | .plain t :: rest => .plain (c :: t) :: rest
  | rest => .plain [c] :: rest

/-- The pieces of a text that has `before` in front of it; the next `skip` characters belong
to a call that is cut already.  The pattern `opener` takes a keyword and its parenthesis. -/
def piecesFrom (q : Quoting) (opener : Pattern) : Option Char → Nat → Text → List Piece
  | _, _, [] => []
  | _, skip + 1, c :: rest => piecesFrom q opener (some c) skip rest
  | before, 0, c :: rest =>
    match opener.matchAfter before (c :: rest) with
    | none => pushPlain c (piecesFrom q opener (some c) 0 rest)
    | some found =>
      match closing? q ((c :: rest).drop (found.taken - 1)) with
      | none => [.plain (c :: rest)]
      | some n =>
        .call ((c :: rest).take found.taken) (((c :: rest).drop found.taken).take (n - 1))
          :: piecesFrom q opener (some c) (found.taken + n - 1) rest

/-- The calls of a line and the text between them. -/
def pieces (q : Quoting) (opener : Pattern) (t : Text) : List Piece :=
  piecesFrom q opener none 0 t

/-- A keyword and its parenthesis. -/
def callOpener (keyword : String) : Pattern :=
  .edge ++ .phrase keyword ++ .blanks ++ .char '('

end DumpBridge.Literal
