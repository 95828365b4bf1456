import DumpBridge.Text.Basic

/-!
# Lexemes: what lies inside literals

A quote mark, single or double, opens a literal, and the same mark closes it.  Inside, a
doubled mark stands for itself; where the dump's own quoting is in force, a backslash also
takes the character after it, whatever that is.  Everything outside literals is code.

`lexemes` cuts a text into the least pieces that this reading takes at once.  All other scans of a
line are folds over the lexemes.  The main fact here is that nothing is lost: the lexemes' texts
concatenate to the text (`flatMap_text_lexemes`).
-/

namespace DumpBridge.Literal

/-- How a literal writes a quote mark.  Every quoting doubles it; the dump's own quoting also has
backslash escapes. -/
inductive Quoting where
  /-- The quoting of a raw dump, with backslash escapes. -/
  | mysql
  /-- The quoting of the converted script, where a backslash is a character like any other. -/
  | standard
  deriving DecidableEq, Repr

/-- Whether `c` takes the next character with it inside a literal. -/
def Quoting.escapes (q : Quoting) (c : Char) : Bool :=
  q = .mysql && c = '\\'

/-- A single or double quote mark. -/
def isQuote (c : Char) : Bool :=
  c = '\'' || c = '"'

/-- The least piece of a text that a scan takes at once. -/
inductive Lexeme where
  /-- A character outside literals. -/
  | code (c : Char)
  /-- A quote mark that opens a literal. -/
  | opening (c : Char)
  /-- A character inside a literal. -/
  | inside (c : Char)
  /-- A doubled quote mark or an escape inside a literal.  An escape that ends the text has nothing
  to take. -/
  | pair (c : Char) (d : Option Char)
  /-- The quote mark that closes a literal. -/
  | closing (c : Char)
  deriving DecidableEq, Repr

namespace Lexeme

/-- The characters of a lexeme. -/
def text : Lexeme → Text
  | code c => [c]
  | opening c => [c]
  | inside c => [c]
  | pair c none => [c]
  | pair c (some d) => [c, d]
  | closing c => [c]

/-- Whether the lexeme is outside literals. -/
def isCode : Lexeme → Bool
  | code _ => true
  | _ => false

/-- Whether a literal is open after the lexeme. -/
def leavesOpen : Lexeme → Bool
  | code _ => false
  | closing _ => false
  | _ => true

end Lexeme

/-- The lexemes of a text that starts outside literals (`none`) or inside one that `some mark`
opened. -/
def lexemesFrom (q : Quoting) : Option Char → Text → List Lexeme
  | _, [] => []
  | none, c :: rest =>
    if isQuote c then .opening c :: lexemesFrom q (some c) rest
    else .code c :: lexemesFrom q none rest
  | some mark, [c] =>
    if q.escapes c then [.pair c none]
    else if c = mark then [.closing c]
    else [.inside c]
  | some mark, c :: d :: rest =>
    if q.escapes c then .pair c (some d) :: lexemesFrom q (some mark) rest
    else if c = mark then
      if d = mark then .pair c (some d) :: lexemesFrom q (some mark) rest
      else .closing c :: lexemesFrom q none (d :: rest)
    else .inside c :: lexemesFrom q (some mark) (d :: rest)

/-- The lexemes of a text that starts outside literals. -/
def lexemes (q : Quoting) (t : Text) : List Lexeme :=
  lexemesFrom q none t

theorem flatMap_text_lexemesFrom (q : Quoting) (mark : Option Char) (t : Text) :
    (lexemesFrom q mark t).flatMap Lexeme.text = t := by
  fun_induction lexemesFrom q mark t <;> simp_all [Lexeme.text]

/-- The texts of the lexemes, in order, are the text. -/
theorem flatMap_text_lexemes (q : Quoting) (t : Text) : (lexemes q t).flatMap Lexeme.text = t :=
  flatMap_text_lexemesFrom q none t

end DumpBridge.Literal
