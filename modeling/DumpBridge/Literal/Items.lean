import DumpBridge.Literal.Lexeme

/-!
# Items of a value list

The inside of a value list is cut at the commas outside literals.  The items keep the blanks around
them, so that joining them with commas gives the list back.
-/

namespace DumpBridge.Literal

/-- Puts a lexeme before the items of what follows it: a comma outside literals starts a
new item. -/
def Lexeme.beforeItems : Lexeme → List Text → List Text
  | code ',', items => [] :: items
  | lexeme, item :: items => (lexeme.text ++ item) :: items
  | lexeme, [] => [lexeme.text]

/-- The items of a value list; an empty text has none. -/
def items (q : Quoting) (t : Text) : List Text :=
  if t.isEmpty then [] else (lexemes q t).foldr Lexeme.beforeItems [[]]

end DumpBridge.Literal
