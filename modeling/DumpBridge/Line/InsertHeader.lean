import DumpBridge.Line.Kind

/-!
# Headers of insert statements

A header runs up to the word `VALUES`.  It names the table and may list the columns that the rows
fill; otherwise the rows follow the table's own order.
-/

namespace DumpBridge.Line

open Text (Pattern)

/-- The part of an insert statement before its rows. -/
structure InsertHeader where
  /-- The table, without quotes. -/
  table : Text
  /-- The columns listed, without quotes or blanks around them. -/
  columns : Option (List Text)
  /-- How many characters the header has, the word `VALUES` included. -/
  length : Nat
  deriving DecidableEq, Repr

namespace InsertHeader

/-- A header; slot 1 is the table and slot 2 the text between the parentheses of the column list. -/
def pattern : Pattern :=
  .blanks ++ .anyPhrase ["INSERT", "REPLACE"] ++ .optional (.phrase " IGNORE") ++ .phrase " INTO "
    ++ .nameQuote ++ .capture 1 nameChars ++ .nameQuote ++ .blanks
    ++ .optional (.char '(' ++ .capture 2 (.run (· != ')')) ++ .char ')')
    ++ .blanks ++ .phrase "VALUES" ++ .edge

/-- The name of a listed column: blanks, then backticks, then double quotes are taken off. -/
def columnName (t : Text) : Text :=
  Text.trimChar '"' (Text.trimChar '\x60' (Text.trim t))

/-- The header that a line starts with. -/
def parse? (line : Text) : Option InsertHeader :=
  (pattern.matchStart line).map fun found =>
    { table := found.captured 1
      columns := (found.capture? 2).map fun list => (Text.cut ',' list).map columnName
      length := found.taken }

end InsertHeader
end DumpBridge.Line
