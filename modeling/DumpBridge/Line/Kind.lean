import DumpBridge.Text.Pattern

/-!
# Kinds of lines

The converter reads a dump line by line and needs to know of a line only what kind it is: a comment,
blank, row data, the first line of a table definition, or a key clause inside one.
-/

namespace DumpBridge.Line

open Text (Pattern isBlank isNameStart)

/-- A comment: two dashes after any blanks. -/
def isComment (line : Text) : Bool :=
  ['-', '-'].isPrefixOf line.trimStart

/-- A line of blanks only. -/
def isEmpty (line : Text) : Bool :=
  (Text.trim line).isEmpty

/-- A line that holds rows: it starts with a tuple, or with the word that begins an insert. -/
def isData (line : Text) : Bool :=
  let start := Text.trimStart line
  let word := (start.take 7).map Char.toUpper
  Text.startsWith '(' start || "INSERT".toList.isPrefixOf word || "REPLACE".toList.isPrefixOf word

/-- The line as a comment. -/
def commentOut (line : Text) : Text :=
  "-- ".toList ++ line

/-- A name as it stands in a statement: neither blanks, nor quotes around names, nor a
parenthesis. -/
def nameChars : Pattern :=
  .plus (.one fun c => !isBlank c && !Pattern.isNameQuote c && c != '(')

/-- The start of a table definition; slot 1 is the table's name. -/
def tableOpener : Pattern :=
  .blanks ++ .phrase "CREATE TABLE " ++ .optional (.phrase "IF NOT EXISTS ")
    ++ .nameQuote ++ .capture 1 nameChars ++ .nameQuote

/-- The name of the table whose definition the line begins. -/
def tableName? (line : Text) : Option Text :=
  (tableOpener.matchStart line).map (·.captured 1)

/-- A column list with a first column, as it follows the name of a key. -/
def keyColumns : Pattern :=
  .char '(' ++ .blanks ++ .nameQuote ++ .one Pattern.isFoldedNameStart

/-- The start of a key, index or constraint clause.  The words `KEY` and `INDEX` alone are not
enough, since columns may bear them as names: a column list has to follow. -/
def keyClause : Pattern :=
  .anyOf [
    .phrase "PRIMARY KEY",
    .phrase "UNIQUE KEY",
    .phrase "UNIQUE INDEX",
    .phrase "UNIQUE" ++ .blanks ++ .char '(',
    .anyPhrase ["KEY", "INDEX"] ++ .edge ++ .blanks
      ++ .optional (.nameQuote ++ .wordChars ++ .nameQuote ++ .blanks) ++ keyColumns,
    .phrase "CONSTRAINT" ++ .one isBlank,
    .phrase "FOREIGN KEY",
    .phrase "FULLTEXT" ++ .one isBlank,
    .phrase "SPATIAL" ++ .one isBlank,
    .phrase "CHECK" ++ .blanks ++ .char '(']

/-- A key, index or constraint clause of a table definition. -/
def isKeyClause (line : Text) : Bool :=
  keyClause.starts line.trimStart

end DumpBridge.Line
