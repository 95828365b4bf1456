import DumpBridge.ColumnType
import DumpBridge.Line.Statements

/-!
# Rules for columns

Clauses of a column definition that the script's dialect does not know are dropped, and types
and defaults are put into its terms.  Except for comments and defaults, which have literals of
their own, the rules look at code only.
-/

namespace DumpBridge.Line

open Text (Pattern Cursor isBlank isWord)
open Literal (mapCode)

/-- The comment of a column. -/
def columnComment : Pattern :=
  .phrase " COMMENT " ++ quotedText

/-- Drops the comments of columns. -/
def stripColumnComments (line : Text) : Text :=
  columnComment.erase line

/-- Blanks, or an equals sign with any blanks around it. -/
def assignment : Pattern :=
  .alt .gap (.blanks ++ .char '=' ++ .blanks)

/-- What stands before the name of a collation. -/
def collationWord : Pattern :=
  .phrase " COLLATE" ++ assignment

/-- A collation. -/
def collation : Pattern :=
  collationWord ++ .wordChars

/-- Drops collations. -/
def stripCollation (line : Text) : Text :=
  mapCode .standard collation.erase line

/-- What stands before the name of a character set. -/
def charsetWord : Pattern :=
  .optional (.phrase " DEFAULT") ++ .gap ++ .anyPhrase ["CHARACTER SET", "CHARSET"] ++ assignment

/-- A character set. -/
def charset : Pattern :=
  charsetWord ++ .wordChars

/-- Drops character sets. -/
def stripCharset (line : Text) : Text :=
  mapCode .standard charset.erase line

/-- The start of a clause that adds a key to a table. -/
def addKeyClause : Pattern :=
  .blanks ++ .phrase "ADD " ++ .anyPhrase ["PRIMARY", "UNIQUE", "KEY", "INDEX", "CONSTRAINT",
    "FOREIGN", "FULLTEXT", "SPATIAL"] ++ .edge

/-- The start of a line that names a table or, indented, a column.  A name is no type, even if it is
spelled like one. -/
def protectedName : Pattern :=
  .alt
    (.blanks ++ .anyPhrase ["CREATE", "ALTER", "DROP"] ++ .phrase " TABLE "
      ++ .optional (.phrase "IF " ++ .optional (.phrase "NOT ") ++ .phrase "EXISTS ")
      ++ .someOf (!isBlank ·))
    (.gap ++ .one Pattern.isFoldedNameStart ++ .run (fun c => isWord c || c = '$') ++ .gap)

/-- Changes the types of a line, after the name that it starts with.  Key clauses have no types. -/
def mapTypes (line : Text) : Text :=
  if isKeyClause line || addKeyClause.starts line then line
  else
    let name :=
      match protectedName.matchStart line with
      | some found => found.taken
      | none => 0
    line.take name
      ++ ColumnType.setsToText (mapCode .standard ColumnType.mapTypes (line.drop name))

/-- A truth value with a digit as its default; slot 1 is what stands between, slot 2 the digit. -/
def booleanDefault : Pattern :=
  let digit := .capture 2 (.one fun c => c = '0' || c = '1')
  .edge ++ .phrase "BOOLEAN"
    ++ .optional (.capture 1 (.gap ++ .optional (.phrase "NOT ") ++ .phrase "NULL"))
    ++ .phrase " DEFAULT " ++ .anyOf [
      .char '\'' ++ digit ++ .char '\'',
      .char '"' ++ digit ++ .char '"',
      digit ++ .edge]

/-- Writes the defaults of truth values as words. -/
def booleanDefaults (line : Text) : Text :=
  booleanDefault.replaceWith
    (fun found =>
      "BOOLEAN".toList ++ found.captured 1 ++ " DEFAULT ".toList
        ++ (if found.captured 2 = ['1'] then "true".toList else "false".toList))
    line

/-- The clause that keeps a time stamp up to date. -/
def onUpdate : Pattern :=
  .phrase " ON UPDATE CURRENT_TIMESTAMP" ++ .edge
    ++ .optional (.blanks ++ .inParens (.run Text.isDigit))

/-- Drops the clauses that keep time stamps up to date. -/
def stripOnUpdate (line : Text) : Text :=
  mapCode .standard onUpdate.erase line

/-- Writes the current time as a name rather than a call. -/
def currentTimestampCalls (line : Text) : Text :=
  mapCode .standard
    ((.edge ++ .phrase "CURRENT_TIMESTAMP" ++ .blanks ++ .char '(' ++ .blanks ++ .char ')'
      : Pattern).replace "CURRENT_TIMESTAMP".toList)
    line

/-- The start value of automatic numbering. -/
def numberingFrom : Pattern :=
  .optional (.char ',') ++ .blanks ++ .edge ++ .phrase "AUTO_INCREMENT" ++ .blanks ++ .char '='
    ++ .blanks ++ .digits

/-- Automatic numbering. -/
def numbering : Pattern :=
  .phrase " AUTO_INCREMENT" ++ .edge

/-- Drops automatic numbering, with its start value first. -/
def stripAutoIncrement (line : Text) : Text :=
  mapCode .standard (fun code => numbering.erase (numberingFrom.erase code)) line

end DumpBridge.Line
