import DumpBridge.Literal.Segment
import DumpBridge.Line.Kind

/-!
# Rules for statements

Blocks that only the dump's own server executes become comments, as do the statements that set
up its session; the time zone is kept under its new name.  The options after a table
definition are dropped, except for the table's comment.
-/

namespace DumpBridge.Line

open Text (Pattern)

/-- A block for servers of a given version or later; slot 1 is what such a server executes. -/
def conditionalBlock : Pattern :=
  .phrase "/*!" ++ .digits ++ .gap ++ .capture 1 (.starLazy (.one (· != '\n')))
    ++ .blanks ++ .phrase "*/"

/-- Makes the inside of each conditional block a comment. -/
def commentConditionalBlocks (line : Text) : Text :=
  conditionalBlock.replaceWith (fun found => commentOut (found.captured 1)) line

/-- The start of the statement that sets the session's time zone. -/
def timeZone : Pattern :=
  .edge ++ .phrase "SET time_zone" ++ .blanks ++ .char '='

/-- Uses the script's name for the time zone of the session. -/
def renameTimeZone (line : Text) : Text :=
  timeZone.replace "SET timezone =".toList line

/-- The start of a statement that only concerns the dump's own session. -/
def sessionStatement : Pattern :=
  .blanks ++ .anyOf [
    .phrase "SET " ++ .anyPhrase ["sql_mode", "FOREIGN_KEY_CHECKS", "UNIQUE_CHECKS", "AUTOCOMMIT",
      "NAMES", "CHARACTER_SET_CLIENT", "CHARACTER_SET_RESULTS", "COLLATION_CONNECTION", "SQL_NOTES"]
      ++ .edge,
    .phrase "SET @",
    .phrase "LOCK TABLES" ++ .edge,
    .phrase "UNLOCK TABLES" ++ .edge]

/-- Makes statements that set up the dump's session comments. -/
def commentSessionStatements (line : Text) : Text :=
  if sessionStatement.starts line then commentOut line else line

/-- The end of a table definition with an option after it; slot 1 is the end without the option. -/
def tableEnd : Pattern :=
  .capture 1 (.blanks ++ .char ')') ++ .blanks ++ .anyOf [
    .anyPhrase ["ENGINE", "TYPE", "DEFAULT CHARSET", "DEFAULT CHARACTER SET", "DEFAULT COLLATE",
      "CHARSET", "CHARACTER SET", "COLLATE", "ROW_FORMAT", "AUTO_INCREMENT", "COMMENT",
      "PACK_KEYS"],
    .phrase "STATS_" ++ .wordChars,
    .anyPhrase ["CHECKSUM", "KEY_BLOCK_SIZE", "AVG_ROW_LENGTH", "MAX_ROWS", "MIN_ROWS",
      "DELAY_KEY_WRITE"]] ++ .edge

/-- A literal in single quote marks, in which a mark is doubled. -/
def quotedText : Pattern :=
  .char '\'' ++ .star (.alt (.one (· != '\'')) (.phrase "''")) ++ .char '\''

/-- The comment among a table's options; slot 1 is its literal. -/
def tableComment : Pattern :=
  .edge ++ .phrase "COMMENT" ++ .blanks ++ .optional (.char '=') ++ .blanks ++ .capture 1 quotedText

/-- Drops the options after a table definition, and keeps the end of the statement and, as a comment
of the script, the table's comment. -/
def stripTableOptions (line : Text) : Text :=
  match tableEnd.matchStart line with
  | none => line
  | some found =>
    let close := found.captured 1
    let options := line.drop close.length
    let terminator := if Text.endsWith ';' (Text.trimEnd options) then [';'] else []
    let comment :=
      match tableComment.find? options with
      | some (_, comment) => " -- COMMENT: ".toList ++ comment.captured 1
      | none => []
    close ++ terminator ++ comment

end DumpBridge.Line
