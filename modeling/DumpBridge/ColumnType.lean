import DumpBridge.Literal.Call
import DumpBridge.Literal.Quoted

/-!
# Column types

The types of the dump's dialect become types of the script's dialect.  The changes run one after the
other, each over the whole text, and their order matters: a one-digit `TINYINT` is a truth value and
must go before the other integers, a type with a width and a sign before the bare type, and
`TIMESTAMP` before `DATETIME`, which becomes one.

`SET` has literals in its parentheses, so it is handled on a whole line by `setsToText`.
-/

namespace DumpBridge.ColumnType

open Text (Pattern Cursor)
open Literal (Quoting Piece pieces callOpener items isSingleQuoted)

/-- One type, and what becomes of it. -/
structure Change where
  source : Pattern
  target : Cursor → Text

/-- A change into a fixed type. -/
def Change.into (target : String) (source : Pattern) : Change :=
  { source := source, target := fun _ => target.toList }

/-- A width in parentheses, if there is one. -/
def width : Pattern :=
  .optional (.blanks ++ .inParens .digits)

/-- A width, or a precision and a scale, in parentheses, if there are any. -/
def precision : Pattern :=
  .optional (.blanks ++ .char '(' ++ .blanks ++ .digits ++ .blanks
    ++ .optional (.char ',' ++ .blanks ++ .digits ++ .blanks) ++ .char ')')

/-- The modifier of a type without negative numbers. -/
def unsigned : Pattern :=
  .phrase " UNSIGNED" ++ .edge

/-- The modifier of a type that is filled up with zeros. -/
def zerofill : Pattern :=
  .phrase " ZEROFILL" ++ .edge

/-- One of some whole words. -/
def typeWord (words : List String) : Pattern :=
  .edge ++ .anyPhrase words ++ .edge

/-- The changes, in the order in which they run. -/
def changes : List Change := [
  -- Integers.
  .into "BOOLEAN" (.edge ++ .phrase "TINYINT" ++ .blanks ++ .inParens (.char '1')),
  .into "SMALLINT" (typeWord ["TINYINT"] ++ width ++ unsigned),
  .into "SMALLINT" (typeWord ["TINYINT"] ++ width),
  .into "INTEGER" (typeWord ["SMALLINT"] ++ width ++ unsigned),
  .into "SMALLINT" (typeWord ["SMALLINT"] ++ width),
  .into "INTEGER" (typeWord ["MEDIUMINT"] ++ width ++ .optional unsigned),
  .into "BIGINT" (typeWord ["INT", "INTEGER"] ++ width ++ unsigned),
  .into "INTEGER" (typeWord ["INT", "INTEGER"] ++ width),
  .into "BIGINT" (typeWord ["BIGINT"] ++ width ++ .optional unsigned),
  -- Floating point.
  .into "DOUBLE PRECISION"
    (typeWord ["DOUBLE"] ++ .optional (.phrase " PRECISION" ++ .edge) ++ precision),
  .into "REAL" (typeWord ["FLOAT"] ++ precision),
  -- Times.
  { source := typeWord ["TIMESTAMP"] ++ .optional (.capture 1 (.blanks ++ .inParens .digits))
      ++ .phrase " NULL DEFAULT NULL" ++ .edge
    target := fun found => "TIMESTAMPTZ".toList ++ found.captured 1 ++ " DEFAULT NULL".toList },
  .into "TIMESTAMPTZ" (typeWord ["TIMESTAMP"]),
  .into "TIMESTAMP" (typeWord ["DATETIME"]),
  -- Bytes and texts.
  .into "BYTEA" (typeWord ["TINYBLOB", "MEDIUMBLOB", "LONGBLOB", "BLOB"]),
  .into "BYTEA" (typeWord ["VARBINARY"] ++ width),
  .into "BYTEA" (.edge ++ .phrase "BINARY" ++ .blanks ++ .inParens .digits),
  .into "TEXT" (typeWord ["TINYTEXT", "MEDIUMTEXT", "LONGTEXT"]),
  -- Modifiers that are left.
  .into "" zerofill,
  .into "" unsigned]

/-- Makes one change throughout a text. -/
def Change.apply (change : Change) (code : Text) : Text :=
  change.source.replaceWith change.target code

/-- The types of a run of code, changed. -/
def mapTypes (code : Text) : Text :=
  changes.foldl (fun code change => change.apply code) code

/-- Whether a list has members and all are literals in single quote marks. -/
def allQuoted (inside : Text) : Bool :=
  let members := items .standard inside
  !members.isEmpty && members.all fun member => isSingleQuoted (Text.trim member)

/-- A line with each `SET` type that lists literals replaced by `TEXT`. -/
def setsToText (line : Text) : Text :=
  (pieces .standard (callOpener "SET") line).flatMap fun piece =>
    match piece with
    | .call _ inside => if allQuoted inside then "TEXT".toList else piece.text
    | .plain t => t

end DumpBridge.ColumnType
