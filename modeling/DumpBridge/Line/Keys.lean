import DumpBridge.Line.Kind
import DumpBridge.Literal.Paren
import DumpBridge.Literal.Segment

/-!
# Rules for keys

Keys that are neither primary nor unique, and clauses that only make a column count, become
comments.  Unique keys lose their names, and the columns of a key lose the lengths of their
prefixes.
-/

namespace DumpBridge.Line

open Text (Pattern isWord)
open Literal (mapCode)

/-- A name in backticks, or a bare one, with the blanks after it. -/
def keyName : Pattern :=
  .alt (.char '\x60' ++ .run (· != '\x60') ++ .char '\x60' ++ .blanks)
    (.wordChars ++ .blanks)

/-- The start of a secondary key in a table definition. -/
def secondaryKey : Pattern :=
  .blanks ++ .optional (.anyPhrase ["FULLTEXT ", "SPATIAL "]) ++ .anyPhrase ["KEY ", "INDEX "]
    ++ .optional keyName ++ keyColumns

/-- A clause that adds a secondary key. -/
def addSecondaryKey : Pattern :=
  .edge ++ .phrase "ADD " ++ .alt
    (.anyPhrase ["FULLTEXT", "SPATIAL"] ++ .optional (.anyPhrase [" KEY", " INDEX"]))
    (.anyPhrase ["KEY", "INDEX"]) ++ .edge

/-- A clause that adds a primary or unique key. -/
def addPrimaryOrUnique : Pattern :=
  .edge ++ .phrase "ADD " ++ .anyPhrase ["PRIMARY", "UNIQUE"] ++ .edge

/-- Makes secondary keys comments, unless the line also adds a primary or unique one. -/
def commentSecondaryKeys (line : Text) : Text :=
  if secondaryKey.starts line ||
      (addSecondaryKey.occurs line && !addPrimaryOrUnique.occurs line) then
    commentOut line
  else line

/-- A clause that makes a column count. -/
def identityModification : Pattern :=
  .blanks ++ .phrase "MODIFY" ++ .one Text.isBlank ++ .star (.one (· != '\n'))
    ++ .edge ++ .phrase "AUTO_INCREMENT" ++ .edge

/-- Makes clauses that make a column count comments. -/
def commentIdentityModifications (line : Text) : Text :=
  if identityModification.starts line then commentOut line else line

/-- The method of an index. -/
def indexMethod : Pattern :=
  .phrase " USING " ++ .anyPhrase ["BTREE", "HASH"] ++ .edge

/-- Drops the methods of indexes. -/
def stripIndexMethods (line : Text) : Text :=
  mapCode .standard indexMethod.erase line

/-- The start of a unique key with the parenthesis of its columns; slot 1 is what stands before the
word `UNIQUE`. -/
def uniqueKey : Pattern :=
  .capture 1 (.blanks ++ .optional (.phrase "ADD ")) ++ .phrase "UNIQUE "
    ++ .anyPhrase ["KEY", "INDEX"] ++ .optional (.gap ++ .wordChars) ++ .blanks ++ .char '('

/-- The start of a primary or unique key with the parenthesis of its columns. -/
def keyList : Pattern :=
  .blanks ++ .optional (.phrase "ADD ") ++ .anyPhrase ["PRIMARY KEY", "UNIQUE"]
    ++ .blanks ++ .char '('

/-- A length in parentheses after the last character of a column, which is slot 1. -/
def prefixLength : Pattern :=
  .capture 1 (.one isWord) ++ .blanks ++ .inParens .digits

/-- Drops the name of a unique key. -/
def dropUniqueKeyName (line : Text) : Text :=
  match uniqueKey.matchStart line with
  | some found => found.captured 1 ++ "UNIQUE (".toList ++ found.rest
  | none => line

/-- Drops the lengths of prefixes from the columns of a key. -/
def dropPrefixLengths (line : Text) : Text :=
  match keyList.matchStart line with
  | none => line
  | some found =>
    let start := found.taken - 1
    match Literal.closing? .standard (line.drop start) with
    | none => line
    | some n =>
      line.take start
        ++ prefixLength.replaceWith (·.captured 1) ((line.drop start).take (n + 1))
        ++ line.drop (start + n + 1)

/-- Reduces a unique key to its columns, and the columns of a key to their names. -/
def plainKeys (line : Text) : Text :=
  dropPrefixLengths (dropUniqueKeyName line)

end DumpBridge.Line
