import DumpBridge.Enum.Catalog

/-!
# Assembling the script

The converted lines become a script that can be run again: each table is dropped before it is
created, enum types are declared before they are used, and the session is set up at the start
and restored at the end.
-/

namespace DumpBridge.Script

/-- The statement that drops a table. -/
def dropStatement (table : Text) : Text :=
  "DROP TABLE IF EXISTS ".toList ++ table ++ " CASCADE;".toList

/-- A line, with the statement that drops its table before it if it begins a table definition. -/
def withDrop (line : Text) : List Text :=
  match Line.tableName? line with
  | some table => [dropStatement table, line]
  | none => [line]

/-- The lines with the statements that drop their tables. -/
def withDrops (lines : List Text) : List Text :=
  lines.flatMap withDrop

/-- How many lines begin a table definition. -/
def countTables (lines : List Text) : Nat :=
  lines.countP fun line => (Line.tableName? line).isSome

/-- A live line that sets the time zone of the session. -/
def isAnchor (line : Text) : Bool :=
  Text.contains "SET timezone".toList line && !Line.isComment line

/-- How many lines come before the declarations: those up to the first anchor and the blank
lines after it, or none without an anchor. -/
def anchor (lines : List Text) : Nat :=
  match lines.findIdx? isAnchor with
  | some k => k + 1 + ((lines.drop (k + 1)).takeWhile Line.isEmpty).length
  | none => 0

/-- The lines that declare the types of a catalog. -/
def declarationBlock (catalog : EnumCatalog) : List Text :=
  [[], "--".toList, "-- Enum type declarations".toList, "--".toList, []]
    ++ catalog.declarations ++ [[]]

/-- The lines with the declarations of a catalog, if it has types. -/
def withDeclarations (catalog : EnumCatalog) (lines : List Text) : List Text :=
  if catalog.types.isEmpty then lines
  else
    let k := anchor lines
    lines.take k ++ declarationBlock catalog ++ lines.drop k

/-- The lines that set up the session. -/
def preamble : List Text := [
  "-- Preamble for PostgreSQL import".toList,
  "SET client_encoding = 'UTF8';".toList,
  "SET standard_conforming_strings = on;".toList,
  "SET session_replication_role = 'replica';".toList,
  []]

/-- The lines that restore the session. -/
def epilogue : List Text := [
  [],
  "-- Restore session settings".toList,
  "SET session_replication_role = 'origin';".toList]

/-- The lines between setting up the session and restoring it. -/
def withSession (lines : List Text) : List Text :=
  preamble ++ lines ++ epilogue

/-- The text of lines, each with a line feed. -/
def render (lines : List Text) : Text :=
  lines.flatMap fun line => line ++ ['\n']

end DumpBridge.Script
