import DumpBridge.Rule
import DumpBridge.Script
import DumpBridge.Separators
import DumpBridge.Table.Rows

/-!
# Converting a dump

The stages of a conversion, in order: the enum types are read from the raw lines; each line is
converted; enumerations give way to the names of their types; separators are repaired; the
tables are read from the converted lines; the values of rows change; and the script is put
together.

A construct that only the dump's dialect knows, and that is left on a line after the repair, is
counted by a warning.
-/

namespace DumpBridge

/-- The stages of a conversion. -/
inductive Stage where
  | catalogEnums
  | convertLines
  | substituteEnums
  | repair
  | catalogColumns
  | coerceValues
  | assemble
  deriving DecidableEq, Repr

/-- The stages, in order. -/
def Stage.all : List Stage :=
  [.catalogEnums, .convertLines, .substituteEnums, .repair, .catalogColumns, .coerceValues,
    .assemble]

/-- What is shown while a stage runs. -/
def Stage.message : Stage → String
  | catalogEnums => "Cataloging enum types..."
  | convertLines => "Rewriting lines..."
  | substituteEnums => "Substituting enum types..."
  | repair => "Repairing dangling separators..."
  | catalogColumns => "Cataloging boolean and enum columns..."
  | coerceValues => "Coercing INSERT values..."
  | assemble => "Assembling output..."

namespace Line

open Text (Pattern)
open Literal (Segment)

/-- A construct that only the dump's dialect knows. -/
def foreignConstruct : Pattern :=
  .anyOf [
    .phrase "/*!",
    .edge ++ .phrase "ENGINE" ++ .blanks ++ .char '=',
    .edge ++ .phrase "UNSIGNED" ++ .edge,
    .edge ++ .phrase "AUTO_INCREMENT" ++ .edge,
    .edge ++ .phrase "LOCK TABLES" ++ .edge,
    .edge ++ .phrase "enum" ++ .blanks ++ .char '(']

/-- The upper case of a character of such a construct.  Besides letters of ASCII, only the
long s has one. -/
def upperLetter (c : Char) : Char :=
  if c = Pattern.longS then 'S' else c.toUpper

/-- The construct found in a segment, in upper case.  Literals are not looked at. -/
def segmentMarker? : Segment → Option Text
  | .code t =>
    (foreignConstruct.find? t).map fun (skipped, found) =>
      ((t.drop skipped.length).take found.taken).map upperLetter
  | .literal _ => none

/-- The first construct that is left on a line, unless it is a comment or row data. -/
def marker? (line : Text) : Option Text :=
  if isComment line || isData line then none
  else (Literal.segments .standard line).findSome? segmentMarker?

end Line

/-- What happened in a conversion. -/
structure Stats where
  linesRead : Nat
  linesWritten : Nat
  /-- How many lines of the dump changed, apart from lines that were added. -/
  linesChanged : Nat
  enumTypes : Nat
  booleanTables : Nat
  enumTables : Nat
  tablesDropped : Nat
  insertsCoerced : Nat
  valuesCoerced : Nat
  commasRepaired : Nat
  headersCommented : Nat
  deriving DecidableEq, Repr

/-- The script that a dump becomes. -/
structure Conversion where
  text : Text
  stats : Stats
  warnings : WarningLog

namespace Conversion

/-- The warnings about constructs that are left on lines, the first of which has number `number`. -/
def markerWarnings : Nat → List Text → List Warning
  | _, [] => []
  | number, line :: rest =>
    ((Line.marker? line).map fun marker => Warning.ofUnconverted number marker line).toList
      ++ markerWarnings (number + 1) rest

/-- The lines of a script, from the lines with their values changed. -/
def assemble (options : Options) (catalog : EnumCatalog) (lines : List Text) : List Text :=
  let lines := if options.dropTables then Script.withDrops lines else lines
  let lines := Script.withDeclarations catalog lines
  if options.sessionPreamble then Script.withSession lines else lines

/-- Converts a dump. -/
def run (options : Options) (dump : Text) : Conversion :=
  let raw := dump.lines
  let catalog := EnumCatalog.ofLines options.enumPrefix raw
  let converted := raw.map (Line.convert options)
  let named := converted.map catalog.substitute
  let repaired := Separators.repair named
  let schema := Schema.ofLines catalog repaired.lines
  let rows := Rows.coerce schema repaired.lines
  let log := ({} : WarningLog).addAll (markerWarnings 1 repaired.lines ++ rows.warnings)
  let script := assemble options catalog rows.lines
  { text := Script.render script
    warnings := log
    stats := {
      linesRead := raw.length
      linesWritten := script.length
      linesChanged := (raw.zip rows.lines).countP fun (before, after) => before != after
      enumTypes := catalog.types.length
      booleanTables := schema.countKind .boolean
      enumTables := schema.countKind .enumerated
      tablesDropped := if options.dropTables then Script.countTables rows.lines else 0
      insertsCoerced := rows.inserts
      valuesCoerced := rows.values
      commasRepaired := repaired.commas
      headersCommented := repaired.commented } }

end Conversion
end DumpBridge
