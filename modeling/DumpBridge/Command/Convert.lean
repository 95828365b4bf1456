import DumpBridge.Command.Args
import DumpBridge.Command.Input
import DumpBridge.Conversion
import DumpBridge.Json

/-!
# The conversion as a command

One dump becomes one script, on the standard output or in a file; the dumps of a pattern become
scripts in a directory, one after the other.  A script is written only when it is complete, and in
strict mode only if there were no warnings.  It is written to a temporary file that then takes its
place, so that a failure leaves nothing behind.
-/

namespace DumpBridge.Command

open Disk (Host)

variable {m : Type → Type} [Monad m] [Host m] (unpackers : Source.Unpackers)

/-- What to do with one dump. -/
structure Job where
  input : Text
  /-- The script's file; without one the script goes to the standard output. -/
  output : Option Text
  options : Options
  dryRun : Bool
  strict : Bool

/-- The directory of a file, as it is written in a path. -/
def directoryOf (path : Text) : Text :=
  match Disk.Path.parent? path with
  | some dir => if dir.isEmpty then ['.'] else dir
  | none => ['.']

/-- Brings a filled temporary file to a path.  It is gone in any case. -/
def place (temporary : Host.Temporary m) (path : Text) (bytes : List UInt8) : Action m Unit := do
  match ← (Host.fill temporary bytes : m _) with
  | .error cause =>
    (Host.discard temporary : m _)
    throw (.cannotFill cause)
  | .ok () =>
    match ← (Host.persist temporary path : m _) with
    | .error cause =>
      (Host.discard temporary : m _)
      throw (.cannotWrite path cause)
    | .ok () => return ()

/-- Writes a script. -/
def writeScript (output : Option Text) (script : Text) : Action m Unit := do
  match output with
  | none =>
    match ← (Host.out script : m _) with
    | .error cause => throw (.cannotPrint cause)
    | .ok () => return ()
  | some path =>
    let dir := directoryOf path
    match ← (Host.createDirs dir : m _) with
    | .error cause => throw (.cannotCreateDirectory dir cause)
    | .ok () =>
      match ← (Host.createTemporary dir : m _) with
      | .error cause => throw (.cannotCreateTemporary dir cause)
      | .ok temporary => place temporary path (Text.toBytes script)

/-- The lines about warnings that make a conversion fail. -/
def strictSummary (log : WarningLog) : List Text :=
  if log.stored.isEmpty then []
  else [[], s!"Conversion warnings ({log.total}):".toList] ++ log.summary

/-- Converts one dump and writes its script. -/
def convertFile (job : Job) : Action m Conversion := do
  let dump ← readDump unpackers job.input
  let conversion := Conversion.run job.options dump
  if job.strict && conversion.warnings.hasWarnings then
    (Host.err (Script.render (strictSummary conversion.warnings)) : m _)
    throw (.strict conversion.warnings.total job.input)
  if !job.dryRun then writeScript job.output conversion.text
  return conversion

/-- The figures of a conversion. -/
def statsJson (conversion : Conversion) : Json :=
  let stats := conversion.stats
  .object [
    ("lines_read", .number stats.linesRead),
    ("lines_written", .number stats.linesWritten),
    ("lines_rewritten", .number stats.linesChanged),
    ("enum_types", .number stats.enumTypes),
    ("boolean_tables", .number stats.booleanTables),
    ("enum_tables", .number stats.enumTables),
    ("tables_dropped", .number stats.tablesDropped),
    ("inserts_coerced", .number stats.insertsCoerced),
    ("values_coerced", .number stats.valuesCoerced),
    ("commas_repaired", .number stats.commasRepaired),
    ("headers_commented", .number stats.headersCommented),
    ("warnings_total", .number conversion.warnings.total),
    ("warnings", .array (conversion.warnings.stored.map (.string ·.message)))]

/-- The figures of a conversion as lines. -/
def statsLines (conversion : Conversion) : List Text :=
  let stats := conversion.stats
  let log := conversion.warnings
  [[], "Conversion Statistics:".toList,
    s!"  Lines read: {stats.linesRead}".toList,
    s!"  Lines written: {stats.linesWritten}".toList,
    s!"  Lines rewritten: {stats.linesChanged}".toList,
    s!"  Enum types: {stats.enumTypes}".toList,
    s!"  Tables with boolean columns: {stats.booleanTables}".toList,
    s!"  Tables with enum columns: {stats.enumTables}".toList,
    s!"  Tables dropped before create: {stats.tablesDropped}".toList,
    (s!"  INSERT values coerced: {stats.valuesCoerced} " ++
      s!"(in {stats.insertsCoerced} statements)").toList,
    s!"  Separators repaired: {stats.commasRepaired}".toList,
    s!"  ALTER headers commented: {stats.headersCommented}".toList]
    ++ (if 0 < log.total then [[], s!"Warnings ({log.total}):".toList] ++ log.summary else [])

/-- Converts one dump and tells about it. -/
def convertSingle (args : ConvertArgs) (options : Options) (file : Text) : Action m Unit := do
  let conversion ← convertFile unpackers
    { input := file, output := args.output, options := options, dryRun := args.dryRun
      strict := args.strict }
  if args.json then report [(statsJson conversion).pretty]
  else if args.progress || args.dryRun then
    let dry := if args.dryRun then [[], "(Dry run - no output written)".toList] else []
    (Host.err (Script.render (statsLines conversion ++ dry)) : m _)

/-- A quotient rounded to the nearest number; a half goes to the even neighbour. -/
def roundHalfEven (n d : Nat) : Nat :=
  let q := n / d
  let twice := 2 * (n % d)
  if twice < d || (twice = d && q % 2 = 0) then q else q + 1

/-- A number of bytes in megabytes, with two decimals. -/
def megabytes (bytes : Nat) : Text :=
  let hundredths := roundHalfEven (bytes * 100) (1024 * 1024)
  let decimals := hundredths % 100
  (s!"{hundredths / 100}." ++ (if decimals < 10 then "0" else "") ++ toString decimals).toList

/-- The name of a dump's script, given the dump's number. -/
def scriptName (file : Text) (number : Nat) : Text :=
  match Disk.Path.fileName? file with
  | some name => (Source.Compression.ofPath file).stripExtension name
  | none => s!"output_{number}.sql".toList

/-- The size of a file, or nothing if it cannot be read. -/
def fileSize (path : Text) : m Nat := do
  match ← Host.read path with
  | .ok bytes => return bytes.length
  | .error _ => return 0

/-- What came of several dumps. -/
structure Batch where
  done : List Conversion := []
  failed : List (Text × Failure) := []

/-- Converts one of several dumps and tells about it; `number` counts from nothing. -/
def convertNext (args : ConvertArgs) (options : Options) (dir : Text) (total number : Nat)
    (file : Text) : m (Except Failure Conversion) := do
  Host.err (s!"[{number + 1}/{total}] Converting: ".toList ++ file ++ ['\n'])
  let size ← fileSize file
  let output := if args.dryRun then none else some (Disk.Path.join dir (scriptName file number))
  let result ← (convertFile unpackers
    { input := file, output := output, options := options, dryRun := args.dryRun
      strict := args.strict } : Action m _).run
  match result with
  | .ok conversion =>
    let stats := conversion.stats
    let warnings := conversion.warnings.total
    let figures := "  ".toList ++ megabytes size
      ++ s!" MB → {stats.linesWritten} lines, {stats.enumTypes} enum types, ".toList
      ++ s!"{stats.valuesCoerced} values coerced".toList
      ++ (if warnings = 0 then [] else s!" ({warnings} warnings)".toList)
    let target := output.toList.map fun path => "  → ".toList ++ path
    Host.err (Script.render ([figures] ++ target ++ [[]]))
  | .error failure => Host.err (Script.render ["  Error: ".toList ++ failure.message, []])
  return result

/-- Converts dumps one after the other; the first failure may be the last one. -/
def convertEach (args : ConvertArgs) (options : Options) (dir : Text) (total : Nat) :
    Nat → Batch → List Text → m Batch
  | _, batch, [] => return batch
  | number, batch, file :: rest => do
    match ← convertNext unpackers args options dir total number file with
    | .ok conversion =>
      convertEach args options dir total (number + 1)
        { batch with done := batch.done ++ [conversion] } rest
    | .error failure =>
      let batch := { batch with failed := batch.failed ++ [(file, failure)] }
      if args.failFast then return batch
      else convertEach args options dir total (number + 1) batch rest

/-- The lines about what came of several dumps. -/
def batchLines (total : Nat) (batch : Batch) : List Text :=
  [List.replicate 54 '━', "Conversion Summary:".toList,
    s!"  Total files: {total}".toList,
    s!"  Succeeded: {batch.done.length}".toList,
    s!"  Failed: {batch.failed.length}".toList]
    ++ (if batch.failed.isEmpty then []
        else [[], "Failed files:".toList] ++ batch.failed.map fun (file, failure) =>
          "  - ".toList ++ file ++ ": ".toList ++ failure.message)

/-- Converts several dumps into a directory.  The result says whether all went well. -/
def convertSeveral (args : ConvertArgs) (options : Options) (dir : Text) (files : List Text) :
    Action m Bool := do
  if !args.dryRun then
    match ← (Host.createDirs dir : m _) with
    | .error cause => throw (.noOutputDirectory cause)
    | .ok () => pure ()
  let total := files.length
  (Host.err (Script.render [s!"Converting {total} files to PostgreSQL...".toList, []]) : m _)
  let batch ← (convertEach unpackers args options dir total 0 {} files : m _)
  if args.json then report [(Json.array (batch.done.map statsJson)).pretty]
  (Host.err (Script.render (batchLines total batch)) : m _)
  return batch.failed.isEmpty

/-- The conversion.  The result says whether all went well. -/
def convert (args : ConvertArgs) : Action m Bool := do
  if args.json && args.output.isNone && !args.dryRun then throw .jsonWithoutOutput
  let options ← loadOptions args.config
  match ← selectInput args.file with
  | .single file =>
    convertSingle unpackers args options file
    return true
  | .several files =>
    match args.output with
    | none => throw .outputMissing
    | some dir => convertSeveral unpackers args options dir files

end DumpBridge.Command
