import DumpBridge.Command.Args
import DumpBridge.Command.Input
import DumpBridge.Json

/-!
# Listing enum types

The enum types that a dump would need, as a table or as JSON.
-/

namespace DumpBridge.Command

open Disk (Host)

variable {m : Type → Type} [Monad m] [Host m]

/-- The types of a catalog as JSON. -/
def enumsJson (file : Text) (catalog : EnumCatalog) : Json :=
  .object [
    ("file", .string file),
    ("count", .number catalog.types.length),
    ("types", .array (catalog.types.map fun type =>
      .object [("type_name", .string type.name), ("values", .array (type.values.map .string))]))]

/-- A text with spaces after it, up to a width. -/
def padded (width : Nat) (t : Text) : Text :=
  t ++ List.replicate (width - t.length) ' '

/-- The types of a catalog as a table. -/
def enumsTable (catalog : EnumCatalog) : List Text :=
  let width := (catalog.types.map fun type => Text.byteLength type.name).foldl max "TYPE".length
  [padded width "TYPE".toList ++ "  VALUES".toList]
    ++ catalog.types.map (fun type => padded width type.name ++ "  ".toList ++ type.valueText)
    ++ [[], s!"{catalog.types.length} enum type(s)".toList]

/-- Lists the enum types of a dump. -/
def listEnums (unpackers : Source.Unpackers) (args : EnumsArgs) : Action m Unit := do
  let options ← loadOptions args.config
  let dump ← readDump unpackers args.file
  let catalog := EnumCatalog.ofLines options.enumPrefix (Text.lines dump)
  let lines :=
    if args.json then [(enumsJson args.file catalog).pretty]
    else if catalog.types.isEmpty then ["No enum types found in ".toList ++ args.file]
    else enumsTable catalog
  report lines

end DumpBridge.Command
