import DumpBridge.Disk.Host
import DumpBridge.Options.Reading
import DumpBridge.Source.Compression

/-!
# Why a command fails

Each failure has a message and, where something else brought it about, a cause.  A command
that fails as a whole shows both; a file of several that fails shows the message alone.
-/

namespace DumpBridge.Command

open Disk (SystemError)

/-- A reason for which a command stops. -/
inductive Failure where
  /-- Figures on the standard output would mix with the script. -/
  | jsonWithoutOutput
  | optionsUnreadable (path cause : Text)
  | optionsInvalid (path : Text) (cause : Options.Error)
  | inputMissing (path : Text)
  | inputIsDirectory (path : Text)
  | badPattern (pattern : Text) (cause : Disk.Glob.Error)
  | noMatch (pattern : Text)
  | outputMissing
  | cannotOpen (path : Text) (cause : SystemError)
  | cannotRead (path cause : Text)
  | strict (warnings : Nat) (path : Text)
  | cannotCreateDirectory (dir : Text) (cause : SystemError)
  | cannotCreateTemporary (dir : Text) (cause : SystemError)
  /-- The temporary file takes no content. -/
  | cannotFill (cause : SystemError)
  | cannotWrite (path : Text) (cause : SystemError)
  /-- The directory for several scripts cannot be created. -/
  | noOutputDirectory (cause : SystemError)
  /-- The stream of a packed dump does not open. -/
  | cannotOpenStream (compression : Source.Compression) (path cause : Text)
  /-- The standard output does not take the script. -/
  | cannotPrint (cause : SystemError)
  /-- The standard output does not take figures or a listing. -/
  | cannotReport (cause : SystemError)

namespace Failure

/-- The failure in words, without its cause. -/
def message : Failure → Text
  | jsonWithoutOutput => "--json needs --output (stdout carries the converted script)".toList
  | optionsUnreadable path _ => "Failed to read config file: ".toList ++ path
  | optionsInvalid path _ => "Invalid config file: ".toList ++ path
  | inputMissing path => "file does not exist: ".toList ++ path
  | inputIsDirectory path =>
    path ++ " is a directory; pass a file or a pattern such as '".toList ++ path ++ "/*.sql'".toList
  | badPattern pattern cause =>
    "invalid glob pattern '".toList ++ pattern ++ "': ".toList ++ cause.message
  | noMatch pattern => "no files match pattern: ".toList ++ pattern
  | outputMissing =>
    "Output directory required when using glob patterns. Use --output <dir>".toList
  | cannotOpen path _ => "Failed to open input file: ".toList ++ path
  | cannotRead path _ => "Failed to read input file: ".toList ++ path
  | strict warnings path =>
    s!"Strict mode: {warnings} warning(s) in ".toList ++ path ++ "; no output written".toList
  | cannotCreateDirectory dir _ => "Failed to create output directory: ".toList ++ dir
  | cannotCreateTemporary dir _ => "Failed to create temporary file in ".toList ++ dir
  | cannotFill cause => cause.message
  | cannotWrite path _ => "Failed to write output file: ".toList ++ path
  | noOutputDirectory cause => cause.message
  | cannotOpenStream compression path _ =>
    s!"Failed to open {compression.name} stream: ".toList ++ path
  | cannotPrint cause => cause.message
  | cannotReport cause => "failed printing to stdout: ".toList ++ cause.message

/-- The words for the cause of a failure. -/
def cause? : Failure → Option Text
  | optionsUnreadable _ cause => some cause
  | optionsInvalid _ cause => some cause.message
  | cannotOpen _ cause => some cause.message
  | cannotRead _ cause => some cause
  | cannotOpenStream _ _ cause => some cause
  | cannotCreateDirectory _ cause => some cause.message
  | cannotCreateTemporary _ cause => some cause.message
  | cannotWrite _ cause => some cause.message
  | _ => none

/-- The failure in words, with its cause. -/
def fullMessage (failure : Failure) : Text :=
  match failure.cause? with
  | some cause => failure.message ++ ": ".toList ++ cause
  | none => failure.message

end Failure
end DumpBridge.Command
