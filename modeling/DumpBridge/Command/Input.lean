import DumpBridge.Command.Failure
import DumpBridge.Script
import DumpBridge.Source.Decode
import DumpBridge.Source.Unpack

/-!
# What a command reads and reports

The options file, the dumps that a path or pattern stands for, and a dump; and what goes to the
standard output besides a script.
-/

namespace DumpBridge.Command

open Disk (Host ReadError)

/-- An action on a machine that may fail. -/
abbrev Action (m : Type → Type) := ExceptT Failure m

variable {m : Type → Type} [Monad m] [Host m]

/-- Writes figures or a listing to the standard output. -/
def report (lines : List Text) : Action m Unit := do
  match ← (Host.out (Script.render lines) : m _) with
  | .error cause => throw (.cannotReport cause)
  | .ok () => return ()

/-- Reads the options file, if one is given. -/
def loadOptions : Option Text → Action m Options
  | none => return {}
  | some path => do
    match ← (Host.read path : m _) with
    | .error (.opening cause) => throw (.optionsUnreadable path cause.message)
    | .error (.reading cause) => throw (.optionsUnreadable path cause.message)
    | .ok bytes =>
      match Text.decode? bytes with
      | none => throw (.optionsUnreadable path "stream did not contain valid UTF-8".toList)
      | some text =>
        match Options.read text with
        | .ok options => return options
        | .error cause => throw (.optionsInvalid path cause)

/-- Reads a dump. -/
def readDump (unpackers : Source.Unpackers) (path : Text) : Action m Text := do
  match ← (Host.read path : m _) with
  | .error (.opening cause) => throw (.cannotOpen path cause)
  | .error (.reading cause) => throw (.cannotRead path cause.message)
  | .ok bytes =>
    match unpackers.unpack (.ofPath path) bytes with
    | .ok bytes => return Source.decode bytes
    | .error (.opening cause) => throw (.cannotOpenStream (.ofPath path) path cause)
    | .error (.reading cause) => throw (.cannotRead path cause)

/-- The dumps to convert. -/
inductive Input where
  | single (path : Text)
  | several (paths : List Text)
  deriving DecidableEq, Repr

/-- The dumps that a path or pattern stands for. -/
def selectInput (path : Text) : Action m Input := do
  if Disk.Glob.isPattern path then
    match Disk.Glob.parse path with
    | .error cause => throw (.badPattern path cause)
    | .ok pattern =>
      let found ← (Disk.search pattern : m _)
      let files ← (found.filterM Disk.isFile : m _)
      if files.isEmpty then throw (.noMatch path)
      return .several (Disk.Path.sort files)
  else
    match ← (Host.kind? path : m _) with
    | none => throw (.inputMissing path)
    | some .directory => throw (.inputIsDirectory path)
    | some .file => return .single path

end DumpBridge.Command
