import DumpBridge.Command.Run

/-!
# The program

The commands on a real machine, where a temporary file is known by its path.
-/

namespace DumpBridge.Machine

open Disk

/-- The kind of an error of the system. -/
def systemError : IO.Error → SystemError
  | .noFileOrDirectory .. => .noEntry
  | .alreadyExists .. => .alreadyExists
  | .resourceBusy .. => .busy
  | e =>
    let text := toString e
    let holds (piece : String) : Bool := Text.contains piece.toList text.toList
    if holds "Not a directory" || holds "not a directory" then .notDirectory
    else if holds "Is a directory" || holds "is a directory" then .isDirectory
    else if holds "ame too long" then .nameTooLong
    else .other text.toList

/-- The result of an action, or why the system refused it. -/
def attempt {α : Type} (action : IO α) : IO (Except SystemError α) := do
  try
    return .ok (← action)
  catch e => return .error (systemError e)

/-- What is at a path. -/
def kind? (path : Text) : IO (Option Kind) := do
  match ← attempt ((← IO.currentDir) / String.ofList path).metadata with
  | .ok data => return some (if data.type == .dir then .directory else .file)
  | .error _ => return none

/-- The names in a directory. -/
def names (path : Text) : IO (List Text) := do
  match ← attempt ((← IO.currentDir) / String.ofList path).readDir with
  | .ok entries => return entries.toList.map (·.fileName.toList)
  | .error _ => return []

/-- The content of a file. -/
def read (path : Text) : IO (Except ReadError (List UInt8)) := do
  match ← attempt (IO.FS.Handle.mk (String.ofList path) .read) with
  | .error cause => return .error (.opening cause)
  | .ok handle => return (← attempt handle.readBinToEnd).mapError .reading |>.map (·.toList)

/-- Creates a temporary file in a directory. -/
def createTemporary (dir : Text) : IO (Except SystemError String) := do
  let stamp ← IO.monoNanosNow
  let path := String.ofList (Path.join dir s!".tmp{stamp}".toList)
  attempt do
    let _ ← IO.FS.Handle.mk path .writeNew
    return path

instance : Host IO where
  Temporary := String
  kind? := kind?
  names := names
  read := read
  createDirs path := attempt (IO.FS.createDirAll (String.ofList path))
  createTemporary := createTemporary
  fill path bytes := attempt (IO.FS.writeBinFile path ⟨bytes.toArray⟩)
  persist path target := attempt (IO.FS.rename path (String.ofList target))
  discard path := do
    let _ ← attempt (IO.FS.removeFile path)
  out text := attempt do
    let stdout ← IO.getStdout
    stdout.putStr (String.ofList text)
    stdout.flush
  err text := do (← IO.getStderr).putStr (String.ofList text)

end DumpBridge.Machine

/-- Runs the command that the arguments stand for. -/
def main (args : List String) : IO UInt32 := do
  let status ← DumpBridge.Command.run (args.map String.toList)
  return status.code.toUInt32
