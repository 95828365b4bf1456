import DumpBridge.Disk.Glob

/-!
# The machine a command runs on

A command reads and writes files through `Host`, so that it can run on a real machine as well
as on a model of one.  `search` finds the files that a pattern describes.
-/

namespace DumpBridge.Disk

/-- Why the system refused something. -/
inductive SystemError where
  | noEntry
  | busy
  | alreadyExists
  | notDirectory
  | isDirectory
  | brokenPipe
  | nameTooLong
  | other (text : Text)
  deriving DecidableEq, Repr

/-- The system's words for an error. -/
def SystemError.message : SystemError → Text
  | noEntry => "No such file or directory (os error 2)".toList
  | busy => "Device or resource busy (os error 16)".toList
  | alreadyExists => "File exists (os error 17)".toList
  | notDirectory => "Not a directory (os error 20)".toList
  | isDirectory => "Is a directory (os error 21)".toList
  | brokenPipe => "Broken pipe (os error 32)".toList
  | nameTooLong => "File name too long (os error 36)".toList
  | other text => text

/-- What an entry is. -/
inductive Kind where
  | file
  | directory
  deriving DecidableEq, Repr

/-- Why a file could not be read. -/
inductive ReadError where
  | opening (cause : SystemError)
  | reading (cause : SystemError)
  deriving DecidableEq, Repr

/-- What a command may ask of its machine. -/
class Host (m : Type → Type) where
  /-- A file that is not yet at its place. -/
  Temporary : Type
  /-- What is at a path. -/
  kind? : Text → m (Option Kind)
  /-- The names in a directory. -/
  names : Text → m (List Text)
  /-- The content of a file. -/
  read : Text → m (Except ReadError (List UInt8))
  /-- Creates a directory, and those above it as needed. -/
  createDirs : Text → m (Except SystemError Unit)
  /-- Creates a temporary file in a directory. -/
  createTemporary : Text → m (Except SystemError Temporary)
  /-- Gives a temporary file its content. -/
  fill : Temporary → List UInt8 → m (Except SystemError Unit)
  /-- Moves a temporary file to its place, all at once. -/
  persist : Temporary → Text → m (Except SystemError Unit)
  /-- Removes a temporary file. -/
  discard : Temporary → m Unit
  /-- Writes to the standard output. -/
  out : Text → m (Except SystemError Unit)
  /-- Writes to the standard error. -/
  err : Text → m Unit

variable {m : Type → Type} [Monad m] [Host m]

/-- Whether a directory is at a path. -/
def isDirectory (path : Text) : m Bool := do
  return (← Host.kind? path) = some .directory

/-- Whether a file is at a path. -/
def isFile (path : Text) : m Bool := do
  return (← Host.kind? path) = some .file

/-- The path of an entry of the directory at `path`, which is left out if it is the current one. -/
def childPath (path name : Text) : Text :=
  if Path.parts path = [.here] then name else Path.join path name

/-- How deep directories may lie: no path is longer than the system allows. -/
def maxDepth : Nat := 4096

/-- The paths of all entries below a directory, with their names. -/
def below : Nat → Text → m (List (Text × Text))
  | 0, _ => return []
  | depth + 1, path => do
    if ← isDirectory path then
      (← Host.names path).flatMapM fun name => do
        let child := childPath path name
        return (child, name) :: (← below depth child)
    else return []

/-- The paths that components describe, from a path on. -/
def searchFrom : List Glob.Component → Text → m (List Text)
  | [], path => return [path]
  | .literal name :: rest, path => do
    let next := childPath path name
    let found ←
      if name = ['.'] || name = ['.', '.'] then isDirectory path
      else Option.isSome <$> Host.kind? next
    if found then searchFrom rest next else return []
  | .form tokens :: rest, path => do
    if ← isDirectory path then
      let names := (← Host.names path).filter (Glob.fits tokens)
      -- The directory itself and the one above it have names too, but only a dot finds them.
      let dots := if tokens.head? = some (.char '.') then [['.'], ['.', '.']] else []
      let paths := names.map (childPath path)
        ++ (dots.filter (Glob.fits tokens)).map (Path.join path)
      paths.flatMapM (searchFrom rest)
    else return []
  | [.directories], path => do
    let entries ← below maxDepth path
    (entries.map (·.1)).filterM isDirectory
  | .directories :: component :: rest, path => do
    let entries ← below maxDepth path
    ((entries.filter fun entry => component.fitsName entry.2).map (·.1)).flatMapM (searchFrom rest)

/-- The paths that a pattern describes. -/
def search (pattern : Glob.Pattern) : m (List Text) := do
  let paths ← searchFrom pattern.components pattern.start
  if pattern.wantsDirectory then paths.filterM isDirectory else return paths

end DumpBridge.Disk
