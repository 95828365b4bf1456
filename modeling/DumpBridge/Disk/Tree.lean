import DumpBridge.Disk.Host
import DumpBridge.Text.Utf8

/-!
# A machine in memory

A `Tree` holds files and directories by the names on the way to them from the root.  Paths
that do not start at the root start at its working directory.  A `World` adds what has been
written to the two output streams.  Commands run on it as a state.
-/

namespace DumpBridge.Disk

/-- The names on the way from the root to an entry. -/
abbrev Location := List Text

/-- How many bytes a name may have. -/
def maxNameBytes : Nat := 255

/-- How many bytes a path may have. -/
def maxPathBytes : Nat := 4095

/-- Files and directories.  The root is always there. -/
structure Tree where
  files : List (Location × List UInt8)
  dirs : List Location
  /-- Where relative paths start. -/
  workingDir : Location
  deriving DecidableEq, Repr

namespace Tree

/-- The content of a file. -/
def file? (tree : Tree) (location : Location) : Option (List UInt8) :=
  (tree.files.find? (·.1 = location)).map (·.2)

/-- What is at a location. -/
def kindAt? (tree : Tree) (location : Location) : Option Kind :=
  if location = [] || location ∈ tree.dirs then some .directory
  else if (tree.file? location).isSome then some .file
  else none

/-- The location of a name in a directory, if the name is short enough. -/
def entry (location : Location) (name : Text) : Except SystemError Location :=
  if maxNameBytes < name.byteLength then .error .nameTooLong else .ok (location ++ [name])

/-- Where the pieces of a path lead from a location.  The directory above the root is the root. -/
def walk (tree : Tree) (location : Location) : List Text → Except SystemError Location
  | [] => .ok location
  | piece :: rest =>
    if tree.kindAt? location != some .directory then .error .notDirectory
    else
      match Path.part? piece with
      | some .up => walk tree location.dropLast rest
      | some (.name name) => do
        let location ← entry location name
        if (tree.kindAt? location).isSome then walk tree location rest else .error .noEntry
      | _ => walk tree location rest

/-- Where a path starts, if it is short enough. -/
def start (tree : Tree) (path : Text) : Except SystemError Location :=
  if maxPathBytes < path.byteLength then .error .nameTooLong
  else .ok (if Text.startsWith '/' path then [] else tree.workingDir)

/-- The location of the entry at a path. -/
def locate (tree : Tree) (path : Text) : Except SystemError Location :=
  if path.isEmpty then .error .noEntry
  else do tree.walk (← tree.start path) (Text.cut '/' path)

/-- What is at a path. -/
def kind? (tree : Tree) (path : Text) : Option Kind :=
  match tree.locate path with
  | .ok location => tree.kindAt? location
  | .error _ => none

/-- The names in a directory. -/
def namesAt (tree : Tree) (location : Location) : List Text :=
  (tree.files.map (·.1) ++ tree.dirs).filterMap fun entry =>
    if entry.dropLast = location then entry.getLast? else none

/-- The names in the directory at a path. -/
def names (tree : Tree) (path : Text) : List Text :=
  match tree.locate path with
  | .ok location => tree.namesAt location
  | .error _ => []

/-- The content of the file at a path. -/
def read (tree : Tree) (path : Text) : Except ReadError (List UInt8) :=
  match tree.locate path with
  | .error cause => .error (.opening cause)
  | .ok location =>
    match tree.file? location with
    | some bytes => .ok bytes
    | none => .error (.reading .isDirectory)

/-- Adds the directories that the pieces of a path name, from a location on. -/
def addDirs (tree : Tree) (location : Location) : List Text → Except SystemError Tree
  | [] => .ok tree
  | piece :: rest =>
    match Path.part? piece with
    | some .up => addDirs tree location.dropLast rest
    | some (.name name) => do
      let location ← entry location name
      match tree.kindAt? location with
      | some .directory => addDirs tree location rest
      | some .file => .error (if rest.all List.isEmpty then .alreadyExists else .notDirectory)
      | none => addDirs { tree with dirs := tree.dirs ++ [location] } location rest
    | _ => addDirs tree location rest

/-- The last piece of a path that is not empty, and the pieces before it from the last to
the first. -/
def lastPiece? (path : Text) : Option (Text × List Text) :=
  match (Text.cut '/' path).reverse.dropWhile List.isEmpty with
  | [] => none
  | last :: above => some (last, above)

/-- Adds the directory at a path and those above it.  The empty path asks for none.  A dot at
the end names no new directory, so that what it stands for must be there. -/
def createDirs (tree : Tree) (path : Text) : Except SystemError Tree :=
  if (lastPiece? path).any (·.1 = ['.']) then (tree.locate path).map fun _ => tree
  else do tree.addDirs (← tree.start path) (Text.cut '/' path)

/-- The tree with nothing but a working directory. -/
def ofWorkingDir (location : Location) : Tree :=
  { files := []
    dirs := (List.range location.length).map fun n => location.take (n + 1)
    workingDir := location }

/-- Gives a file content. -/
def setFile (tree : Tree) (location : Location) (bytes : List UInt8) : Tree :=
  { tree with files := tree.files.filter (·.1 != location) ++ [(location, bytes)] }

/-- Gives the file at a path content, if a file may be there. -/
def replaceFile (tree : Tree) (path : Text) (bytes : List UInt8) : Except SystemError Tree :=
  match lastPiece? path with
  | none => .error (if path.isEmpty then .noEntry else .busy)
  | some (last, above) => do
    let above ← tree.walk (← tree.start path) above.reverse
    if tree.kindAt? above != some .directory then throw .notDirectory
    if last = ['.'] || last = ['.', '.'] then throw .busy
    let location ← entry above last
    if Text.endsWith '/' path then throw .notDirectory
    if tree.kindAt? location = some .directory then throw .isDirectory
    return tree.setFile location bytes

/-- Removes a file. -/
def removeFile (tree : Tree) (location : Location) : Tree :=
  { tree with files := tree.files.filter (·.1 != location) }

/-- Moves a file to a path, if a file may be there. -/
def rename (tree : Tree) (source : Location) (path : Text) : Except SystemError Tree :=
  match tree.file? source with
  | none => .error .noEntry
  | some bytes => (tree.removeFile source).replaceFile path bytes

/-- The names of temporary files, by number. -/
def temporaryName (n : Nat) : Text :=
  ".tmp".toList ++ [100000, 10000, 1000, 100, 10, 1].map fun unit => Nat.digitChar (n / unit % 10)

/-- The first of several temporary names that nothing in a directory has. -/
def freshName? (tree : Tree) (location : Location) : Nat → Nat → Option Text
  | 0, _ => none
  | tries + 1, n =>
    if (tree.kindAt? (location ++ [temporaryName n])).isSome then
      freshName? tree location tries (n + 1)
    else some (temporaryName n)

/-- How many names there are for temporary files. -/
def maxTemporaries : Nat := 1000000

/-- Adds an empty file under a fresh name to the directory at a path. -/
def createTemporary (tree : Tree) (path : Text) : Except SystemError (Location × Tree) := do
  let above ← tree.locate path
  if tree.kindAt? above != some .directory then throw .notDirectory
  match tree.freshName? above maxTemporaries 0 with
  | none => throw .alreadyExists
  | some name =>
    let _ ← tree.start (Path.join path name)
    return (above ++ [name], tree.setFile (above ++ [name]) [])

end Tree

/-- A machine in memory. -/
structure World where
  tree : Tree
  /-- What was written to the standard output. -/
  stdout : Text := []
  /-- Whether nobody reads the standard output any more. -/
  stdoutClosed : Bool := false
  /-- What was written to the standard error. -/
  stderr : Text := []
  deriving DecidableEq, Repr

namespace World

/-- Changes the tree, unless that is refused. -/
def change {α : Type} (edit : Tree → Except SystemError (α × Tree)) :
    StateM World (Except SystemError α) :=
  fun world =>
    match edit world.tree with
    | .ok (result, tree) => (.ok result, { world with tree := tree })
    | .error cause => (.error cause, world)

instance : Host (StateM World) where
  Temporary := Location
  kind? path := fun world => (world.tree.kind? path, world)
  names path := fun world => (world.tree.names path, world)
  read path := fun world => (world.tree.read path, world)
  createDirs path := change fun tree => (tree.createDirs path).map ((), ·)
  createTemporary path := change (·.createTemporary path)
  fill location bytes := change fun tree => .ok ((), tree.setFile location bytes)
  persist location path := change fun tree => (tree.rename location path).map ((), ·)
  discard location := fun world => ((), { world with tree := world.tree.removeFile location })
  out text := fun world =>
    if world.stdoutClosed then (.error .brokenPipe, world)
    else (.ok (), { world with stdout := world.stdout ++ text })
  err text := fun world => ((), { world with stderr := world.stderr ++ text })

end World
end DumpBridge.Disk
