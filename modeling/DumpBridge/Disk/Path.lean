import DumpBridge.Text.Basic

/-!
# Paths

A path is a text with slashes.  Repeated slashes and parts that stay in place do not matter, except
for a dot at the very start.  Paths are compared part by part, so `a/b` comes before `a.b`.
-/

namespace DumpBridge.Disk.Path

/-- A part of a path. -/
inductive Part where
  /-- The slash at the start. -/
  | root
  /-- The dot at the start. -/
  | here
  /-- The directory above. -/
  | up
  /-- An entry of a directory. -/
  | name (t : Text)
  deriving DecidableEq, Repr

/-- The part that a piece between slashes stands for; a piece may also stand for none. -/
def part? (piece : Text) : Option Part :=
  if piece = [] || piece = ['.'] then none
  else if piece = ['.', '.'] then some .up
  else some (.name piece)

/-- The parts of a path. -/
def parts (path : Text) : List Part :=
  let pieces := Text.cut '/' path
  let start : List Part :=
    if Text.startsWith '/' path then [.root]
    else if pieces.head? = some ['.'] then [.here]
    else []
  start ++ pieces.filterMap part?

/-- The last part of a path, if it is a name. -/
def fileName? (path : Text) : Option Text :=
  match (parts path).getLast? with
  | some (.name t) => some t
  | _ => none

/-- What follows the last dot of the file name.  A name that only starts with a dot has no
extension. -/
def extension? (path : Text) : Option Text := do
  let name ← fileName? path
  let extension := (name.reverse.takeWhile (· != '.')).reverse
  if extension.length + 1 < name.length then some extension else none

/-- The path of an entry of a directory. -/
def join (dir name : Text) : Text :=
  if Text.startsWith '/' name || dir.isEmpty then name
  else if Text.endsWith '/' dir then dir ++ name
  else dir ++ '/' :: name

/-- The pieces without those at the end that stand for no part, except for the first one. -/
def dropIdle (pieces : List Text) : List Text :=
  match pieces with
  | [] => []
  | first :: rest => first :: (rest.reverse.dropWhile fun piece => (part? piece).isNone).reverse

/-- The path without its last part, if that is not the root.  A path of one part leaves nothing. -/
def parent? (path : Text) : Option Text :=
  match (parts path).getLast? with
  | none => none
  | some .root => none
  | some _ =>
    let above := dropIdle (dropIdle (Text.cut '/' path)).dropLast
    some (if above = [[]] && Text.startsWith '/' path then ['/'] else Text.join ['/'] above)

/-- The place of a part in the order of kinds of parts. -/
def Part.rank : Part → Nat
  | root => 0
  | here => 1
  | up => 2
  | name _ => 3

/-- Whether a text comes before another or is the same, by its characters. -/
def textLe : Text → Text → Bool
  | [], _ => true
  | _ :: _, [] => false
  | a :: s, b :: t => if a = b then textLe s t else a.toNat < b.toNat

/-- Whether a part comes before another or is the same. -/
def Part.le : Part → Part → Bool
  | name s, name t => textLe s t
  | a, b => a.rank ≤ b.rank

/-- Whether a list of parts comes before another or is the same. -/
def partsLe : List Part → List Part → Bool
  | [], _ => true
  | _ :: _, [] => false
  | a :: s, b :: t => if a = b then partsLe s t else a.le b

/-- Whether a path comes before another or has the same parts. -/
def le (p q : Text) : Bool :=
  partsLe (parts p) (parts q)

/-- Paths without those that have the parts of the path before them. -/
def dedup : List Text → List Text
  | p :: q :: rest => if parts p = parts q then dedup (p :: rest) else p :: dedup (q :: rest)
  | paths => paths
termination_by paths => paths.length

/-- Paths in order, each once. -/
def sort (paths : List Text) : List Text :=
  dedup (paths.mergeSort le)

end DumpBridge.Disk.Path
