import DumpBridge.Yaml.Scalar

/-!
# YAML tags and directives

A tag names the type of a node.  It starts with a handle, which stands for the start of the
name, or is written out between angles.  Directives before a document tell its version and
what handles stand for.

The functions below read from the start of a text and give what they have read and what is left.
-/

namespace DumpBridge.Yaml

/-- A character of the names of anchors, handles and directives. -/
def isNameChar (c : Char) : Bool :=
  c.isAlphanum || c = '_' || c = '-'

/-- A character that stands for itself in a tag.  Commas and brackets do so where they cannot end a
node, which is in `wide` tags: between angles and in directives. -/
def isTagChar (wide : Bool) (c : Char) : Bool :=
  isNameChar c || c ∈ ";/?:@&=+$.!~*'()".toList || (wide && c ∈ ",[]".toList)

/-- How many octets follow the first octet of a character. -/
def octetsAfter? (lead : Nat) : Option Nat :=
  if lead < 0x80 then some 0
  else if lead < 0xC0 then none
  else if lead < 0xE0 then some 1
  else if lead < 0xF0 then some 2
  else if lead < 0xF8 then some 3
  else none

/-- How many octets are still to come after an octet, if `due` were to come with it. -/
def octetsDue? (due octet : Nat) : Option Nat :=
  match due with
  | 0 => octetsAfter? octet
  | due + 1 => if 0x80 ≤ octet && octet < 0xC0 then some due else none

/-- Reads the characters of a tag.  A percent sign and two digits write one octet, and all
`due` octets of a character are written so.  In the result every octet is a character. -/
def tagChars? (wide : Bool) : Nat → Text → Option (Text × Text)
  | due, '%' :: high :: low :: rest => do
    let octet := 16 * (← hexValue? high) + (← hexValue? low)
    let (text, rest) ← tagChars? wide (← octetsDue? due octet) rest
    return (Char.ofNat octet :: text, rest)
  | due, c :: rest =>
    if 0 < due || c = '%' then none
    else if isTagChar wide c then (tagChars? wide 0 rest).map fun (text, rest) => (c :: text, rest)
    else some ([], c :: rest)
  | due, [] => if 0 < due then none else some ([], [])

/-- A text up to its first null character, which ends it. -/
def untilNull (t : Text) : Text :=
  t.takeWhile (· != '\x00')

/-- Reads a part of a tag that has at least one character. -/
def tagPart? (wide : Bool) (t : Text) : Option (Text × Text) := do
  let (text, rest) ← tagChars? wide 0 t
  if text.isEmpty then none else some (untilNull text, rest)

/-- Reads what may be a handle: an exclamation mark, a name, and another mark if there is one. -/
def handle? : Text → Option (Text × Text)
  | '!' :: t =>
    let name := t.takeWhile isNameChar
    match t.drop name.length with
    | '!' :: rest => some ('!' :: name ++ ['!'], rest)
    | rest => some ('!' :: name, rest)
  | _ => none

/-- A tag as it is written.  Without a handle the suffix is the whole tag. -/
structure Tag where
  handle : Text
  suffix : Text
  deriving DecidableEq, Repr

/-- The tag of a boolean. -/
def boolTag : Text :=
  "tag:yaml.org,2002:bool".toList

/-- Reads a tag.  An exclamation mark alone is a tag without a handle. -/
def Tag.read? : Text → Option (Tag × Text)
  | '!' :: '<' :: t => do
    match ← tagPart? true t with
    | (suffix, '>' :: rest) => return ({ handle := [], suffix := suffix }, rest)
    | _ => none
  | t => do
    let (handle, rest) ← handle? t
    if 1 < handle.length && Text.endsWith '!' handle then
      let (suffix, rest) ← tagPart? false rest
      return ({ handle := handle, suffix := suffix }, rest)
    else
      let (more, rest) ← tagChars? false 0 rest
      let suffix := untilNull (handle.drop 1 ++ more)
      return (if suffix.isEmpty then { handle := [], suffix := ['!'] }
        else { handle := ['!'], suffix := suffix }, rest)

/-- What handles stand for. -/
abbrev Handles := List (Text × Text)

/-- The handles that need no directive. -/
def Handles.known : Handles :=
  [(['!'], ['!']), (['!', '!'], "tag:yaml.org,2002:".toList)]

/-- The whole tag, if its handle is defined. -/
def Tag.resolve? (handles : Handles) (tag : Tag) : Option Text :=
  if tag.handle.isEmpty then some tag.suffix
  else (handles.lookup tag.handle).map (· ++ tag.suffix)

/-- A line before a document that tells how to read it. -/
inductive Directive where
  | version (major minor : Nat)
  | tag (handle start : Text)
  deriving DecidableEq, Repr

/-- How many digits a number of a version may have. -/
def maxVersionDigits : Nat := 9

/-- Reads a number of a version. -/
def versionNumber? (t : Text) : Option (Nat × Text) :=
  let digits := t.takeWhile Char.isDigit
  if digits.isEmpty || maxVersionDigits < digits.length then none
  else some (digits.foldl (fun n c => n * 10 + (c.toNat - '0'.toNat)) 0, t.drop digits.length)

/-- Reads the two numbers of a version. -/
def version? (t : Text) : Option (Directive × Text) := do
  match ← versionNumber? t with
  | (major, '.' :: rest) =>
    let (minor, rest) ← versionNumber? rest
    return (.version major minor, rest)
  | _ => none

/-- Reads a handle and, after spaces, what it stands for. -/
def definition? (t : Text) : Option (Directive × Text) := do
  let (handle, rest) ← handle? t
  if !Text.endsWith '!' handle || !rest.head?.any isSpace then none
  else
    let (start, rest) ← tagPart? true (rest.dropWhile isSpace)
    if isEdge rest.head? then some (.tag handle start, rest) else none

/-- Reads a directive after its percent sign. -/
def Directive.read? (t : Text) : Option (Directive × Text) :=
  let name := t.takeWhile isNameChar
  let rest := t.drop name.length
  if !isEdge rest.head? then none
  else if name = "YAML".toList then version? (rest.dropWhile isSpace)
  else if name = "TAG".toList then definition? (rest.dropWhile isSpace)
  else none

/-- What the handles stand for in a document with the given directives before it.  The version
may be given once, and has to be one of two; a handle may be defined once. -/
def Handles.ofDirectives? (directives : List Directive) : Option Handles :=
  let versions := directives.filterMap fun
    | .version major minor => some (major, minor)
    | .tag _ _ => none
  let defined := directives.filterMap fun
    | .version _ _ => none
    | .tag handle start => some (handle, start)
  if versions.length ≤ 1 && versions.all (fun v => v = (1, 1) || v = (1, 2))
      && decide (defined.map (·.1)).Nodup then
    some (defined ++ known)
  else none

end DumpBridge.Yaml
