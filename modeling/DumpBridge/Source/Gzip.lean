import DumpBridge.Source.Deflate

/-!
# The gzip format

A file is a sequence of members, one after the other.  A member is a header, deflated data, and a
trailer with the checksum and the length of the content.
-/

namespace DumpBridge.Source.Gzip

/-- How many bytes a text in a header may have. -/
def maxTextBytes : Nat := 65535

/-- Skips a text in a header with the null byte that ends it. -/
def skipText (bytes : List UInt8) : Except UnpackError (List UInt8) :=
  let text := bytes.takeWhile (· != 0)
  if maxTextBytes < text.length then .error .gzipFieldTooLong
  else
    match bytes.drop text.length with
    | [] => .error .gzipEnds
    | _ :: rest => .ok rest

/-- Skips a field that starts with its length. -/
def skipExtra (bytes : List UInt8) : Except UnpackError (List UInt8) := do
  let (length, rest) ← numberField .gzipEnds 2 bytes
  return (← field .gzipEnds length rest).2

/-- Skips the header of a member. -/
def skipHeader (bytes : List UInt8) : Except UnpackError (List UInt8) := do
  let (fixed, rest) ← field .gzipEnds 10 bytes
  let flags := fixed.getD 3 0
  let has (flag : UInt8) : Bool := flags &&& flag != 0
  if fixed.take 3 != [0x1F, 0x8B, 0x08] || has 0xE0 then throw .badGzipHeader
  let rest ← if has 0x04 then skipExtra rest else pure rest
  let rest ← if has 0x08 then skipText rest else pure rest
  let rest ← if has 0x10 then skipText rest else pure rest
  if has 0x02 then
    let (sum, after) ← numberField .gzipEnds 2 rest
    let header := bytes.take (bytes.length - rest.length)
    if sum != checksum header % 0x10000 then throw .badGzipChecksum
    return after
  else return rest

/-- Reads a member: its content, and the bytes after it. -/
def member (bytes : List UInt8) : Except UnpackError (List UInt8 × List UInt8) := do
  let (content, rest) ← Deflate.inflate (← skipHeader bytes)
  let (trailer, rest) ← field .gzipEnds 8 rest
  if littleEndian (trailer.take 4) != checksum content
      || littleEndian (trailer.drop 4) != content.length % 0x100000000 then
    throw .badGzipChecksum
  return (content, rest)

/-- Reads members up to the end.  Every member has a header, so the bytes bound the steps. -/
def membersFrom : Nat → List UInt8 → Except UnpackError (List UInt8)
  | 0, _ => .error .gzipEnds
  | fuel + 1, bytes => do
    let (content, rest) ← member bytes
    if rest.isEmpty then return content else return content ++ (← membersFrom fuel rest)

/-- The content of a file. -/
def unpack (bytes : List UInt8) : Except UnpackError (List UInt8) :=
  membersFrom (bytes.length + 1) bytes

end DumpBridge.Source.Gzip
