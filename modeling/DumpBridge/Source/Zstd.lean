import DumpBridge.Source.Bytes

/-!
# The zstd format

A file is a sequence of frames, one after the other.  A frame is a header, blocks, and perhaps
a checksum, or is to be skipped.  There is a decoder for the two simple kinds of blocks only:
a frame with another block counts as cut off there.
-/

namespace DumpBridge.Source.Zstd

/-- What starts a frame. -/
def magic : List UInt8 := [0x28, 0xB5, 0x2F, 0xFD]

/-- Whether bytes start like a frame to be skipped; the lower half of the first byte is free. -/
def isSkippable (bytes : List UInt8) : Bool :=
  match bytes with
  | [] => true
  | first :: rest => first &&& 0xF0 = 0x50 && (rest.take 3).isPrefixOf [0x2A, 0x4D, 0x18]

/-- Whether bytes start like a frame, as far as they go. -/
def isFrame (bytes : List UInt8) : Bool :=
  (bytes.take 4).isPrefixOf magic

/-- The header of a frame. -/
structure Header where
  /-- How many bytes back copies may reach. -/
  window : Nat
  /-- The number of the dictionary that is needed, or zero. -/
  dictionary : Nat
  /-- The size of the content, if it is told. -/
  contentSize : Option Nat
  hasChecksum : Bool

/-- The greatest window. -/
def maxWindow : Nat := (1 <<< 27) + 1

/-- The greatest size of a block. -/
def maxBlock : Nat := 1 <<< 17

/-- Reads the header of a frame, after what starts it. -/
def header (bytes : List UInt8) : Except UnpackError (Header × List UInt8) := do
  let (descriptor, rest) ← numberField .zstdEnds 1 bytes
  let single := descriptor.testBit 5
  let sizeCode := descriptor / 64
  let sizeBytes := if sizeCode = 0 then (if single then 1 else 0) else 1 <<< sizeCode
  let (window, rest) ← if single then pure (0, rest) else numberField .zstdEnds 1 rest
  let (dictionary, rest) ← numberField .zstdEnds ([0, 1, 2, 4].getD (descriptor % 4) 0) rest
  let (size, rest) ← numberField .zstdEnds sizeBytes rest
  if descriptor.testBit 3 then throw .unsupportedZstdFrame
  -- Two bytes cannot write what one can, so their numbers start where those of one byte end.
  let size := if sizeCode = 1 then size + 256 else size
  let base := 1 <<< (window / 8 + 10)
  let header : Header :=
    { window := if single then size else base + base / 8 * (window % 8)
      dictionary := dictionary
      contentSize := if sizeBytes = 0 then none else some size
      hasChecksum := descriptor.testBit 2 }
  if !single && 1 <<< 31 < base then throw .zstdWindowTooLarge
  if dictionary != 0 then throw .wrongZstdDictionary
  if maxWindow < header.window then throw .zstdWindowTooLarge
  return (header, rest)

/-- Reads blocks up to the last one, after the content `done`.  Every block has a header, so
the bytes bound the steps. -/
def blocksFrom (header : Header) : Nat → List UInt8 → List UInt8 →
    Except UnpackError (List UInt8 × List UInt8)
  | 0, _, _ => .error .zstdEnds
  | fuel + 1, done, bytes => do
    let (word, rest) ← numberField .zstdEnds 3 bytes
    let size := word / 8
    let kind := word / 2 % 4
    if kind = 3 then throw .badZstdData
    let packed := if kind = 1 then 1 else size
    if min header.window maxBlock < packed then throw .badZstdData
    let (body, rest) ← field .zstdEnds packed rest
    if kind = 2 then throw .zstdEnds
    let done := done ++ if kind = 1 then List.replicate size (body.headD 0) else body
    if word % 2 = 0 then blocksFrom header fuel done rest
    else if header.contentSize.any (· != done.length) then throw .badZstdData
    else return (done, rest)

/-- Reads a frame: its content, and the bytes after it. -/
def frame (bytes : List UInt8) : Except UnpackError (List UInt8 × List UInt8) := do
  if isFrame bytes then
    let (_, rest) ← field .zstdEnds 4 bytes
    let (header, rest) ← header rest
    let (content, rest) ← blocksFrom header (rest.length + 1) [] rest
    let (_, rest) ← field .zstdEnds (if header.hasChecksum then 4 else 0) rest
    return (content, rest)
  else if isSkippable bytes then
    let (_, rest) ← field .zstdEnds 4 bytes
    let (size, rest) ← numberField .zstdEnds 4 rest
    let (_, rest) ← field .zstdEnds size rest
    return ([], rest)
  else throw .unknownZstdFrame

/-- Reads frames up to the end.  Every frame has a header, so the bytes bound the steps. -/
def framesFrom : Nat → List UInt8 → Except UnpackError (List UInt8)
  | 0, _ => .error .zstdEnds
  | fuel + 1, bytes => do
    let (content, rest) ← frame bytes
    if rest.isEmpty then return content else return content ++ (← framesFrom fuel rest)

/-- The content of a file. -/
def unpack (bytes : List UInt8) : Except UnpackError (List UInt8) :=
  framesFrom (bytes.length + 1) bytes

end DumpBridge.Source.Zstd
