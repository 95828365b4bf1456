import DumpBridge.Source.Bytes

/-!
# The xz and lzma formats

A file is in one of two formats, which its first byte tells apart.  The older format has no
mark of its own, so a file is taken for one only if its header could have been written by a
common program.  There is no decoder for packed data: a file counts as cut off where it
starts.
-/

namespace DumpBridge.Source.Lzma

/-- What starts a file in the newer format. -/
def magic : List UInt8 := [0xFD, 0x37, 0x7A, 0x58, 0x5A, 0x00]

/-- Checks the header of a block, if it is there in full: its last four bytes are a checksum. -/
def checkBlockHeader (bytes : List UInt8) : Except UnpackError Unit := do
  let size := 4 * ((bytes.headD 0).toNat + 1)
  let (header, _) ← field .lzmaEnds size bytes
  if littleEndian (header.drop (size - 4)) != checksum (header.take (size - 4)) then
    throw .badLzmaData

/-- Reads a file in the newer format. -/
def unpackXz (bytes : List UInt8) : Except UnpackError (List UInt8) := do
  let (header, rest) ← field .lzmaEnds 12 bytes
  if header.take 6 != magic then throw .unknownLzmaFormat
  let flags := (header.drop 6).take 2
  if littleEndian (header.drop 8) != checksum flags then throw .badLzmaData
  if flags.headD 0 != 0 || (flags.getD 1 0) &&& 0xF0 != 0 then throw .badLzmaOptions
  if rest.headD 0 != 0 then checkBlockHeader rest
  throw .lzmaEnds

/-- Whether the first byte of the older format can be: it writes three small numbers, of which the
first two add up to at most four. -/
def areProperties (n : Nat) : Bool :=
  n < 9 * 5 * 5 && n % 9 + n / 9 % 5 ≤ 4

/-- Whether a dictionary may have a size: nothing, a power of two or the sum of two
neighbouring ones, or the greatest size. -/
def isDictionarySize (n : Nat) : Bool :=
  n = 0 || n = 0xFFFFFFFF || (List.range 32).any fun k => n = 1 <<< k || n = 3 <<< k

/-- Whether the content may have a size: it is unknown, or not very large. -/
def isContentSize (n : Nat) : Bool :=
  n = 0xFFFFFFFFFFFFFFFF || n < 1 <<< 38

/-- Reads a file in the older format.  Packed data starts with a zero byte.  Without content
it has four more bytes, which are zero, and nothing follows it. -/
def unpackLzma (bytes : List UInt8) : Except UnpackError (List UInt8) := do
  let (properties, rest) ← numberField .lzmaEnds 1 bytes
  if !areProperties properties then throw .unknownLzmaFormat
  let (dictionarySize, rest) ← numberField .lzmaEnds 4 rest
  if !isDictionarySize dictionarySize then throw .unknownLzmaFormat
  let (contentSize, rest) ← numberField .lzmaEnds 8 rest
  if !isContentSize contentSize then throw .unknownLzmaFormat
  let rest ← expect .lzmaEnds .badLzmaData [0] rest
  let (value, rest) ← numberField .lzmaEnds 4 rest
  if contentSize != 0 then throw .lzmaEnds
  if value != 0 || !rest.isEmpty then throw .badLzmaData
  return []

/-- The content of a file. -/
def unpack (bytes : List UInt8) : Except UnpackError (List UInt8) :=
  if bytes.head? = magic.head? then unpackXz bytes else unpackLzma bytes

end DumpBridge.Source.Lzma
