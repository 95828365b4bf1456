import DumpBridge.Source.Bytes

/-!
# The bzip2 format

A file is a sequence of streams, one after the other.  A stream is a header, blocks, and a trailer.
There is no decoder for blocks: a stream with one counts as cut off there.
-/

namespace DumpBridge.Source.Bzip2

/-- What starts a stream, before the digit for the size of its blocks. -/
def magic : List UInt8 := [0x42, 0x5A, 0x68]

/-- What starts a block. -/
def blockMagic : List UInt8 := [0x31, 0x41, 0x59, 0x26, 0x53, 0x59]

/-- What starts the trailer. -/
def trailerMagic : List UInt8 := [0x17, 0x72, 0x45, 0x38, 0x50, 0x90]

/-- Reads streams up to the end.  Every stream has a header, so the bytes bound the steps. -/
def streamsFrom : Nat → List UInt8 → Except UnpackError (List UInt8)
  | 0, _ => .error .bzip2Ends
  | fuel + 1, bytes => do
    let (size, rest) ← field .bzip2Ends 1 (← expect .bzip2Ends .badBzip2Header magic bytes)
    if !size.all (fun digit => 0x31 ≤ digit && digit ≤ 0x39) then throw .badBzip2Header
    if rest.head? = trailerMagic.head? then
      let rest ← expect .bzip2Ends .badBzip2Data trailerMagic rest
      let (sum, rest) ← numberField .bzip2Ends 4 rest
      if sum != 0 then throw .badBzip2Data
      if rest.isEmpty then return [] else streamsFrom fuel rest
    else
      let _ ← expect .bzip2Ends .badBzip2Data blockMagic rest
      throw .bzip2Ends

/-- The content of a file. -/
def unpack (bytes : List UInt8) : Except UnpackError (List UInt8) :=
  streamsFrom (bytes.length + 1) bytes

end DumpBridge.Source.Bzip2
