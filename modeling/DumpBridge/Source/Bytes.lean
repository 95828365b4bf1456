import DumpBridge.Source.UnpackError

/-!
# Fields of packed content

The headers of the packed formats are made of fields of a fixed number of bytes.  The
functions below read from the start of some bytes and give what they have read and what is
left.  Numbers are written with their lowest byte first.
-/

namespace DumpBridge.Source

/-- The number that some bytes write. -/
def littleEndian (bytes : List UInt8) : Nat :=
  bytes.foldr (fun b n => b.toNat + 256 * n) 0

/-- Reads `n` bytes; that there are fewer is the error `ends`. -/
def field (ends : UnpackError) (n : Nat) (bytes : List UInt8) :
    Except UnpackError (List UInt8 × List UInt8) :=
  let read := bytes.take n
  if read.length < n then .error ends else .ok (read, bytes.drop n)

/-- Reads a number of `n` bytes. -/
def numberField (ends : UnpackError) (n : Nat) (bytes : List UInt8) :
    Except UnpackError (Nat × List UInt8) := do
  let (read, rest) ← field ends n bytes
  return (littleEndian read, rest)

/-- Reads bytes that are known beforehand, one after the other.  The first that differs is the error
`differs`. -/
def expect (ends differs : UnpackError) : List UInt8 → List UInt8 → Except UnpackError (List UInt8)
  | [], bytes => .ok bytes
  | _ :: _, [] => .error ends
  | a :: known, b :: bytes => if a = b then expect ends differs known bytes else .error differs

/-- One step of the checksum: a bit leaves at the low end. -/
def checksumBit (sum : UInt32) : UInt32 :=
  if sum &&& 1 = 1 then (sum >>> 1) ^^^ 0xEDB88320 else sum >>> 1

/-- The checksum with a byte taken in. -/
def checksumByte (sum : UInt32) (b : UInt8) : UInt32 :=
  (List.range 8).foldl (fun sum _ => checksumBit sum) (sum ^^^ b.toUInt32)

/-- The checksum of some bytes: the remainder of a division of polynomials, with the first and
the last bits turned over. -/
def checksum (bytes : List UInt8) : Nat :=
  ((bytes.foldl checksumByte 0xFFFFFFFF) ^^^ 0xFFFFFFFF).toNat

end DumpBridge.Source
