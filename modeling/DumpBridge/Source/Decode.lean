import DumpBridge.Text.Utf8

/-!
# Reading a dump's bytes

A dump is meant to be UTF-8, but whatever is not is replaced rather than refused.  One byte
order mark at the start is dropped.  A metered read hands out bytes in pieces and tells how
many there were so far.
-/

namespace DumpBridge.Source

/-- The text of a dump. -/
def decode (bytes : List UInt8) : Text :=
  match Text.decodeLossy bytes with
  | [] => []
  | c :: rest => if c = Text.byteOrderMark then rest else c :: rest

/-- One read of at most a given number of bytes. -/
structure Read where
  bytes : List UInt8
  /-- How many bytes this read and those before it gave. -/
  total : Nat
  deriving DecidableEq, Repr

/-- Reads of at most the given sizes, after `total` bytes have been read. -/
def readsFrom (total : Nat) (bytes : List UInt8) : List Nat → List Read
  | [] => []
  | size :: sizes =>
    let piece := bytes.take size
    let total := total + piece.length
    ⟨piece, total⟩ :: readsFrom total (bytes.drop size) sizes

/-- Reads of at most the given sizes. -/
def meteredReads (bytes : List UInt8) (sizes : List Nat) : List Read :=
  readsFrom 0 bytes sizes

end DumpBridge.Source
