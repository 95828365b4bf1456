import DumpBridge.Source.Compression
import DumpBridge.Source.Gzip
import DumpBridge.Source.Bzip2
import DumpBridge.Source.Lzma
import DumpBridge.Source.Zstd

/-!
# Unpacking

A dump without compression is its own content.  A packed one is unpacked by
its format, which its name tells.  What unpacks a format is not part of a
command: it comes in from outside as `Unpackers`, and nothing is assumed of
it.  `Unpackers.builtin` are those of the program.
-/

namespace DumpBridge.Source

/-- Why a packed dump has no content, in the words of its format. -/
inductive StreamError where
  /-- The stream does not open, whatever is in it. -/
  | opening (cause : Text)
  | reading (cause : Text)
  deriving DecidableEq, Repr

/-- What gives the content of files of one format, or why there is none. -/
abbrev Unpacker := List UInt8 → Except StreamError (List UInt8)

/-- What unpacks each of the packed formats. -/
structure Unpackers where
  gzip : Unpacker
  bzip2 : Unpacker
  xz : Unpacker
  zstd : Unpacker

namespace Unpackers

/-- The content of a dump, or why there is none. -/
def unpack (unpackers : Unpackers) : Compression → Unpacker
  | .none => .ok
  | .gzip => unpackers.gzip
  | .bzip2 => unpackers.bzip2
  | .xz => unpackers.xz
  | .zstd => unpackers.zstd

/-- An unpacker whose streams always open. -/
def ofReader (read : List UInt8 → Except UnpackError (List UInt8)) : Unpacker :=
  fun bytes => (read bytes).mapError fun cause => .reading cause.message

/-- The formats as far as they are built in: gzip is read in full, and of the
others all but the packed blocks. -/
def builtin : Unpackers where
  gzip := ofReader Gzip.unpack
  bzip2 := ofReader Bzip2.unpack
  xz := ofReader Lzma.unpack
  zstd := ofReader Zstd.unpack

end Unpackers
end DumpBridge.Source
