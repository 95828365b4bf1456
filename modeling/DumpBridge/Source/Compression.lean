import DumpBridge.Disk.Path
import DumpBridge.Text.Lower

/-!
# Compressed dumps

A dump's name tells whether it is compressed, by its extension in any case.  The name of the script
does without that extension.
-/

namespace DumpBridge.Source

open Disk

/-- How a dump may be compressed. -/
inductive Compression where
  | none
  | gzip
  | bzip2
  | xz
  | zstd
  deriving DecidableEq, Repr

namespace Compression

/-- The extensions of compressed files. -/
def extensions : List (String × Compression) :=
  [("gz", gzip), ("gzip", gzip), ("bz2", bzip2), ("bzip2", bzip2), ("xz", xz), ("lzma", xz),
   ("zst", zstd), ("zstd", zstd)]

/-- The compression that a path's extension stands for. -/
def ofPath (path : Text) : Compression :=
  match Path.extension? path with
  | Option.none => none
  | some extension =>
    let extension := Text.lower extension
    match extensions.find? fun entry => entry.1.toList = extension with
    | some entry => entry.2
    | Option.none => none

/-- The word for a compression. -/
def name : Compression → String
  | none => "none"
  | gzip => "gzip"
  | bzip2 => "bzip2"
  | xz => "xz"
  | zstd => "zstd"

/-- The compression of a name. -/
def ofName? (name : String) : Option Compression :=
  [none, gzip, bzip2, xz, zstd].find? (·.name = name)

/-- A file name up to its last dot, if the file is compressed and there is one. -/
def stripExtension (compression : Compression) (name : Text) : Text :=
  if compression = none || !('.' ∈ name : Bool) then name
  else ((name.reverse.dropWhile (· != '.')).drop 1).reverse

end Compression
end DumpBridge.Source
