import DumpBridge.Text.Basic

/-!
# Why content cannot be unpacked

Each packed format has its own ways to be wrong, and its own words for them.
-/

namespace DumpBridge.Source

/-- Why content cannot be unpacked. -/
inductive UnpackError where
  /-- A gzip member ends inside its header or trailer. -/
  | gzipEnds
  | badGzipHeader
  | gzipFieldTooLong
  | badGzipChecksum
  /-- The packed data of a gzip member ends too early. -/
  | deflateEnds
  | badDeflate
  | bzip2Ends
  | badBzip2Header
  | badBzip2Data
  | lzmaEnds
  | unknownLzmaFormat
  | badLzmaData
  | badLzmaOptions
  | zstdEnds
  | unknownZstdFrame
  | unsupportedZstdFrame
  | zstdWindowTooLarge
  | wrongZstdDictionary
  | badZstdData
  deriving DecidableEq, Repr

/-- The error in words. -/
def UnpackError.message : UnpackError → Text
  | gzipEnds => "unexpected end of file".toList
  | badGzipHeader => "invalid gzip header".toList
  | gzipFieldTooLong => "gzip header field too long".toList
  | badGzipChecksum => "corrupt gzip stream does not have a matching checksum".toList
  | deflateEnds => "incomplete deflate stream".toList
  | badDeflate => "corrupt deflate stream".toList
  | bzip2Ends => "decompression not finished but EOF reached".toList
  | badBzip2Header => "bzip2: bz2 header missing".toList
  | badBzip2Data => "bzip2: invalid data".toList
  | lzmaEnds => "premature eof".toList
  | unknownLzmaFormat => "stream/file format not recognized".toList
  | badLzmaData => "lzma data error".toList
  | badLzmaOptions => "invalid options".toList
  | zstdEnds => "incomplete frame".toList
  | unknownZstdFrame => "Unknown frame descriptor".toList
  | unsupportedZstdFrame => "Unsupported frame parameter".toList
  | zstdWindowTooLarge => "Frame requires too much memory for decoding".toList
  | wrongZstdDictionary => "Dictionary mismatch".toList
  | badZstdData => "Data corruption detected".toList

end DumpBridge.Source
