import DumpBridge.Source.Bytes

/-!
# Deflated data

Deflated data is a sequence of blocks of bits.  A block holds bytes as they are, or symbols in
a code with shorter words for commoner symbols.  A symbol stands for a byte, for the end of
the block, or together with a second one for a copy of bytes that came before.

The words of a code are given out from zero upward, shorter ones first, so that the lengths of the
words determine the code.
-/

namespace DumpBridge.Source.Deflate

/-- What is left of the data, bit by bit. -/
abbrev Bits := List Bool

/-- The bits of a byte, lowest first. -/
def byteBits (b : UInt8) : Bits :=
  (List.range 8).map b.toNat.testBit

/-- Reads a number of `n` bits. -/
def number (n : Nat) (bits : Bits) : Except UnpackError (Nat × Bits) :=
  let read := bits.take n
  if read.length < n then .error .deflateEnds
  else .ok (read.foldr (fun bit n => bit.toNat + 2 * n) 0, bits.drop n)

/-! ## Codes -/

/-- The greatest number of bits in a word of a code. -/
def maxWordBits : Nat := 15

/-- A code. -/
structure Code where
  /-- How many words there are of one bit, of two bits, and so on. -/
  counts : List Nat
  /-- The symbols in the order of their words. -/
  symbols : Array Nat

namespace Code

/-- The code in which the word of each symbol has the given length; those of length zero
have none. -/
def ofLengths (lengths : List Nat) : Code :=
  let sizes := (List.range maxWordBits).map (· + 1)
  { counts := sizes.map fun size => lengths.count size
    symbols := (sizes.flatMap fun size =>
      lengths.zipIdx.filterMap fun (length, symbol) =>
        if length = size then some symbol else none).toArray }

/-- How many of the longest words start with the given words. -/
def weight : List Nat → Nat
  | [] => 0
  | count :: counts => count * 2 ^ counts.length + weight counts

/-- Whether every sequence of bits starts with one word. -/
def isComplete (code : Code) : Bool :=
  weight code.counts = 1 <<< maxWordBits

/-- Whether a code may be used for symbols: it has to be complete, unless it has one word
or none. -/
def isUsable (code : Code) : Bool :=
  code.isComplete || code.symbols.size ≤ 1

/-- Reads on in a word.  `value` is the number that its bits make so far, and `first` and
`index` are those of the first word of the next length. -/
def symbolFrom (code : Code) :
    List Nat → Nat → Nat → Nat → Bits → Except UnpackError (Nat × Bits)
  | _, _, _, _, [] => .error .deflateEnds
  | [], _, _, _, _ :: _ => .error .badDeflate
  | count :: counts, value, first, index, bit :: bits =>
    let value := value + bit.toNat
    if value < first + count then
      match code.symbols[index + (value - first)]? with
      | some symbol => .ok (symbol, bits)
      | none => .error .badDeflate
    else if (value - (first + count)) * 2 ^ counts.length < weight counts then
      symbolFrom code counts (2 * value) (2 * (first + count)) (index + count) bits
    else .error .badDeflate

/-- Reads the symbol of the next word. -/
def symbol (code : Code) (bits : Bits) : Except UnpackError (Nat × Bits) :=
  code.symbolFrom code.counts 0 0 0 bits

end Code

/-! ## Symbols -/

/-- The symbol that ends a block. -/
def blockEnd : Nat := 256

/-- The least length of a copy for each symbol after the end of the block, and how many bits add to
it. -/
def copyLengths : List (Nat × Nat) :=
  [(3, 0), (4, 0), (5, 0), (6, 0), (7, 0), (8, 0), (9, 0), (10, 0), (11, 1), (13, 1), (15, 1),
    (17, 1),
   (19, 2), (23, 2), (27, 2), (31, 2), (35, 3), (43, 3), (51, 3), (59, 3), (67, 4), (83, 4),
   (99, 4), (115, 4), (131, 5), (163, 5), (195, 5), (227, 5), (258, 0)]

/-- The least distance of a copy for each symbol, and how many bits add to it. -/
def copyDistances : List (Nat × Nat) :=
  [(1, 0), (2, 0), (3, 0), (4, 0), (5, 1), (7, 1), (9, 2), (13, 2), (17, 3), (25, 3), (33, 4),
    (49, 4),
   (65, 5), (97, 5), (129, 6), (193, 6), (257, 7), (385, 7), (513, 8), (769, 8), (1025, 9),
   (1537, 9),
   (2049, 10), (3073, 10), (4097, 11), (6145, 11), (8193, 12), (12289, 12), (16385, 13),
   (24577, 13)]

/-- The number that a symbol and the bits after it stand for. -/
def stepped (steps : List (Nat × Nat)) (symbol : Nat) (bits : Bits) :
    Except UnpackError (Nat × Bits) := do
  match steps[symbol]? with
  | none => throw .badDeflate
  | some (least, extra) =>
    let (more, bits) ← number extra bits
    return (least + more, bits)

/-- Adds `n` bytes, each equal to the one `distance` before it.  Before the data there are zeros. -/
def copy (distance : Nat) : Nat → Array UInt8 → Array UInt8
  | 0, out => out
  | n + 1, out =>
    let b := if distance ≤ out.size then out.getD (out.size - distance) 0 else 0
    copy distance n (out.push b)

/-- Reads symbols up to the end of a block.  Every symbol has a bit, so the bits bound the steps. -/
def symbolsFrom (literals distances : Code) :
    Nat → Array UInt8 → Bits → Except UnpackError (Array UInt8 × Bits)
  | 0, _, _ => .error .deflateEnds
  | fuel + 1, out, bits => do
    let (symbol, bits) ← literals.symbol bits
    if symbol < blockEnd then symbolsFrom literals distances fuel (out.push symbol.toUInt8) bits
    else if symbol = blockEnd then return (out, bits)
    else
      let (length, bits) ← stepped copyLengths (symbol - (blockEnd + 1)) bits
      let (symbol, bits) ← distances.symbol bits
      let (distance, bits) ← stepped copyDistances symbol bits
      symbolsFrom literals distances fuel (copy distance length out) bits

/-! ## Blocks -/

/-- The lengths of the words in the code that needs no description. -/
def fixedLengths : List Nat :=
  List.replicate 144 8 ++ List.replicate 112 9 ++ List.replicate 24 7 ++ List.replicate 8 8

/-- The lengths of the words for distances in the code that needs no description. -/
def fixedDistanceLengths : List Nat :=
  List.replicate 32 5

/-- The order in which a description gives the lengths of the words that it is written in. -/
def descriptionOrder : List Nat :=
  [16, 17, 18, 0, 8, 7, 9, 6, 10, 5, 11, 4, 12, 3, 13, 2, 14, 1, 15]

/-- Reads `n` numbers of three bits. -/
def shortNumbers : Nat → Bits → Except UnpackError (List Nat × Bits)
  | 0, bits => .ok ([], bits)
  | n + 1, bits => do
    let (head, bits) ← number 3 bits
    let (rest, bits) ← shortNumbers n bits
    return (head :: rest, bits)

/-- Reads `n` lengths after those in `lengths`.  Three symbols repeat the last length or zero. -/
def lengthsFrom (code : Code) (n : Nat) :
    Nat → Array Nat → Bits → Except UnpackError (Array Nat × Bits)
  | 0, _, _ => .error .deflateEnds
  | fuel + 1, lengths, bits => do
    if lengths.size = n then return (lengths, bits)
    if n < lengths.size then throw .badDeflate
    let (symbol, bits) ← code.symbol bits
    if symbol < 16 then lengthsFrom code n fuel (lengths.push symbol) bits
    else
      let (length, extra, least) ←
        if symbol = 16 then
          match lengths.back? with
          | some last => pure (last, 2, 3)
          | none => throw .badDeflate
        else if symbol = 17 then pure (0, 3, 3)
        else pure (0, 7, 11)
      let (more, bits) ← number extra bits
      lengthsFrom code n fuel (lengths ++ Array.replicate (least + more) length) bits

/-- Reads a block of bytes as they are.  It starts at the start of a byte, and its length is written
twice, the second time with all bits turned over. -/
def stored (out : Array UInt8) (bits : Bits) : Except UnpackError (Array UInt8 × Bits) := do
  let bits := bits.drop (bits.length % 8)
  let (length, bits) ← number 16 bits
  let (turned, bits) ← number 16 bits
  if length + turned != 0xFFFF then throw .badDeflate
  (List.range length).foldlM (fun (out, bits) _ => do
    let (b, bits) ← number 8 bits
    return (out.push b.toUInt8, bits)) (out, bits)

/-- Reads a block in the code that needs no description. -/
def fixed (out : Array UInt8) (bits : Bits) : Except UnpackError (Array UInt8 × Bits) :=
  symbolsFrom (.ofLengths fixedLengths) (.ofLengths fixedDistanceLengths) (bits.length + 1) out bits

/-- Reads a block that starts with the description of its codes. -/
def described (out : Array UInt8) (bits : Bits) : Except UnpackError (Array UInt8 × Bits) := do
  let (literals, bits) ← number 5 bits
  let (distances, bits) ← number 5 bits
  let (shorts, bits) ← number 4 bits
  let literals := literals + 257
  let distances := distances + 1
  if 286 < literals || 30 < distances then throw .badDeflate
  let (sizes, bits) ← shortNumbers (shorts + 4) bits
  let sizes := descriptionOrder.zip sizes
  let description := Code.ofLengths ((List.range 19).map fun symbol => (sizes.lookup symbol).getD 0)
  if !description.isComplete then throw .badDeflate
  let (lengths, bits) ← lengthsFrom description (literals + distances) (bits.length + 1) #[] bits
  let literalCode := Code.ofLengths (lengths.toList.take literals)
  let distanceCode := Code.ofLengths (lengths.toList.drop literals)
  if !literalCode.isUsable || !distanceCode.isUsable then throw .badDeflate
  symbolsFrom literalCode distanceCode (bits.length + 1) out bits

/-- Reads blocks up to the one that says it is the last. -/
def blocksFrom : Nat → Array UInt8 → Bits → Except UnpackError (Array UInt8 × Bits)
  | 0, _, _ => .error .deflateEnds
  | fuel + 1, out, bits => do
    let (last, bits) ← number 1 bits
    let (kind, bits) ← number 2 bits
    let (out, bits) ←
      match kind with
      | 0 => stored out bits
      | 1 => fixed out bits
      | 2 => described out bits
      | _ => throw .badDeflate
    if last = 1 then return (out, bits) else blocksFrom fuel out bits

/-- The content of deflated data, and the bytes after it. -/
def inflate (bytes : List UInt8) : Except UnpackError (List UInt8 × List UInt8) := do
  let bits := bytes.flatMap byteBits
  let (out, rest) ← blocksFrom (bits.length + 1) #[] bits
  return (out.toList, bytes.drop (bytes.length - rest.length / 8))

end DumpBridge.Source.Deflate
