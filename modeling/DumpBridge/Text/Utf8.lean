import DumpBridge.Text.Basic

/-!
# Texts as bytes

Offsets into a line are counted in bytes of its UTF-8 encoding.  Scanning is by characters, so
this module converts between the two: `byteOffset` for a position, `charIndex?` and
`charIndexFrom` for an offset given from outside.  `bytesAsChars` shows the encoding itself as
a text, one character a byte.

`decodeLossy` reads any bytes: every longest part that could still begin a character, and cannot be
completed, becomes one replacement character.
-/

namespace DumpBridge.Text

/-- The UTF-8 encoding of a text. -/
def toBytes (t : Text) : List UInt8 :=
  t.flatMap String.utf8EncodeChar

/-- The number of bytes of a text's encoding. -/
def byteLength (t : Text) : Nat :=
  t.foldr (fun c n => c.utf8Size + n) 0

/-- The byte offset of the character at index `k`. -/
def byteOffset (t : Text) (k : Nat) : Nat :=
  byteLength (t.take k)

/-- The index of the character that starts at byte `offset`, if one does. -/
def charIndex? : Text → Nat → Option Nat
  | [], _ => none
  | _ :: _, 0 => some 0
  | c :: rest, offset + 1 =>
    if c.utf8Size ≤ offset + 1 then (charIndex? rest (offset + 1 - c.utf8Size)).map
      (· + 1) else none

/-- The index of the first character that starts at byte `offset` or later. -/
def charIndexFrom : Text → Nat → Nat
  | [], _ => 0
  | _ :: _, 0 => 0
  | c :: rest, offset + 1 => charIndexFrom rest (offset + 1 - c.utf8Size) + 1

/-- The encoding of a text, each byte shown as the character of that number. -/
def bytesAsChars (t : Text) : Text :=
  (toBytes t).map fun b => Char.ofNat b.toNat

/-- The replacement character. -/
def replacement : Char := '\uFFFD'

/-- A continuation byte: `10xxxxxx`. -/
def isContinuation (b : UInt8) : Bool :=
  0x80 ≤ b && b ≤ 0xBF

/-- The payload of a continuation byte. -/
def payload (b : UInt8) : Nat :=
  b.toNat % 0x40

/-- Whether `b` may follow the first byte `lead` of a sequence of three bytes.  The limits exclude
encodings longer than needed and surrogates. -/
def mayFollowThree (lead b : UInt8) : Bool :=
  if lead = 0xE0 then 0xA0 ≤ b && b ≤ 0xBF
  else if lead = 0xED then 0x80 ≤ b && b ≤ 0x9F
  else isContinuation b

/-- Whether `b` may follow the first byte `lead` of a sequence of four bytes.  The limits exclude
encodings longer than needed and numbers above U+10FFFF. -/
def mayFollowFour (lead b : UInt8) : Bool :=
  if lead = 0xF0 then 0x90 ≤ b && b ≤ 0xBF
  else if lead = 0xF4 then 0x80 ≤ b && b ≤ 0x8F
  else isContinuation b

/-- The first character of non-empty bytes, and how many bytes it takes after the first. -/
def decodeFirst (lead : UInt8) (rest : List UInt8) : Char × Nat :=
  if lead < 0x80 then (Char.ofNat lead.toNat, 0)
  else if 0xC2 ≤ lead && lead ≤ 0xDF then
    match rest with
    | b :: _ =>
      if isContinuation b then (Char.ofNat (lead.toNat % 0x20 * 0x40 + payload b), 1)
      else (replacement, 0)
    | [] => (replacement, 0)
  else if 0xE0 ≤ lead && lead ≤ 0xEF then
    match rest with
    | b :: more =>
      if mayFollowThree lead b then
        match more with
        | c :: _ =>
          if isContinuation c then
            (Char.ofNat (lead.toNat % 0x10 * 0x1000 + payload b * 0x40 + payload c), 2)
          else (replacement, 1)
        | [] => (replacement, 1)
      else (replacement, 0)
    | [] => (replacement, 0)
  else if 0xF0 ≤ lead && lead ≤ 0xF4 then
    match rest with
    | b :: more =>
      if mayFollowFour lead b then
        match more with
        | c :: last =>
          if isContinuation c then
            match last with
            | d :: _ =>
              if isContinuation d then
                (Char.ofNat (lead.toNat % 0x08 * 0x40000 + payload b * 0x1000 + payload c * 0x40
                  + payload d), 3)
              else (replacement, 2)
            | [] => (replacement, 2)
          else (replacement, 1)
        | [] => (replacement, 1)
      else (replacement, 0)
    | [] => (replacement, 0)
  else (replacement, 0)

/-- Decodes bytes into `read`, last character first; the next `skip` bytes belong to a
character that is decoded already. -/
def decodeFrom (read : Text) : Nat → List UInt8 → Text
  | _, [] => read.reverse
  | skip + 1, _ :: rest => decodeFrom read skip rest
  | 0, lead :: rest =>
    let (c, taken) := decodeFirst lead rest
    decodeFrom (c :: read) taken rest

/-- The text of any bytes, with a replacement character for each part that is no encoding. -/
def decodeLossy (bytes : List UInt8) : Text :=
  decodeFrom [] 0 bytes

/-- The mark that may begin a text: it tells the order of the bytes, and is no part of it. -/
def byteOrderMark : Char := '\uFEFF'

/-- The text of bytes that are the encoding of one. -/
def decode? (bytes : List UInt8) : Option Text :=
  let t := decodeLossy bytes
  if toBytes t = bytes then some t else none

end DumpBridge.Text
