import DumpBridge.Text.Class

/-!
# Texts and lines

A text is its list of characters.  This module has the operations on whole texts that every part of
the converter shares: trimming blanks, cutting at a character, cutting into lines, and replacing one
piece of text by another.

A line ends at a line feed; a carriage return directly before the line feed belongs to the
line break, and a final line feed starts no further line.
-/

namespace DumpBridge

/-- A text, as its characters in order. -/
abbrev Text := List Char

namespace Text

/-- Whether all characters of a text have a property is decided by going over the text, not over
all characters that there are. -/
instance decidableForallMem (p : Char → Prop) [DecidablePred p] (t : Text) :
    Decidable (∀ c ∈ t, p c) :=
  List.decidableBAll p t

/-- The text without its leading blanks. -/
def trimStart (t : Text) : Text :=
  t.dropWhile isBlank

/-- The text without the characters at its end that `p` holds of. -/
def dropEndWhile (p : Char → Bool) (t : Text) : Text :=
  (t.reverse.dropWhile p).reverse

/-- The text without its trailing blanks. -/
def trimEnd (t : Text) : Text :=
  dropEndWhile isBlank t

/-- The text without blanks at either end. -/
def trim (t : Text) : Text :=
  trimEnd (trimStart t)

/-- The text without the character `c` at either end, however often it stands there. -/
def trimChar (c : Char) (t : Text) : Text :=
  dropEndWhile (· = c) (t.dropWhile (· = c))

/-- Whether the text starts with `c`. -/
def startsWith (c : Char) (t : Text) : Bool :=
  t.head? = some c

/-- Whether the text ends with `c`. -/
def endsWith (c : Char) (t : Text) : Bool :=
  t.getLast? = some c

/-- The pieces between the separators `sep`; `piece` holds the characters of the current piece, last
first. -/
def cutFrom (sep : Char) (piece : Text) : Text → List Text
  | [] => [piece.reverse]
  | c :: rest =>
    if c = sep then piece.reverse :: cutFrom sep [] rest else cutFrom sep (c :: piece) rest

/-- The pieces of a text between the separators `sep`: one more than there are separators. -/
def cut (sep : Char) (t : Text) : List Text :=
  cutFrom sep [] t

/-- The texts joined into one, with `sep` between neighbours. -/
def join (sep : Text) : List Text → Text
  | [] => []
  | [t] => t
  | t :: rest => t ++ sep ++ join sep rest

/-- The text without one carriage return at its end. -/
def dropReturn (t : Text) : Text :=
  if endsWith '\r' t then t.dropLast else t

/-- The lines of a text.  The piece after the last line feed is a line only if it is not
empty, and it keeps a carriage return at its end. -/
def lines (t : Text) : List Text :=
  let pieces := cut '\n' t
  let last := pieces.getLastD []
  pieces.dropLast.map dropReturn ++ (if last.isEmpty then [] else [last])

/-- Replaces `old` by `new` from left to right; the next `skip` characters belong to an occurrence
that is replaced already. -/
def replaceFrom (old new : Text) : Nat → Text → Text
  | _, [] => []
  | skip + 1, _ :: rest => replaceFrom old new skip rest
  | 0, c :: rest =>
    if old.isPrefixOf (c :: rest) then new ++ replaceFrom old new (old.length - 1) rest
    else c :: replaceFrom old new 0 rest

/-- The text with every occurrence of `old`, which is not empty, replaced by `new`.  Occurrences are
taken from left to right and do not overlap. -/
def replace (old new t : Text) : Text :=
  replaceFrom old new 0 t

/-- Whether `piece` occurs in the text. -/
def contains (piece : Text) : Text → Bool
  | [] => piece.isEmpty
  | c :: rest => piece.isPrefixOf (c :: rest) || contains piece rest

/-- Whether two texts agree up to the case of the letters `A` to `Z`. -/
def sameAsciiLetters (s t : Text) : Bool :=
  s.map Char.toLower = t.map Char.toLower

end Text
end DumpBridge
