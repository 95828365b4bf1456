import DumpBridge.Yaml.Tag

/-!
# YAML tokens

The reader turns a document into tokens.  Where blocks are indented it adds tokens for their
starts and ends.  A text turns out to be a key only when a colon follows it on the same line,
so the reader remembers where a key might have started and puts the tokens for a key there
afterwards.

Any error makes the whole document unreadable, so there is only one kind of error.
-/

namespace DumpBridge.Yaml

/-- How a scalar is written. -/
inductive Style where
  | plain
  | quoted
  | literal
  | folded
  deriving DecidableEq, Repr

/-- A token of a document. -/
inductive Token where
  | directive (content : Directive)
  | documentStart
  | documentEnd
  | blockSequenceStart
  | blockMappingStart
  | blockEnd
  | flowSequenceStart
  | flowSequenceEnd
  | flowMappingStart
  | flowMappingEnd
  | blockEntry
  | flowEntry
  | key
  | value
  | alias (name : Text)
  | anchor (name : Text)
  | tag (content : Tag)
  | scalar (style : Style) (text : Text)
  deriving DecidableEq, Repr

/-- Where a key might have started. -/
structure KeyStart where
  /-- Whether there has to be a key, because the block needs one here. -/
  required : Bool
  /-- How many tokens come before it. -/
  index : Nat
  line : Nat
  column : Nat
  offset : Nat

/-- The state of the reader. -/
structure Reader where
  place : Place
  /-- The tokens so far, latest first. -/
  tokens : List Token := []
  /-- How many tokens there are. -/
  count : Nat := 0
  /-- The column of the innermost block; negative outside blocks. -/
  indent : Int := -1
  /-- The columns of the blocks around it. -/
  outer : List Int := []
  /-- Where a key might have started, for each open bracket and for the block, innermost first. -/
  keys : List (Option KeyStart) := [none]
  /-- Whether a key may start here. -/
  keyAllowed : Bool := true

namespace Reader

/-- Whether brackets are open. -/
def inFlow (r : Reader) : Bool :=
  1 < r.keys.length

/-- Adds a token after the first `index` ones. -/
def insert (r : Reader) (index : Nat) (token : Token) : Reader :=
  let after := r.count - index
  { r with
    tokens := r.tokens.take after ++ token :: r.tokens.drop after
    count := r.count + 1 }

/-- Adds a token. -/
def emit (r : Reader) (token : Token) : Reader :=
  r.insert r.count token

/-- Opens a block at a column, if it is further in, with its token after `index` tokens. -/
def openBlock (r : Reader) (column index : Nat) (token : Token) : Reader :=
  if !r.inFlow && r.indent < column then
    { r.insert index token with indent := column, outer := r.indent :: r.outer }
  else r

/-- Closes the blocks that are further in than a column. -/
def closeBlocks (column : Int) : List Int → Reader → Reader
  | [], r => r
  | next :: outer, r =>
    if column < r.indent then
      closeBlocks column outer ({ r with indent := next, outer := outer }.emit .blockEnd)
    else r

/-- Closes the blocks that are further in than a column, outside brackets. -/
def unindent (r : Reader) (column : Int) : Reader :=
  if r.inFlow then r else closeBlocks column r.outer r

/-- Forgets where the innermost key might have started; that it had to be one is an error. -/
def dropKey (r : Reader) : Option Reader :=
  match r.keys with
  | some k :: keys => if k.required then none else some { r with keys := none :: keys }
  | _ => some r

/-- Remembers that a key might start here. -/
def noteKey (r : Reader) : Option Reader := do
  if !r.keyAllowed then return r
  let required := !r.inFlow && r.indent = r.place.column
  let r ← r.dropKey
  let start : KeyStart :=
    { required := required, index := r.count, line := r.place.line
      column := r.place.column, offset := r.place.offset }
  return { r with keys := some start :: r.keys.drop 1 }

/-- How many bytes a key may have that is not marked as one. -/
def maxKeyBytes : Nat := 1024

/-- Forgets the starts of keys that lie on earlier lines or too far back. -/
def dropStaleKeys (r : Reader) : Option Reader := do
  let keys ← r.keys.mapM fun key =>
    match key with
    | none => some none
    | some k =>
      if k.line < r.place.line || k.offset + maxKeyBytes < r.place.offset then
        if k.required then none else some none
      else some (some k)
  return { r with keys := keys }

/-- Skips spaces, comments and breaks, and a byte order mark at the start of a line.  Every
round takes a break, so the characters in `bound` bound the steps. -/
def skipToToken : Text → Reader → Reader
  | [], r => r
  | _ :: bound, r =>
    let isSkipped (c : Char) : Bool := c = ' ' || (c = '\t' && (r.inFlow || !r.keyAllowed))
    let p := r.place
    let p := if p.column = 0 && p.next? = some Text.byteOrderMark then p.advance 1 else p
    let p := p.advance (p.rest.takeWhile isSkipped).length
    let p := if p.isAt "#" then p.advance (p.rest.takeWhile (!isBreak ·)).length else p
    if p.next?.any isBreak then
      skipToToken bound { r with place := p.nextLine, keyAllowed := r.keyAllowed || !r.inFlow }
    else { r with place := p }

/-- Reads a token of `n` characters. -/
def take (r : Reader) (n : Nat) (token : Token) : Reader :=
  { r with place := r.place.advance n }.emit token

/-- Reads the mark that a document starts or ends here. -/
def documentMark (r : Reader) (token : Token) : Option Reader := do
  let r ← (r.unindent (-1)).dropKey
  return { r with keyAllowed := false }.take 3 token

/-- Reads a directive, with a comment after it and the end of the line. -/
def directive (r : Reader) : Option Reader := do
  let r ← (r.unindent (-1)).dropKey
  let (content, rest) ← Directive.read? (r.place.rest.drop 1)
  let rest := rest.dropWhile isSpace
  let rest := if Text.startsWith '#' rest then rest.dropWhile (!isBreak ·) else rest
  if !rest.head?.all isBreak then none
  else
    let place := (r.place.advanceTo rest).nextLine
    return { r with place := place, keyAllowed := false }.emit (.directive content)

/-- Reads an opening bracket. -/
def openFlow (r : Reader) (token : Token) : Option Reader := do
  let r ← r.noteKey
  return { r with keys := none :: r.keys, keyAllowed := true }.take 1 token

/-- Reads a closing bracket. -/
def closeFlow (r : Reader) (token : Token) : Option Reader := do
  let r ← r.dropKey
  let keys := if r.inFlow then r.keys.drop 1 else r.keys
  return { r with keys := keys, keyAllowed := false }.take 1 token

/-- Reads a comma between brackets. -/
def flowEntry (r : Reader) : Option Reader := do
  let r ← r.dropKey
  return { r with keyAllowed := true }.take 1 .flowEntry

/-- Reads the dash before an entry. -/
def blockEntry (r : Reader) : Option Reader := do
  if !r.inFlow && !r.keyAllowed then none
  let r ← (r.openBlock r.place.column r.count .blockSequenceStart).dropKey
  return { r with keyAllowed := true }.take 1 .blockEntry

/-- Reads the question mark before a key. -/
def explicitKey (r : Reader) : Option Reader := do
  if !r.inFlow && !r.keyAllowed then none
  let r ← (r.openBlock r.place.column r.count .blockMappingStart).dropKey
  return { r with keyAllowed := !r.inFlow }.take 1 .key

/-- Reads the colon before a value.  What came before it on the line is the key, if it can be. -/
def valueMark (r : Reader) : Option Reader :=
  match r.keys with
  | some k :: keys =>
    let r := { r.insert k.index .key with keys := none :: keys }
    let opened := r.openBlock k.column k.index .blockMappingStart
    some ({ opened with keyAllowed := false }.take 1 .value)
  | _ =>
    if !r.inFlow && !r.keyAllowed then none
    else
      let r := r.openBlock r.place.column r.count .blockMappingStart
      some ({ r with keyAllowed := !r.inFlow }.take 1 .value)

/-- Reads an anchor or alias. -/
def named (r : Reader) (token : Text → Token) : Option Reader := do
  let r ← r.noteKey
  let name := (r.place.rest.drop 1).takeWhile isNameChar
  let after := r.place.rest[name.length + 1]?
  if name.isEmpty || !(isEdge after || after.any (· ∈ "?:,]\x7d%@\x60".toList)) then none
  else some ({ r with keyAllowed := false }.take (name.length + 1) (token name))

/-- Reads a tag.  Between brackets a comma may follow it, but no closing bracket. -/
def tagMark (r : Reader) : Option Reader := do
  let r ← r.noteKey
  let (content, rest) ← Tag.read? r.place.rest
  if isEdge rest.head? || (r.inFlow && Text.startsWith ',' rest) then
    return { r with place := r.place.advanceTo rest, keyAllowed := false }.emit (.tag content)
  else none

/-- Takes in a scalar that has been read. -/
def takeScalar (r : Reader) (style : Style) (scanned : Scanned) : Reader :=
  let passed := { r with place := scanned.place, keyAllowed := scanned.onNewLine }
  passed.emit (.scalar style scanned.text)

/-- Reads a quoted scalar. -/
def quoted (r : Reader) (double : Bool) : Option Reader := do
  let r ← r.noteKey
  return r.takeScalar .quoted (← scanQuoted double r.place)

/-- Reads a block scalar. -/
def block (r : Reader) (literal : Bool) : Option Reader := do
  let r ← r.dropKey
  return r.takeScalar (if literal then .literal else .folded) (← scanBlock literal r.indent r.place)

/-- Reads a plain scalar. -/
def plain (r : Reader) : Option Reader := do
  let r ← r.noteKey
  return r.takeScalar .plain (← scanPlain r.inFlow (r.indent + 1).toNat r.place)

/-- Whether a plain scalar may start with `c` before `after`. -/
def startsPlain (r : Reader) (c : Char) (after : Option Char) : Bool :=
  if isSpace c then false
  else if c ∈ "-?:,[]\x7b\x7d#&*!|>'\"%@\x60".toList then
    (c = '-' && !after.all isSpace) || (!r.inFlow && (c = '?' || c = ':') && !isEdge after)
  else true

/-- Reads the token that starts with `c`. -/
def token (r : Reader) (c : Char) : Option Reader :=
  let after := r.place.rest[1]?
  if r.place.column = 0 && c = '%' then r.directive
  else if r.place.isMark "---" then r.documentMark .documentStart
  else if r.place.isMark "..." then r.documentMark .documentEnd
  else if c = '[' then r.openFlow .flowSequenceStart
  else if c = '\x7b' then r.openFlow .flowMappingStart
  else if c = ']' then r.closeFlow .flowSequenceEnd
  else if c = '\x7d' then r.closeFlow .flowMappingEnd
  else if c = ',' then r.flowEntry
  else if c = '-' && isEdge after then r.blockEntry
  else if c = '?' && (r.inFlow || isEdge after) then r.explicitKey
  else if c = ':' && (r.inFlow || isEdge after) then r.valueMark
  else if c = '*' then r.named .alias
  else if c = '&' then r.named .anchor
  else if c = '!' then r.tagMark
  else if c = '|' && !r.inFlow then r.block true
  else if c = '>' && !r.inFlow then r.block false
  else if c = '\'' then r.quoted false
  else if c = '"' then r.quoted true
  else if r.startsPlain c after then r.plain
  else none

/-- Reads all tokens that are left.  Every token takes a character, so the length of the document
bounds the steps. -/
def readAll : Nat → Reader → Option (List Token)
  | 0, _ => none
  | fuel + 1, r => do
    let r ← (skipToToken r.place.rest r).dropStaleKeys
    let r := r.unindent r.place.column
    match r.place.next? with
    | none => return (← (r.unindent (-1)).dropKey).tokens.reverse
    | some c => readAll fuel (← r.token c)

end Reader

/-- The tokens of a document. -/
def tokens? (document : Text) : Option (List Token) :=
  if document.all isAllowed then
    Reader.readAll (document.length + 1) { place := { rest := document } }
  else none

end DumpBridge.Yaml
