import DumpBridge.Yaml.Place

/-!
# YAML scalars

The three ways to write a text: plain, between quotes, and as a block of lines.  In the first two, a
line break inside the text stands for a space, and further breaks stand for themselves.

Every step of a scan takes a character.  So the characters at its start bound the steps: the
argument `bound` holds them, and only their number matters.
-/

namespace DumpBridge.Yaml

/-- The spaces and breaks between two words of a scalar. -/
structure Gap where
  /-- The spaces before the first break. -/
  spaces : Text
  /-- The breaks. -/
  breaks : Text
  /-- The place after them. -/
  place : Place

namespace Gap

/-- Reads on over spaces and breaks.  A tab that would indent to less than `indent` columns is an
error. -/
def scanFrom (indent : Nat) : Text → Gap → Option Gap
  | [], gap => some gap
  | _ :: bound, gap =>
    match gap.place.next? with
    | none => some gap
    | some c =>
      if isSpace c then
        if gap.breaks.isEmpty then
          scanFrom indent bound
            { gap with spaces := gap.spaces ++ [c], place := gap.place.advance 1 }
        else if c = '\t' && gap.place.column < indent then none
        else scanFrom indent bound { gap with place := gap.place.advance 1 }
      else if isBreak c then
        scanFrom indent bound
          { gap with breaks := gap.breaks ++ gap.place.breakText, place := gap.place.nextLine }
      else some gap

/-- The gap at a place. -/
def scan (indent : Nat) (p : Place) : Option Gap :=
  scanFrom indent p.rest ⟨[], [], p⟩

/-- What a gap stands for. -/
def text (gap : Gap) : Text :=
  match gap.breaks with
  | [] => gap.spaces
  | b :: more =>
    if b = '\n' then (if more.isEmpty then [' '] else more) else b :: more

end Gap

/-! ## Plain scalars -/

/-- How many characters of a plain scalar come before the next space, break or end.  Inside brackets
some characters end a scalar, and a colon before one of them is an error. -/
def plainRun (flow : Bool) : Text → Option Nat
  | [] => some 0
  | c :: rest =>
    if isSpace c || isBreak c then some 0
    else if flow && c = ':' && rest.head?.any (· ∈ ",?[]\x7b\x7d".toList) then none
    else if c = ':' && isEdge rest.head? then some 0
    else if flow && c ∈ ",[]\x7b\x7d".toList then some 0
    else (plainRun flow rest).map (· + 1)

/-- A scalar that has been read. -/
structure Scanned where
  text : Text
  place : Place
  /-- Whether the place is on a new line. -/
  onNewLine : Bool := false

/-- Reads a plain scalar on from a place, after `done` and with `pending` between.  A scalar outside
brackets goes on as long as lines are indented by `indent`. -/
def plainFrom (flow : Bool) (indent : Nat) (pending : Text) : Text → Scanned → Option Scanned
  | [], done => some done
  | _ :: bound, done =>
    if done.place.isDocumentMark || done.place.isAt "#" then some done
    else do
      let n ← plainRun flow done.place.rest
      if n = 0 then return done
      let text := done.text ++ pending ++ done.place.rest.take n
      let place := done.place.advance n
      if !place.next?.any (fun c => isSpace c || isBreak c) then
        return { text := text, place := place }
      let gap ← Gap.scan indent place
      let done := { text := text, place := gap.place, onNewLine := !gap.breaks.isEmpty }
      if !flow && gap.place.column < indent then return done
      plainFrom flow indent gap.text bound done

/-- The plain scalar at a place. -/
def scanPlain (flow : Bool) (indent : Nat) (p : Place) : Option Scanned :=
  plainFrom flow indent [] p.rest { text := [], place := p }

/-! ## Quoted scalars -/

/-- The characters that one letter after a backslash stands for. -/
def shortEscapes : List (Char × Char) :=
  [('0', '\x00'), ('a', '\x07'), ('b', '\x08'), ('t', '\t'), ('\t', '\t'), ('n', '\n'),
   ('v', '\x0b'), ('f', '\x0c'), ('r', '\r'), ('e', '\x1b'), (' ', ' '), ('"', '"'), ('/', '/'),
   ('\\', '\\'), ('N', '\x85'), ('_', '\xa0'), ('L', '\u2028'), ('P', '\u2029')]

/-- The value of a digit of base sixteen. -/
def hexValue? (c : Char) : Option Nat :=
  if c.isDigit then some (c.toNat - '0'.toNat)
  else if 'a' ≤ c && c ≤ 'f' then some (c.toNat - 'a'.toNat + 10)
  else if 'A' ≤ c && c ≤ 'F' then some (c.toNat - 'A'.toNat + 10)
  else none

/-- The character whose number is given by exactly `count` digits at the start of a text. -/
def hexChar? (count : Nat) (t : Text) : Option Char := do
  let digits ← (t.take count).mapM hexValue?
  if digits.length < count then none
  else
    let n := digits.foldl (fun n d => n * 16 + d) 0
    if n.isValidChar then some (Char.ofNat n) else none

/-- The character of an escape, given what follows the backslash, and how many characters it has. -/
def escape? : Text → Option (Char × Nat)
  | [] => none
  | c :: rest =>
    if c = 'x' then (hexChar? 2 rest).map (·, 3)
    else if c = 'u' then (hexChar? 4 rest).map (·, 5)
    else if c = 'U' then (hexChar? 8 rest).map (·, 9)
    else (shortEscapes.lookup c).map (·, 1)

/-- Where a run of a quoted scalar ends. -/
inductive RunEnd where
  /-- At the closing quote. -/
  | quote
  /-- At a space or break. -/
  | gap
  /-- At a backslash before a break. -/
  | joined
  deriving DecidableEq

/-- A run of a quoted scalar without spaces: its value, how many characters it has, and its end. -/
def quotedRun (double : Bool) : Text → Text → Option (Text × Nat × RunEnd)
  | [], _ => none
  | _ :: _, [] => none
  | _ :: bound, c :: rest =>
    if isSpace c || isBreak c then some ([], 0, .gap)
    else if double && c = '"' then some ([], 0, .quote)
    else if double && c = '\\' then
      if rest.head?.any isBreak then some ([], 0, .joined)
      else do
        let (d, n) ← escape? rest
        let (text, taken, stop) ← quotedRun double bound (rest.drop n)
        return (d :: text, taken + n + 1, stop)
    else if !double && c = '\'' then
      if rest.head? = some '\'' then do
        let (text, taken, stop) ← quotedRun double bound (rest.drop 1)
        return ('\'' :: text, taken + 2, stop)
      else some ([], 0, .quote)
    else do
      let (text, taken, stop) ← quotedRun double bound rest
      return (c :: text, taken + 1, stop)

/-- Reads a quoted scalar on from a place inside the quotes. -/
def quotedFrom (double : Bool) : Text → Scanned → Option Scanned
  | [], _ => none
  | _ :: bound, done =>
    if done.place.isDocumentMark then none
    else do
      let (text, n, stop) ← quotedRun double done.place.rest done.place.rest
      let text := done.text ++ text
      let place := done.place.advance n
      match stop with
      | .quote => return { text := text, place := place.advance 1 }
      | .gap =>
        let gap ← Gap.scan 0 place
        quotedFrom double bound { text := text ++ gap.text, place := gap.place }
      | .joined =>
        -- The first break is swallowed together with the spaces after it.
        let gap ← Gap.scan 0 (place.advance 1).nextLine
        quotedFrom double bound { text := text ++ gap.breaks, place := gap.place }

/-- The quoted scalar at a place, which is at its opening quote. -/
def scanQuoted (double : Bool) (p : Place) : Option Scanned :=
  quotedFrom double p.rest { text := [], place := p.advance 1 }

/-! ## Block scalars -/

/-- What becomes of the breaks at the end of a block scalar. -/
inductive Chomping where
  | strip
  | clip
  | keep
  deriving DecidableEq

/-- The header of a block scalar: chomping and indentation, in either order, and the place after. -/
def blockHeader (p : Place) : Option (Chomping × Option Nat × Place) :=
  let chomping (p : Place) : Option (Chomping × Place) :=
    if p.isAt "+" then some (.keep, p.advance 1)
    else if p.isAt "-" then some (.strip, p.advance 1)
    else none
  let indentation (p : Place) : Option (Option Nat × Place) :=
    match p.next? with
    | some c =>
      if c = '0' then none
      else if c.isDigit then some (some (c.toNat - '0'.toNat), p.advance 1)
      else some (none, p)
    | none => some (none, p)
  match chomping p with
  | some (style, p) => do
    let (indent, p) ← indentation p
    return (style, indent, p)
  | none => do
    let (indent, p) ← indentation p
    match indent, chomping p with
    | some _, some (style, p) => return (style, indent, p)
    | _, _ => return (.clip, indent, p)

/-- The empty lines at a place inside a block: their breaks, the place after them, and the greatest
column that they reach.  Spaces up to column `indent`, if it is known, belong to the indentation. -/
def blockBreaks (indent : Option Nat) : Text → Text → Nat → Place → Option (Text × Nat × Place)
  | [], _, _, _ => none
  | _ :: bound, breaks, deepest, p =>
    let spaces := (p.rest.takeWhile (· = ' ')).length
    let taken := match indent with
      | some k => min spaces (k - p.column)
      | none => spaces
    let p := p.advance taken
    let deepest := max deepest p.column
    if p.isAt "\t" && indent.all (p.column < ·) then none
    else if p.next?.any isBreak then
      blockBreaks indent bound (breaks ++ p.breakText) deepest p.nextLine
    else some (breaks, deepest, p)

/-- The state of reading a block scalar. -/
structure Block where
  text : Text
  /-- The break that ended the last line. -/
  lead : Text := []
  /-- The breaks of the empty lines after it. -/
  trail : Text
  /-- Whether the last line started with a space. -/
  spaced : Bool := false
  place : Place

/-- Reads the lines of a block scalar that are indented to column `indent`. -/
def blockLines (literal : Bool) (indent : Nat) : Text → Block → Option Block
  | [], _ => none
  | _ :: bound, block =>
    if block.place.column != indent || block.place.rest.isEmpty then some block
    else do
      let spaced := block.place.next?.any isSpace
      let joint :=
        if !literal && block.lead = ['\n'] && !block.spaced && !spaced then
          if block.trail.isEmpty then [' '] else []
        else block.lead
      let line := block.place.rest.takeWhile (!isBreak ·)
      let stop := block.place.advance line.length
      let (trail, _, place) ← blockBreaks (some indent) block.place.rest [] 0 stop.nextLine
      blockLines literal indent bound
        { text := block.text ++ joint ++ block.trail ++ line, lead := stop.breakText, trail := trail
          spaced := spaced, place := place }

/-- The block scalar at a place, which is at its bar or angle.  Its lines are indented by more than
`indent`, the column of what it belongs to. -/
def scanBlock (literal : Bool) (indent : Int) (p : Place) : Option Scanned := do
  let bound := p.rest
  let (style, increment, p) ← blockHeader (p.advance 1)
  let p := p.advance (p.rest.takeWhile isSpace).length
  let p := if p.isAt "#" then p.advance (p.rest.takeWhile (!isBreak ·)).length else p
  if !isEdge p.next? then none
  else
    let p := p.nextLine
    let known := increment.map fun n => if 0 ≤ indent then indent.toNat + n else n
    let (trail, deepest, p) ← blockBreaks known bound [] 0 p
    let column := known.getD (max deepest (max (indent + 1).toNat 1))
    let block ← blockLines literal column bound { text := [], trail := trail, place := p }
    let ending := match style with
      | .strip => []
      | .clip => block.lead
      | .keep => block.lead ++ block.trail
    return { text := block.text ++ ending, place := block.place, onNewLine := true }

end DumpBridge.Yaml
