import DumpBridge.Text.Basic

/-!
# Patterns

A pattern describes pieces of text.  Where it can match in several ways, the ways are ordered:
the first branch of a choice comes before the second, and a repetition prefers more rounds
(`star`) or fewer (`starLazy`).  `Pattern.ends` lists all ways in that order, and the first of
them is the match.

A run of characters of one class (`run`) matches in one way only, which is the one that a
repetition of the class prefers (`head?_ends_star_one`).  Where the pattern goes on with
characters of other classes, as after blanks or digits, giving characters back could not help.

A match is looked for at a place in a text, a `Cursor`, which also knows the character before the
place: that decides whether a word ends there.  Patterns of keywords ignore case.
-/

namespace DumpBridge.Text

/-- A piece of text that a match has set aside under a number: `length` characters of `source`. -/
structure Capture where
  slot : Nat
  source : Text
  length : Nat

/-- The characters set aside. -/
def Capture.text (c : Capture) : Text :=
  c.source.take c.length

/-- A place in a text: the character before it, what follows, how many characters a match has
taken to come here, and what it has set aside, latest first. -/
structure Cursor where
  before : Option Char
  rest : Text
  taken : Nat
  captures : List Capture

namespace Cursor

/-- The place before a text, where no match has taken anything yet. -/
def start (before : Option Char) (t : Text) : Cursor :=
  { before := before, rest := t, taken := 0, captures := [] }

/-- What was last set aside under a number. -/
def capture? (c : Cursor) (slot : Nat) : Option Text :=
  (c.captures.find? fun capture => capture.slot = slot).map Capture.text

/-- What was last set aside under a number, or nothing. -/
def captured (c : Cursor) (slot : Nat) : Text :=
  (c.capture? slot).getD []

/-- Whether a word starts or ends at the place. -/
def isEdge (c : Cursor) : Bool :=
  c.before.any isWord != c.rest.head?.any isWord

/-- The place after the characters of a class that start a text, after `last`. -/
def skipFrom (p : Char → Bool) (captures : List Capture) (last : Char) (taken : Nat) : Text → Cursor
  | [] => { before := some last, rest := [], taken := taken, captures := captures }
  | x :: rest =>
    if p x then skipFrom p captures x (taken + 1) rest
    else { before := some last, rest := x :: rest, taken := taken, captures := captures }

/-- The place after the characters of a class that follow. -/
def skip (c : Cursor) (p : Char → Bool) : Cursor :=
  match c.rest with
  | [] => c
  | x :: rest => if p x then skipFrom p c.captures x (c.taken + 1) rest else c

end Cursor

/-- A description of pieces of text. -/
inductive Pattern where
  /-- The empty piece. -/
  | nothing
  /-- One character of a class. -/
  | one (p : Char → Bool)
  /-- All characters of a class that follow. -/
  | run (p : Char → Bool)
  /-- A piece of `a` and then one of `b`. -/
  | seq (a b : Pattern)
  /-- A piece of `a`, or else one of `b`. -/
  | alt (a b : Pattern)
  /-- Any number of pieces of `a`, rather more. -/
  | star (a : Pattern)
  /-- Any number of pieces of `a`, rather fewer. -/
  | starLazy (a : Pattern)
  /-- A piece of `a`, set aside under a number. -/
  | capture (slot : Nat) (a : Pattern)
  /-- A place where a word starts or ends. -/
  | edge
  /-- The end of the text. -/
  | textEnd

namespace Pattern

instance : Append Pattern := ⟨seq⟩

/-- The ends of as many rounds of `step` from `c` as there are, more rounds first, before `others`.
A round that takes nothing is none, so there are no more rounds than characters left: `bound` is
those characters, and only their number matters. -/
def greedy (step : Cursor → List Cursor) : Text → Cursor → List Cursor → List Cursor
  | [], c, others => c :: others
  | _ :: bound, c, others =>
    (step c).foldr
    (fun d others => if c.taken < d.taken then greedy step bound d others else others)
      (c :: others)

/-- The ends of rounds of `step` from `c`, fewer rounds first, before `others`. -/
def reluctant (step : Cursor → List Cursor) : Text → Cursor → List Cursor → List Cursor
  | [], c, others => c :: others
  | _ :: bound, c, others =>
    c :: (step c).foldr
      (fun d others => if c.taken < d.taken then reluctant step bound d others else others) others

/-- Where the matches of a pattern at `c` end, best first. -/
def ends : Pattern → Cursor → List Cursor
  | nothing, c => [c]
  | one p, c =>
    match c.rest with
    | [] => []
    | x :: rest => if p x then [{ c with before := some x, rest := rest, taken := c.taken + 1 }]
      else []
  | run p, c => [c.skip p]
  | seq a b, c => (a.ends c).flatMap b.ends
  | alt a b, c => a.ends c ++ b.ends c
  | star a, c => greedy a.ends c.rest c []
  | starLazy a, c => reluctant a.ends c.rest c []
  | capture slot a, c =>
    (a.ends c).map fun d =>
      { d with captures := ⟨slot, c.rest, d.taken - c.taken⟩ :: d.captures }
  | edge, c => if c.isEdge then [c] else []
  | textEnd, c => if c.rest.isEmpty then [c] else []

/-- After one more character of a class, the rest of the run is the same. -/
theorem skip_cons (p : Char → Bool) (x : Char) (c : Cursor) (rest : Text)
    (hrest : c.rest = x :: rest) (hx : p x) :
    Cursor.skip { c with before := some x, rest := rest, taken := c.taken + 1 } p = c.skip p := by
  cases rest with
  | nil => simp [Cursor.skip, Cursor.skipFrom, hrest, hx]
  | cons y rest => simp [Cursor.skip, Cursor.skipFrom, hrest, hx]

/-- A repetition of one class prefers the whole run. -/
theorem head?_greedy_one (p : Char → Bool) (t : Text) (c : Cursor) (others : List Cursor)
    (hrest : c.rest = t) :
    (greedy (one p).ends t c others).head? = some (c.skip p) := by
  induction t generalizing c others with
  | nil => simp [greedy, Cursor.skip, hrest]
  | cons x rest ih =>
    by_cases hx : p x
    · have step : (one p).ends c =
          [{ c with before := some x, rest := rest, taken := c.taken + 1 }] := by
        simp [ends, hrest, hx]
      simp [greedy, step, ih, skip_cons p x c rest hrest hx]
    · have stop : (one p).ends c = [] := by simp [ends, hrest, hx]
      simp [greedy, stop, Cursor.skip, hrest, hx]

/-- A run is what a repetition of its class prefers. -/
theorem head?_ends_star_one (p : Char → Bool) (c : Cursor) :
    ((star (one p)).ends c).head? = ((run p).ends c).head? := by
  simpa [ends] using head?_greedy_one p c.rest c [] rfl

/-- The end of the match at the start of a text that has `before` in front of it. -/
def matchAfter (p : Pattern) (before : Option Char) (t : Text) : Option Cursor :=
  (p.ends (.start before t)).head?

/-- The end of the match at the start of a text. -/
def matchStart (p : Pattern) (t : Text) : Option Cursor :=
  p.matchAfter none t

/-- Whether a text starts with a match. -/
def starts (p : Pattern) (t : Text) : Bool :=
  (p.matchStart t).isSome

/-- The first match in a text that has `before` in front of it: the characters skipped,
and its end. -/
def findAfter (p : Pattern) : Option Char → Text → Option (Text × Cursor)
  | before, [] => (p.matchAfter before []).map fun stop => ([], stop)
  | before, c :: rest =>
    match p.matchAfter before (c :: rest) with
    | some stop => some ([], stop)
    | none => (findAfter p (some c) rest).map fun found => (c :: found.1, found.2)

/-- The first match in a text: the characters skipped, and its end. -/
def find? (p : Pattern) (t : Text) : Option (Text × Cursor) :=
  p.findAfter none t

/-- Whether a match stands anywhere in a text. -/
def occurs (p : Pattern) (t : Text) : Bool :=
  (p.find? t).isSome

/-- Replaces the matches in a text that has `before` in front of it; the next `skip`
characters belong to a match that is replaced already.  An empty match replaces nothing. -/
def replaceFrom (p : Pattern) (new : Cursor → Text) : Option Char → Nat → Text → Text
  | _, _, [] => []
  | _, skip + 1, c :: rest => replaceFrom p new (some c) skip rest
  | before, 0, c :: rest =>
    match p.matchAfter before (c :: rest) with
    | some stop =>
      if stop.taken = 0 then c :: replaceFrom p new (some c) 0 rest
      else new stop ++ replaceFrom p new (some c) (stop.taken - 1) rest
    | none => c :: replaceFrom p new (some c) 0 rest

/-- The text with every match replaced, from left to right. -/
def replaceWith (p : Pattern) (new : Cursor → Text) (t : Text) : Text :=
  p.replaceFrom new none 0 t

/-- The text with every match replaced by one text. -/
def replace (p : Pattern) (new : Text) (t : Text) : Text :=
  p.replaceWith (fun _ => new) t

/-- The text without the matches. -/
def erase (p : Pattern) (t : Text) : Text :=
  p.replace [] t

/-! ## Patterns of keywords -/

/-- The sign of the kelvin, which is a k. -/
def kelvinSign : Char := '\u212A'

/-- The long s, which is an s. -/
def longS : Char := '\u017F'

/-- Whether two characters are one letter in either case.  Two letters outside ASCII fold
into it. -/
def sameLetter (a b : Char) : Bool :=
  a.toLower = b.toLower || (a.toLower = 'k' && b = kelvinSign) || (a.toLower = 's' && b = longS)

/-- The start of a name, where case is ignored. -/
def isFoldedNameStart (c : Char) : Bool :=
  isNameStart c || c = kelvinSign || c = longS

/-- One given character. -/
def char (c : Char) : Pattern :=
  one (· = c)

/-- A piece of `a`, if there is one. -/
def optional (a : Pattern) : Pattern :=
  alt a nothing

/-- One or more pieces of `a`, rather more. -/
def plus (a : Pattern) : Pattern :=
  seq a (star a)

/-- All characters of a class that follow, at least one. -/
def someOf (p : Char → Bool) : Pattern :=
  one p ++ run p

/-- All blanks that follow. -/
def blanks : Pattern :=
  run isBlank

/-- All blanks that follow, at least one. -/
def gap : Pattern :=
  someOf isBlank

/-- All decimal digits that follow, at least one. -/
def digits : Pattern :=
  someOf isDigit

/-- All word characters that follow, at least one. -/
def wordChars : Pattern :=
  someOf isWord

/-- Words in any case; each space stands for one or more blanks. -/
def phrase (s : String) : Pattern :=
  s.toList.foldr (fun c p => (if c = ' ' then gap else one (sameLetter c)) ++ p) nothing

/-- The first of some patterns that matches. -/
def anyOf : List Pattern → Pattern
  | [] => one fun _ => false
  | [p] => p
  | p :: rest => alt p (anyOf rest)

/-- One of some phrases. -/
def anyPhrase (phrases : List String) : Pattern :=
  anyOf (phrases.map phrase)

/-- A parenthesis, the pattern `inner`, and the closing parenthesis, with blanks anywhere. -/
def inParens (inner : Pattern) : Pattern :=
  char '(' ++ blanks ++ inner ++ blanks ++ char ')'

/-- A backtick or double quote, which may stand around a name. -/
def isNameQuote (c : Char) : Bool :=
  c = '\x60' || c = '"'

/-- A backtick or double quote, if there is one. -/
def nameQuote : Pattern :=
  optional (one isNameQuote)

end Pattern
end DumpBridge.Text
