import DumpBridge.Disk.Path

/-!
# Patterns of file names

A pattern is a path in which `?` stands for any character, `*` for any number of them, and
brackets for one of some characters or, after an exclamation mark, for any other.  Two
asterisks alone between slashes stand for any number of directories.
-/

namespace DumpBridge.Disk.Glob

/-- Why a text is no pattern, with the position of the fault. -/
inductive Error where
  | wildcards (position : Nat)
  | recursive (position : Nat)
  | range (position : Nat)
  deriving DecidableEq, Repr

/-- What is wrong at a position of a pattern. -/
def errorNear (position : Nat) (problem : String) : Text :=
  s!"Pattern syntax error near position {position}: {problem}".toList

/-- The error in words. -/
def Error.message : Error → Text
  | wildcards n => errorNear n "wildcards are either regular `*` or recursive `**`"
  | recursive n => errorNear n "recursive wildcards must form a single path component"
  | range n => errorNear n "invalid range pattern"

/-- A part of a pattern. -/
inductive Token where
  | char (c : Char)
  | anyChar
  | anySequence
  | anyDirectories
  /-- A character in one of the ranges. -/
  | within (ranges : List (Char × Char))
  /-- A character in none of the ranges. -/
  | except (ranges : List (Char × Char))
  deriving DecidableEq, Repr

/-- The ranges between brackets: single characters, and two with a dash between. -/
def ranges : Text → List (Char × Char)
  | a :: '-' :: b :: rest => (a, b) :: ranges rest
  | a :: rest => (a, a) :: ranges rest
  | [] => []

/-- The bracket expression at the start of a text, and how many characters it has.  The first
character inside may be a closing bracket. -/
def bracket? : Text → Option (Token × Nat)
  | '[' :: '!' :: first :: rest =>
    let more := rest.takeWhile (· != ']')
    if more.length < rest.length then some (.except (ranges (first :: more)), more.length + 4)
      else none
  | '[' :: '!' :: _ => none
  | '[' :: first :: rest =>
    let more := rest.takeWhile (· != ']')
    if more.length < rest.length then some (.within (ranges (first :: more)), more.length + 3)
      else none
  | _ => none

/-- The parts of a pattern that has `before` in front of it, at position `n`. -/
def tokensFrom : Nat → Option Char → Nat → Text → Except Error (List Token)
  | 0, _, _, _ => .ok []
  | _ + 1, _, _, [] => .ok []
  | fuel + 1, before, n, c :: rest =>
    if c = '?' then do return .anyChar :: (← tokensFrom fuel (some c) (n + 1) rest)
    else if c = '*' then
      let stars := (rest.takeWhile (· = '*')).length + 1
      if 2 < stars then .error (.wildcards (n + 2))
      else if stars = 1 then do return .anySequence :: (← tokensFrom fuel (some c) (n + 1) rest)
      else if before.all (· = '/') then
        match rest.drop 1 with
        | [] => .ok [.anyDirectories]
        | '/' :: more => do return .anyDirectories :: (← tokensFrom fuel (some '/') (n + 3) more)
        | _ => .error (.recursive (n + 2))
      else .error (.recursive (n - 1))
    else if c = '[' then
      match bracket? (c :: rest) with
      | some (token, taken) => do
        return token :: (← tokensFrom fuel (some ']') (n + taken) (rest.drop (taken - 1)))
      | none => .error (.range n)
    else do return .char c :: (← tokensFrom fuel (some c) (n + 1) rest)

/-- The parts of a pattern. -/
def tokens (pattern : Text) : Except Error (List Token) :=
  tokensFrom pattern.length none 0 pattern

/-- Whether a part that stands for one character stands for `c`. -/
def Token.accepts : Token → Char → Bool
  | char a, c => a = c
  | anyChar, _ => true
  | within ranges, c => ranges.any fun (a, b) => a ≤ c && c ≤ b
  | except ranges, c => !ranges.any fun (a, b) => a ≤ c && c ≤ b
  | _, _ => false

/-- Whether `p` holds of some text that follows characters at the start. -/
def anySuffix (p : Text → Bool) : Text → Bool
  | [] => p []
  | c :: rest => p (c :: rest) || anySuffix p rest

/-- Whether a name is of the form of a pattern's parts. -/
def fits : List Token → Text → Bool
  | [], name => name.isEmpty
  | .anySequence :: rest, name => anySuffix (fits rest) name
  | token :: rest, c :: name => token.accepts c && fits rest name
  | _ :: _, [] => false

/-- What a pattern asks for between two slashes. -/
inductive Component where
  /-- An entry of that name. -/
  | literal (name : Text)
  /-- An entry whose name is of a form. -/
  | form (tokens : List Token)
  /-- Any number of directories. -/
  | directories
  deriving DecidableEq, Repr

/-- The characters of parts that are all characters. -/
def literal? (tokens : List Token) : Option Text :=
  tokens.mapM fun
    | .char c => some c
    | _ => none

/-- The component between two slashes. -/
def component (piece : Text) : Except Error Component := do
  let tokens ← tokens piece
  if tokens = [.anyDirectories] then return .directories
  match literal? tokens with
  | some name => return .literal name
  | none => return .form tokens

/-- Whether the name of an entry fits a component. -/
def Component.fitsName : Component → Text → Bool
  | literal s, name => s = name
  | form tokens, name => fits tokens name
  | directories, _ => true

/-- Components in which directories are not asked for twice in a row. -/
def collapse : List Component → List Component
  | .directories :: .directories :: rest => collapse (.directories :: rest)
  | component :: rest => component :: collapse rest
  | [] => []

/-- A pattern that has been read. -/
structure Pattern where
  /-- Where the search starts. -/
  start : Text
  components : List Component
  /-- Whether the pattern ends in a slash and so asks for directories. -/
  wantsDirectory : Bool
  deriving DecidableEq, Repr

/-- Reads a pattern.  It has to be well formed as a whole and in each component. -/
def parse (pattern : Text) : Except Error Pattern := do
  let _ ← tokens pattern
  let absolute := Text.startsWith '/' pattern
  let wantsDirectory := Text.endsWith '/' pattern
  let pieces := Text.cut '/' (if absolute then pattern.drop 1 else pattern)
  let pieces := if wantsDirectory then pieces.dropLast else pieces
  let components ← pieces.mapM component
  return { start := if absolute then ['/'] else ['.']
           components := collapse components
           wantsDirectory := wantsDirectory }

/-- Whether a path has to be taken for a pattern. -/
def isPattern (path : Text) : Bool :=
  path.any fun c => c = '*' || c = '?' || c = '['

end DumpBridge.Disk.Glob
