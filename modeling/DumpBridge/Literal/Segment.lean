import DumpBridge.Literal.Lexeme

/-!
# Segments: runs of code and literals

A line is cut into runs of code and whole literals.  A literal runs from the mark that opens
it to the mark that closes it, or to the end of the text if none does.  Two literals may be
neighbours; two runs of code never are.

`mapCode` changes the code and keeps every literal as it is.
-/

namespace DumpBridge.Literal

/-- A run of code or a literal with its quote marks. -/
inductive Segment where
  | code (t : Text)
  | literal (t : Text)
  deriving DecidableEq, Repr

/-- The characters of a segment. -/
def Segment.text : Segment → Text
  | code t => t
  | literal t => t

/-- Puts a lexeme before the segments of what follows it. -/
def Lexeme.before : Lexeme → List Segment → List Segment
  | code c, .code t :: rest => .code (c :: t) :: rest
  | code c, rest => .code [c] :: rest
  | closing c, rest => .literal [c] :: rest
  | lexeme, .literal t :: rest => .literal (lexeme.text ++ t) :: rest
  | lexeme, rest => .literal lexeme.text :: rest

/-- The segments of a text. -/
def segments (q : Quoting) (t : Text) : List Segment :=
  (lexemes q t).foldr Lexeme.before []

/-- The text with `f` applied to each run of code. -/
def mapCode (q : Quoting) (f : Text → Text) (t : Text) : Text :=
  (segments q t).flatMap fun
    | .code s => f s
    | .literal s => s

/-- A lexeme put before segments adds its characters in front. -/
theorem flatMap_text_before (lexeme : Lexeme) (rest : List Segment) :
    (lexeme.before rest).flatMap Segment.text = lexeme.text ++ rest.flatMap Segment.text := by
  fun_cases Lexeme.before lexeme rest <;> simp [Segment.text, Lexeme.text]

/-- The texts of the segments, in order, are the text. -/
theorem flatMap_text_segments (q : Quoting) (t : Text) :
    (segments q t).flatMap Segment.text = t := by
  have texts (ls : List Lexeme) :
      (ls.foldr Lexeme.before []).flatMap Segment.text = ls.flatMap Lexeme.text := by
    induction ls with
    | nil => rfl
    | cons l ls ih => simp [flatMap_text_before, ih]
  rw [segments, texts, flatMap_text_lexemes]

end DumpBridge.Literal
