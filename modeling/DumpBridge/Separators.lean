import DumpBridge.Line.Kind

/-!
# Separators left dangling

A clause that has become a comment may leave the clause before it with a comma that leads
nowhere.  In an alteration the comma becomes the end of the statement; before the end of a
table definition it goes.  An alteration whose clauses are all comments becomes one itself.

Each line is settled by the lines after it, so both passes go through the lines once.
-/

namespace DumpBridge.Separators

open Text (Pattern isBlank)
open Line (isComment isData isEmpty commentOut tableName?)

/-- The start of a clause of an alteration. -/
def alterClause : Pattern :=
  .blanks ++ .anyPhrase ["ADD", "DROP", "MODIFY", "CHANGE", "ALTER COLUMN", "RENAME"]
    ++ .one isBlank

/-- A line that only names the table to alter. -/
def alterHeader : Pattern :=
  .blanks ++ .phrase "ALTER TABLE " ++ .someOf (!isBlank ·) ++ .blanks ++ .textEnd

/-- The start of a statement. -/
def statementStart : Pattern :=
  .blanks ++ .anyPhrase ["CREATE", "ALTER TABLE", "DROP TABLE", "INSERT", "REPLACE", "SET", "LOCK",
    "UNLOCK", "COMMIT", "START"] ++ .edge

/-- Whether a line is neither blank nor a comment. -/
def isLive (line : Text) : Bool :=
  !isEmpty line && !isComment line

/-- The first line that is not blank. -/
def nextNonBlank? (lines : List Text) : Option Text :=
  lines.find? (!isEmpty ·)

/-- The first live line. -/
def nextLive? (lines : List Text) : Option Text :=
  lines.find? isLive

/-- What becomes of a line's comma. -/
inductive CommaFix where
  | keep
  | terminate
  | drop
  deriving DecidableEq, Repr

/-- What becomes of the comma at the end of a line, given the lines after it. -/
def commaFix (line : Text) (rest : List Text) : CommaFix :=
  let trimmed := Text.trimEnd line
  if !Text.endsWith ',' trimmed || isComment trimmed || isData trimmed then .keep
  else
    match nextNonBlank? rest with
    | none => .keep
    | some next =>
      if alterClause.starts trimmed then
        if isComment next then
          if (nextLive? rest).any alterClause.starts then .keep else .terminate
        else if (tableName? next).isSome then .terminate
        else .keep
      else if (nextLive? rest).any fun live => Text.startsWith ')' live.trimStart then .drop
      else .keep

/-- The line with the comma at its end replaced; the blanks after it stay. -/
def replaceComma (new : Text) (line : Text) : Text :=
  (Text.trimEnd line).dropLast ++ new ++ line.drop (Text.trimEnd line).length

/-- What a fix makes of a line. -/
def CommaFix.apply : CommaFix → Text → Text
  | keep, line => line
  | terminate, line => replaceComma [';'] line
  | drop, line => replaceComma [] line

/-- The fix of each line's comma. -/
def commaFixes : List Text → List CommaFix
  | [] => []
  | line :: rest => commaFix line rest :: commaFixes rest

/-- Whether an alteration still has a live clause in the lines after its header.  The search
ends at a comment that ends the statement, and at the start of another one. -/
def hasLiveClause : List Text → Bool
  | [] => false
  | line :: rest =>
    if isEmpty line then hasLiveClause rest
    else if isComment line then
      if Text.endsWith ';' (Text.trimEnd line) then false else hasLiveClause rest
    else !statementStart.starts line

/-- Whether a line is the header of an alteration without live clauses. -/
def isBareHeader (line : Text) (rest : List Text) : Bool :=
  alterHeader.starts line && !hasLiveClause rest

/-- Whether each line is the header of an alteration without live clauses. -/
def bareHeaders : List Text → List Bool
  | [] => []
  | line :: rest => isBareHeader line rest :: bareHeaders rest

/-- Lines with their separators repaired, and how often each repair was made. -/
structure Outcome where
  lines : List Text
  terminated : Nat
  dropped : Nat
  commented : Nat
  deriving DecidableEq, Repr

/-- How many commas were repaired. -/
def Outcome.commas (outcome : Outcome) : Nat :=
  outcome.terminated + outcome.dropped

/-- Repairs the commas of lines, and then the headers. -/
def repair (lines : List Text) : Outcome :=
  let fixes := commaFixes lines
  let fixed := List.zipWith CommaFix.apply fixes lines
  let bare := bareHeaders fixed
  { lines := List.zipWith (fun bare line => if bare then commentOut line else line) bare fixed
    terminated := fixes.count .terminate
    dropped := fixes.count .drop
    commented := bare.count true }

end DumpBridge.Separators
