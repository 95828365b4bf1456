import DumpBridge.Text.Basic

/-!
# Warnings

A conversion never stops at a line that it cannot make sense of: the line passes through, and a
warning says so.  A log counts every warning and keeps the first ones, each once, up to a limit.
-/

namespace DumpBridge

/-- What a line was not converted for. -/
inductive Warning where
  /-- A row's parenthesis is not closed on its line. -/
  | unbalanced (line : Nat) (preview : Text)
  /-- A construct that only the dump's dialect knows is left. -/
  | unconverted (line : Nat) (marker preview : Text)
  deriving DecidableEq, Repr

namespace Warning

/-- How many characters of a line are shown. -/
def previewLength : Nat := 80

/-- The start of a text, without blanks around it. -/
def preview (t : Text) : Text :=
  let shown := Text.trim t
  if shown.length ≤ previewLength then shown else shown.take previewLength ++ "...".toList

/-- The warning about a row whose parenthesis is not closed; `t` starts with it. -/
def ofUnbalanced (line : Nat) (t : Text) : Warning :=
  .unbalanced line (preview t)

/-- The warning about a construct that is left on a line. -/
def ofUnconverted (line : Nat) (marker t : Text) : Warning :=
  .unconverted line marker (preview t)

/-- The warning in words. -/
def message : Warning → Text
  | unbalanced line preview =>
    s!"Line {line}: unbalanced value list (".toList ++ preview ++ [')']
  | unconverted line marker preview =>
    s!"Line {line}: unconverted ".toList ++ marker ++ " (".toList ++ preview ++ [')']

end Warning

/-- The warnings of a conversion. -/
structure WarningLog where
  /-- The warnings kept, in the order of their first occurrence. -/
  stored : List Warning := []
  /-- How many warnings may be kept. -/
  limit : Nat := 100
  /-- How many warnings there were. -/
  total : Nat := 0
  deriving Repr

namespace WarningLog

/-- Counts a warning, and keeps it if there is room and it is not there yet. -/
def add (log : WarningLog) (warning : Warning) : WarningLog :=
  { log with
    total := log.total + 1
    stored :=
      if log.stored.length < log.limit && !log.stored.contains warning then log.stored ++ [warning]
      else log.stored }

/-- Counts warnings in order. -/
def addAll (log : WarningLog) (warnings : List Warning) : WarningLog :=
  warnings.foldl add log

/-- How many warnings are kept. -/
def count (log : WarningLog) : Nat :=
  log.stored.length

/-- Whether there were any warnings. -/
def hasWarnings (log : WarningLog) : Bool :=
  0 < log.total

/-- The kept warnings in words, with a line for those that are not. -/
def summary (log : WarningLog) : List Text :=
  log.stored.map (fun warning => "  ⚠ ".toList ++ warning.message)
    ++ (if log.count < log.total then
          [s!"  ... ({log.total - log.count} additional warnings truncated)".toList]
        else [])

end WarningLog
end DumpBridge
