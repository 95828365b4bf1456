import DumpBridge.Line.InsertHeader
import DumpBridge.Table.Schema
import DumpBridge.Warning

/-!
# The rows of insert statements

A row is a tuple in parentheses.  Where a column holds truth values, `0` and `1` become words;
where it holds values of an enum type, an empty literal becomes `NULL`.  Columns are found by
position, from the header's own list or else from the table's order.

The rows of a statement may go on over several lines.  On each line, tuples are read as long as only
commas and blanks stand between them, so a clause after the rows is left alone.  A tuple that is not
closed on its line is left alone too, with a warning.
-/

namespace DumpBridge.Rows

open Line (InsertHeader)
open Literal (Lexeme)

/-- What may have to be done to the value of a column. -/
inductive Coercion where
  /-- `0` and `1` become `FALSE` and `TRUE`. -/
  | boolean
  /-- An empty literal becomes `NULL`. -/
  | enumNull
  deriving DecidableEq, Repr

/-- The positions of a tuple whose values may have to change, in order. -/
abbrev Positions := List (Nat × Coercion)

/-- What a column's values need. -/
def columnCoercion? (table : Table) (column : Text) : Option Coercion :=
  if table.columnHasKind column .boolean then some .boolean
  else if table.columnHasKind column .enumerated then some .enumNull
  else none

/-- The positions for columns, the first of which has number `start`. -/
def positionsFrom (table : Table) : Nat → List Text → Positions
  | _, [] => []
  | start, column :: rest =>
    match columnCoercion? table column with
    | some coercion => (start, coercion) :: positionsFrom table (start + 1) rest
    | none => positionsFrom table (start + 1) rest

/-- The positions for the rows of an insert statement. -/
def positions (schema : Schema) (header : InsertHeader) : Positions :=
  match schema.table? header.table with
  | none => []
  | some table => positionsFrom table 0 (header.columns.getD (table.columns.map (·.name)))

/-- What a value without blanks around it becomes. -/
def replacement? : Coercion → Text → Option Text
  | .boolean, ['0'] => some "FALSE".toList
  | .boolean, ['1'] => some "TRUE".toList
  | .enumNull, ['\'', '\''] => some "NULL".toList
  | .enumNull, ['"', '"'] => some "NULL".toList
  | _, _ => none

/-- What an item of a tuple becomes; the blanks around its value stay. -/
def coerceItem? (coercion : Coercion) (item : Text) : Option Text :=
  (replacement? coercion (Text.trim item)).map fun value =>
    item.takeWhile Text.isBlank ++ value ++ (item.reverse.takeWhile Text.isBlank).reverse

/-- Changes the item at a position, and counts the change. -/
def coerceAt (state : List Text × Nat) (position : Nat × Coercion) : List Text × Nat :=
  match state.1[position.1]?.bind (coerceItem? position.2) with
  | some item => (state.1.set position.1 item, state.2 + 1)
  | none => state

/-- Changes the items of a tuple, and counts the changes. -/
def coerceItems (positions : Positions) (items : List Text) : List Text × Nat :=
  positions.foldl coerceAt (items, 0)

/-- What the tuples of a text become. -/
structure Tuples where
  /-- The text with its values changed. -/
  text : Text
  /-- How many values changed. -/
  changed : Nat
  /-- The text from the tuple on that is not closed, if there is one. -/
  unclosed : Option Text
  deriving DecidableEq, Repr

/-- Puts text in front. -/
def Tuples.after (tuples : Tuples) (t : Text) (changed : Nat) : Tuples :=
  { tuples with text := t ++ tuples.text, changed := changed + tuples.changed }

/-- What may stand between tuples. -/
def isGap : Lexeme → Bool
  | .code c => c = ',' || Text.isAsciiBlank c
  | _ => false

/-- Reads tuples and the gaps between them; the next `skip` lexemes belong to a tuple that is read
already. -/
def coerceFrom (positions : Positions) : Nat → List Lexeme → Tuples
  | _, [] => ⟨[], 0, none⟩
  | skip + 1, _ :: rest => coerceFrom positions skip rest
  | 0, lexeme :: rest =>
    if lexeme = .code '(' then
      match Literal.groupFrom 1 rest with
      | none =>
        let t := (lexeme :: rest).flatMap Lexeme.text
        ⟨t, 0, some t⟩
      | some group =>
        let inner := group.flatMap Lexeme.text
        let (items, changed) := coerceItems positions (Literal.items .standard inner)
        (coerceFrom positions (group.length + 1) rest).after
          ('(' :: Text.join [','] items ++ [')']) changed
    else if isGap lexeme then (coerceFrom positions 0 rest).after lexeme.text 0
    else ⟨(lexeme :: rest).flatMap Lexeme.text, 0, none⟩

/-- Changes the values in the tuples that a text starts with. -/
def coerceTuples (positions : Positions) (t : Text) : Tuples :=
  coerceFrom positions 0 (Literal.lexemes .standard t)

/-- What a line becomes. -/
structure LineResult where
  /-- The line with its values changed. -/
  line : Text
  /-- The positions of the statement that goes on after the line. -/
  active : Option Positions
  /-- Whether the line begins an insert statement with positions. -/
  opens : Bool
  /-- How many values changed. -/
  changed : Nat
  /-- The text from the tuple on that is not closed. -/
  unclosed : Option Text

/-- A line that is left alone. -/
def LineResult.same (line : Text) (active : Option Positions) : LineResult :=
  { line := line, active := active, opens := false, changed := 0, unclosed := none }

/-- Changes the values of a line; `active` has the positions of the statement that it may go on. -/
def coerceLine (schema : Schema) (active : Option Positions) (line : Text) : LineResult :=
  match InsertHeader.parse? line with
  | some header =>
    match positions schema header with
    | [] => .same line none
    | targets =>
      let tuples := coerceTuples targets (line.drop header.length)
      let line := line.take header.length ++ tuples.text
      { line := line
        active := if Text.endsWith ';' (Text.trimEnd line) then none else some targets
        opens := true
        changed := tuples.changed
        unclosed := tuples.unclosed }
  | none =>
    match active with
    | none => .same line none
    | some targets =>
      let trimmed := Text.trim line
      let active := if Text.endsWith ';' trimmed then none else some targets
      if Text.startsWith '(' trimmed then
        let tuples := coerceTuples targets line
        { line := tuples.text, active := active, opens := false, changed := tuples.changed
          unclosed := tuples.unclosed }
      else .same line active

/-- What lines become. -/
structure Outcome where
  /-- The lines with their values changed. -/
  lines : List Text
  /-- How many insert statements had positions. -/
  inserts : Nat
  /-- How many values changed. -/
  values : Nat
  /-- A warning for each line with a tuple that is not closed. -/
  warnings : List Warning

/-- Changes the values of lines, the first of which has number `number`. -/
def coerceLines (schema : Schema) : Option Positions → Nat → List Text → Outcome
  | _, _, [] => ⟨[], 0, 0, []⟩
  | active, number, line :: rest =>
    let result := coerceLine schema active line
    let outcome := coerceLines schema result.active (number + 1) rest
    { lines := result.line :: outcome.lines
      inserts := outcome.inserts + (if result.opens then 1 else 0)
      values := outcome.values + result.changed
      warnings := (result.unclosed.map (Warning.ofUnbalanced number)).toList ++ outcome.warnings }

/-- Changes the values of a script's rows. -/
def coerce (schema : Schema) (lines : List Text) : Outcome :=
  if schema.isEmpty then ⟨lines, 0, 0, []⟩ else coerceLines schema none 1 lines

end DumpBridge.Rows
