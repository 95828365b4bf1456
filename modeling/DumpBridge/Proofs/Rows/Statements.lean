import DumpBridge.Proofs.Rows.Tuples
import Mathlib.Data.List.TakeWhile

/-!
# The rows of a whole script

A header opens a statement, and the statement goes on until a line ends with a
semicolon or another header comes.  `OpenAfter before header` says so of the
lines before a place, and needs no reading state.  `Becomes` says from these
lines alone what becomes of the next one, and `Effects` what becomes of all.

The one thing that `coerceLines` carries from line to line is the positions of
the open statement.  That they are right is an invariant (`ActiveAfter`), which
each line keeps (`activeAfter_coerceLine`); so the lines that come out, the
counts and the warnings are those of the effects (`coerceLines_of_effects`).
-/

namespace DumpBridge.Rows

open Line (InsertHeader)

/-! ## The end of a statement -/

/-- Whether the line ends its statement. -/
def endsStatement (line : Text) : Bool :=
  Text.endsWith ';' (Text.trim line)

/-- The last character that is not blank. -/
def lastSolid? (t : Text) : Option Char :=
  t.reverse.find? fun c => !Text.isBlank c

theorem lastSolid?_append (s t : Text) :
    lastSolid? (s ++ t) = (lastSolid? t).or (lastSolid? s) := by
  simp [lastSolid?]

theorem getLast?_trimEnd (t : Text) : (Text.trimEnd t).getLast? = lastSolid? t := by
  rw [Text.trimEnd, Text.dropEndWhile, List.getLast?_reverse, lastSolid?,
    List.find?_not_eq_head?_dropWhile]

/-- Trimming the start leaves it. -/
theorem lastSolid?_trimStart (t : Text) : lastSolid? (Text.trimStart t) = lastSolid? t := by
  have hblank : lastSolid? (t.takeWhile Text.isBlank) = none := by
    simp only [lastSolid?, List.find?_eq_none, List.mem_reverse]
    intro c hc
    simpa using List.mem_takeWhile_imp hc
  calc lastSolid? (Text.trimStart t)
      = (lastSolid? (Text.trimStart t)).or (lastSolid? (t.takeWhile Text.isBlank)) := by
        rw [hblank, Option.or_none]
    _ = lastSolid? (t.takeWhile Text.isBlank ++ t.dropWhile Text.isBlank) := by
        rw [lastSolid?_append, Text.trimStart]
    _ = lastSolid? t := by rw [List.takeWhile_append_dropWhile]

theorem endsStatement_eq (line : Text) :
    endsStatement line = decide (lastSolid? line = some ';') := by
  rw [endsStatement, Text.endsWith, Text.trim, getLast?_trimEnd, lastSolid?_trimStart]

/-- A row ends in its parenthesis, before and after it changes. -/
theorem lastSolid?_withItems (row : Row) (items : List Text) :
    lastSolid? (row.withItems items) = some ')' := by
  have hsolid : Text.isBlank ')' = false := by decide
  simp [Row.withItems, lastSolid?, hsolid]

/-- Texts that end alike one by one end alike in a row. -/
theorem lastSolid?_flatMap_congr {α : Type} {f g : α → Text}
    (h : ∀ a, lastSolid? (f a) = lastSolid? (g a)) (l : List α) :
    lastSolid? (l.flatMap f) = lastSolid? (l.flatMap g) := by
  induction l with
  | nil => rfl
  | cons a l ih =>
    rw [List.flatMap_cons, List.flatMap_cons, lastSolid?_append, lastSolid?_append, ih, h]

/-- **Rows with new values end as they did.** -/
theorem lastSolid?_flatMap_result (targets : Positions) (rows : List Row) :
    lastSolid? (rows.flatMap (Row.result targets)) = lastSolid? (rows.flatMap Row.text) := by
  refine lastSolid?_flatMap_congr (fun row => ?_) rows
  rw [Row.result, Row.text, lastSolid?_withItems, lastSolid?_withItems]

/-- Changing its values does not change whether a line ends its statement. -/
theorem lastSolid?_coerceTuples {targets : Positions} (hnodup : (targets.map Prod.fst).Nodup)
    (before t : Text) :
    lastSolid? (before ++ (coerceTuples targets t).text) = lastSolid? (before ++ t) := by
  obtain ⟨rows, rest, hreads⟩ := exists_reads t
  rw [coerceTuples_of_reads hnodup hreads, hreads.text]
  simp only [lastSolid?_append, lastSolid?_flatMap_result]

/-! ## What becomes of lines -/

/-- `OpenAfter before header`: the last header in the lines is `header`, and no
line from it on ends its statement. -/
def OpenAfter (before : List Text) (header : InsertHeader) : Prop :=
  ∃ earlier line later, before = earlier ++ line :: later ∧
    InsertHeader.parse? line = some header ∧
    (∀ l ∈ later, InsertHeader.parse? l = none) ∧
    ∀ l ∈ line :: later, endsStatement l = false

/-- `ValueText schema before line targets start`: from the character `start` on,
the line has values of a statement with the given positions. -/
inductive ValueText (schema : Schema) (before : List Text) (line : Text) :
    Positions → Nat → Prop
  /-- The values after a header. -/
  | first {header : InsertHeader} (hparse : InsertHeader.parse? line = some header) :
      ValueText schema before line (positions schema header) header.length
  /-- The values on a further line of the statement. -/
  | further {header : InsertHeader} (hparse : InsertHeader.parse? line = none)
      (hopen : OpenAfter before header) (htuple : Text.startsWith '(' (Text.trim line)) :
      ValueText schema before line (positions schema header) 0

/-- What becomes of a line. -/
structure Effect where
  line : Text
  /-- How many values changed. -/
  changed : Nat
  /-- The text from the tuple on that is not closed. -/
  unclosed : Option Text

/-- `Becomes schema before line effect`: what becomes of a line after the given
ones. -/
inductive Becomes (schema : Schema) (before : List Text) (line : Text) : Effect → Prop
  /-- In each row of its values the items change. -/
  | values {targets : Positions} {start : Nat} {rows : List Row} {rest : Text}
      (hvalues : ValueText schema before line targets start) (hne : targets ≠ [])
      (hreads : Reads (line.drop start) rows rest) :
      Becomes schema before line
        { line := line.take start ++ (rows.flatMap (Row.result targets) ++ rest)
          changed := (rows.map (Row.changed targets)).sum
          unclosed := unclosed rest }
  /-- A line without values, or without positions for them, stays. -/
  | kept (hnone : ∀ targets start, ValueText schema before line targets start → targets = []) :
      Becomes schema before line { line := line, changed := 0, unclosed := none }

/-- `Effects schema before lines effects`: what becomes of lines after the given
ones. -/
inductive Effects (schema : Schema) : List Text → List Text → List Effect → Prop
  | nil (before : List Text) : Effects schema before [] []
  | cons {before lines : List Text} {line : Text} {effect : Effect} {effects : List Effect}
      (first : Becomes schema before line effect)
      (rest : Effects schema (before ++ [line]) lines effects) :
      Effects schema before (line :: lines) (effect :: effects)

variable {schema : Schema} {before lines : List Text} {line : Text} {header : InsertHeader}
  {targets : Positions} {active : Option Positions} {start : Nat}

/-- Something becomes of every line. -/
theorem exists_becomes (schema : Schema) (before : List Text) (line : Text) :
    ∃ effect, Becomes schema before line effect := by
  by_cases h : ∃ targets start, ValueText schema before line targets start ∧ targets ≠ []
  · obtain ⟨targets, start, hvalues, hne⟩ := h
    obtain ⟨rows, rest, hreads⟩ := exists_reads (line.drop start)
    exact ⟨_, .values hvalues hne hreads⟩
  · refine ⟨_, .kept fun targets start hvalues => Decidable.byContradiction fun hne => ?_⟩
    exact h ⟨targets, start, hvalues, hne⟩

/-- Every script has its effects. -/
theorem exists_effects (schema : Schema) (before lines : List Text) :
    ∃ effects, Effects schema before lines effects := by
  induction lines generalizing before with
  | nil => exact ⟨[], .nil before⟩
  | cons line lines ih =>
    obtain ⟨effect, hfirst⟩ := exists_becomes schema before line
    obtain ⟨effects, hrest⟩ := ih (before ++ [line])
    exact ⟨effect :: effects, .cons hfirst hrest⟩

/-! ## The open statement -/

theorem not_openAfter_nil (header : InsertHeader) : ¬ OpenAfter [] header := by
  rintro ⟨earlier, line, later, h, -⟩
  simp at h

/-- After one more line, its own header is open, or what was open before. -/
theorem openAfter_snoc :
    OpenAfter (before ++ [line]) header ↔
      endsStatement line = false ∧
        (InsertHeader.parse? line = some header ∨
          InsertHeader.parse? line = none ∧ OpenAfter before header) := by
  constructor
  · rintro ⟨earlier, first, later, hlines, hparse, hlater, hends⟩
    rcases List.eq_nil_or_concat later with rfl | ⟨later, last, rfl⟩
    · obtain ⟨-, hfirst⟩ := List.append_inj' hlines rfl
      obtain rfl := List.singleton_inj.mp hfirst
      exact ⟨hends _ (by simp), Or.inl hparse⟩
    · rw [List.concat_eq_append] at *
      rw [← List.cons_append, ← List.append_assoc] at hlines
      obtain ⟨rfl, hlast⟩ := List.append_inj' hlines rfl
      obtain rfl := List.singleton_inj.mp hlast
      rw [← List.cons_append] at hends
      obtain ⟨hlater, hnone⟩ := List.forall_mem_append.mp hlater
      obtain ⟨hopen, hlast⟩ := List.forall_mem_append.mp hends
      refine ⟨by simpa using hlast, Or.inr ⟨by simpa using hnone, ?_⟩⟩
      exact ⟨earlier, first, later, rfl, hparse, hlater, hopen⟩
  · rintro ⟨hends, hparse | ⟨hnone, earlier, first, later, rfl, hparse, hlater, hopen⟩⟩
    · exact ⟨before, line, [], rfl, hparse, by simp, by simpa using hends⟩
    · refine ⟨earlier, first, later ++ [line], by simp, hparse, ?_, ?_⟩
      · exact List.forall_mem_append.mpr ⟨hlater, by simpa using hnone⟩
      · rw [← List.cons_append]
        exact List.forall_mem_append.mpr ⟨hopen, by simpa using hends⟩

/-- The positions carried are those of the open statement, if it has any. -/
def ActiveAfter (schema : Schema) (before : List Text) (active : Option Positions) : Prop :=
  ∀ targets, active = some targets ↔
    targets ≠ [] ∧ ∃ header, OpenAfter before header ∧ positions schema header = targets

theorem activeAfter_nil (schema : Schema) : ActiveAfter schema [] none := by
  intro targets
  simp [not_openAfter_nil]

/-- A header with positions changes the values after it, and opens its
statement unless it ends it. -/
theorem coerceLine_header (active : Option Positions)
    (hparse : InsertHeader.parse? line = some header) (hne : positions schema header ≠ []) :
    coerceLine schema active line =
      let tuples := coerceTuples (positions schema header) (line.drop header.length)
      { line := line.take header.length ++ tuples.text
        active := if endsStatement line then none else some (positions schema header)
        opens := true
        changed := tuples.changed
        unclosed := tuples.unclosed } := by
  have hends : Text.endsWith ';' (Text.trimEnd (line.take header.length ++
      (coerceTuples (positions schema header) (line.drop header.length)).text)) =
        endsStatement line := by
    rw [Text.endsWith, getLast?_trimEnd, lastSolid?_coerceTuples (nodup_positions schema header),
      List.take_append_drop, endsStatement_eq]
  obtain ⟨target, others, htargets⟩ := List.exists_cons_of_ne_nil hne
  rw [htargets] at hends ⊢
  simp only [coerceLine, hparse, htargets, hends]

/-- A header without positions is left alone and closes the statement before it. -/
theorem coerceLine_header_of_nil (active : Option Positions)
    (hparse : InsertHeader.parse? line = some header) (hnil : positions schema header = []) :
    coerceLine schema active line = .same line none := by
  simp [coerceLine, hparse, hnil]

/-- A further line changes if it starts with a tuple. -/
theorem coerceLine_further (hparse : InsertHeader.parse? line = none) :
    coerceLine schema (some targets) line =
      let active := if endsStatement line then none else some targets
      let tuples := coerceTuples targets line
      if Text.startsWith '(' (Text.trim line) then
        { line := tuples.text, active := active, opens := false, changed := tuples.changed
          unclosed := tuples.unclosed }
      else .same line active := by
  simp only [coerceLine, hparse]
  rfl

theorem coerceLine_outside (hparse : InsertHeader.parse? line = none) :
    coerceLine schema none line = .same line none := by
  simp [coerceLine, hparse]

/-- **One line keeps the invariant.** -/
theorem activeAfter_coerceLine (hactive : ActiveAfter schema before active) (line : Text) :
    ActiveAfter schema (before ++ [line]) (coerceLine schema active line).active := by
  intro targets
  cases hparse : InsertHeader.parse? line with
  | some header =>
    have hopen : ∀ other, OpenAfter (before ++ [line]) other ↔
        endsStatement line = false ∧ header = other := by
      intro other
      simp [openAfter_snoc, hparse]
    by_cases hne : positions schema header = []
    · rw [coerceLine_header_of_nil active hparse hne]
      simp only [LineResult.same, hopen]
      grind
    · rw [coerceLine_header active hparse hne]
      simp only [hopen]
      grind
  | none =>
    have hopen : ∀ other, OpenAfter (before ++ [line]) other ↔
        endsStatement line = false ∧ OpenAfter before other := by
      intro other
      simp [openAfter_snoc, hparse]
    cases active with
    | none =>
      have hnone := hactive targets
      rw [coerceLine_outside hparse]
      simp only [LineResult.same, hopen]
      grind
    | some carried =>
      have hsame : (coerceLine schema (some carried) line).active =
          if endsStatement line then none else some carried := by
        rw [coerceLine_further hparse]
        dsimp only
        split <;> rfl
      have hcarried := hactive targets
      rw [hsame]
      simp only [hopen]
      grind

/-- What a line's result has besides the state that is carried on. -/
def LineResult.effect (result : LineResult) : Effect :=
  { line := result.line, changed := result.changed, unclosed := result.unclosed }

/-- **One line** becomes what its values and the lines before it say. -/
theorem effect_coerceLine (hactive : ActiveAfter schema before active) {effect : Effect}
    (h : Becomes schema before line effect) :
    (coerceLine schema active line).effect = effect := by
  cases h with
  | values hvalues hne hreads =>
    cases hvalues with
    | @first header hparse =>
      rw [coerceLine_header active hparse hne,
        coerceTuples_of_reads (nodup_positions schema header) hreads]
      rfl
    | @further header hparse hopen htuple =>
      obtain rfl := (hactive _).mpr ⟨hne, header, hopen, rfl⟩
      rw [List.drop_zero] at hreads
      rw [coerceLine_further hparse, if_pos htuple,
        coerceTuples_of_reads (nodup_positions schema header) hreads]
      rfl
  | kept hnone =>
    cases hparse : InsertHeader.parse? line with
    | some header =>
      rw [coerceLine_header_of_nil active hparse (hnone _ _ (.first hparse))]
      rfl
    | none =>
      cases active with
      | none =>
        rw [coerceLine_outside hparse]
        rfl
      | some carried =>
        obtain ⟨hne, header, hopen, rfl⟩ := (hactive carried).mp rfl
        have htuple : ¬ Text.startsWith '(' (Text.trim line) := fun htuple =>
          hne (hnone _ _ (.further hparse hopen htuple))
        rw [coerceLine_further hparse, if_neg htuple]
        rfl

/-- Whether the line has the header of a statement with positions. -/
def opensRows (schema : Schema) (line : Text) : Bool :=
  (InsertHeader.parse? line).any fun header => !(positions schema header).isEmpty

/-- Whether a line opens rows does not depend on what is open before it. -/
theorem opens_coerceLine (schema : Schema) (active : Option Positions) (line : Text) :
    (coerceLine schema active line).opens = opensRows schema line := by
  cases hparse : InsertHeader.parse? line with
  | some header =>
    by_cases hne : positions schema header = []
    · rw [coerceLine_header_of_nil active hparse hne]
      simp [LineResult.same, opensRows, hparse, hne]
    · rw [coerceLine_header active hparse hne]
      simp [opensRows, hparse, hne]
  | none =>
    cases active with
    | none =>
      rw [coerceLine_outside hparse]
      simp [LineResult.same, opensRows, hparse]
    | some carried =>
      rw [coerceLine_further hparse]
      dsimp only
      split <;> simp [LineResult.same, opensRows, hparse]

/-! ## All lines -/

/-- Tells a log of the tuple that a line with the given number leaves open. -/
def Effect.report (log : WarningLog) (numbered : Effect × Nat) : WarningLog :=
  match numbered.1.unclosed with
  | some t => log.add (.ofUnbalanced numbered.2 t)
  | none => log

/-- **A run** over lines gives what becomes of each of them. -/
theorem coerceLines_of_effects (hactive : ActiveAfter schema before active)
    {effects : List Effect} (h : Effects schema before lines effects) (number : Nat)
    (log : WarningLog) :
    (coerceLines schema active number lines).lines = effects.map Effect.line ∧
      (coerceLines schema active number lines).inserts = lines.countP (opensRows schema) ∧
      (coerceLines schema active number lines).values = (effects.map Effect.changed).sum ∧
      log.addAll (coerceLines schema active number lines).warnings =
        (effects.zipIdx number).foldl Effect.report log := by
  induction h generalizing active number log with
  | nil before => exact ⟨rfl, rfl, rfl, rfl⟩
  | @cons before lines line effect effects first rest ih =>
    obtain rfl := effect_coerceLine hactive first
    have hopens := opens_coerceLine schema active line
    obtain ⟨hlines, hinserts, hvalues, hwarnings⟩ :=
      ih (activeAfter_coerceLine hactive line) (number + 1)
        (Effect.report log ((coerceLine schema active line).effect, number))
    refine ⟨?_, ?_, ?_, ?_⟩
    · simp [coerceLines, LineResult.effect, hlines]
    · simp [coerceLines, hopens, hinserts, List.countP_cons]
    · simp [coerceLines, LineResult.effect, hvalues, Nat.add_comm]
    · rw [List.zipIdx_cons, List.foldl_cons, ← hwarnings, coerceLines, Effect.report,
        LineResult.effect]
      cases (coerceLine schema active line).unclosed <;> rfl

/-- Only one thing becomes of each line. -/
theorem Effects.unique (hactive : ActiveAfter schema before active) {effects others : List Effect}
    (h : Effects schema before lines effects) (hother : Effects schema before lines others) :
    others = effects := by
  induction h generalizing active others with
  | nil before =>
    cases hother
    rfl
  | cons first rest ih =>
    cases hother with
    | cons first' rest' =>
      rw [← effect_coerceLine hactive first, ← effect_coerceLine hactive first',
        ih (activeAfter_coerceLine hactive _) rest']

/-- Without tables no header has positions, so no line changes. -/
theorem coerceLines_of_isEmpty (hschema : schema.isEmpty) (number : Nat)
    (lines : List Text) : coerceLines schema none number lines = ⟨lines, 0, 0, []⟩ := by
  have hpositions : ∀ header, positions schema header = [] := by
    intro header
    have htables : schema.tables = [] := List.isEmpty_iff.mp hschema
    simp [positions, Schema.table?, htables]
  have hline : ∀ line, coerceLine schema none line = .same line none := by
    intro line
    cases hparse : InsertHeader.parse? line with
    | none => exact coerceLine_outside hparse
    | some header => exact coerceLine_header_of_nil none hparse (hpositions header)
  induction lines generalizing number with
  | nil => rfl
  | cons line lines ih => simp [coerceLines, hline, LineResult.same, ih]

/-- Coercing goes line by line, from the first line on with nothing open. -/
theorem coerce_eq_coerceLines (schema : Schema) (lines : List Text) :
    coerce schema lines = coerceLines schema none 1 lines := by
  unfold coerce
  split
  · next hschema => exact (coerceLines_of_isEmpty hschema 1 lines).symm
  · rfl

/-- **The rows of a script.**  One thing becomes of each line, and the lines, the
counts and the warnings that come out are those of what becomes of them. -/
theorem coerce_eq_effects (schema : Schema) (lines : List Text) (log : WarningLog) :
    ∃ effects, (∀ others, Effects schema [] lines others ↔ others = effects) ∧
      (coerce schema lines).lines = effects.map Effect.line ∧
      (coerce schema lines).inserts = lines.countP (opensRows schema) ∧
      (coerce schema lines).values = (effects.map Effect.changed).sum ∧
      log.addAll (coerce schema lines).warnings = (effects.zipIdx 1).foldl Effect.report log := by
  obtain ⟨effects, heffects⟩ := exists_effects schema [] lines
  refine ⟨effects, fun others => ⟨heffects.unique (activeAfter_nil schema), ?_⟩, ?_⟩
  · rintro rfl
    exact heffects
  · rw [coerce_eq_coerceLines]
    exact coerceLines_of_effects (activeAfter_nil schema) heffects 1 log

end DumpBridge.Rows
