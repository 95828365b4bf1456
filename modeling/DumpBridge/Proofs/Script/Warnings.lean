import DumpBridge.Proofs.Rows.Constructs
import DumpBridge.Proofs.Script.Stages
import DumpBridge.Proofs.WarningLog

/-!
# The warnings of a conversion

A warning is about a construct that is left on a repaired line or about a tuple that a
line leaves open.  `lineWarning?` and `Effect.warning?` say which warning a line brings.
Every stage makes one line of each line, so that the number of a warning is that of the
line of the dump (`exists_of_mem_warnings`).
-/

namespace DumpBridge

/-! ## What lines leave open -/

namespace Rows

variable {schema : Schema} {before lines : List Text} {line : Text}

/-- Each line of a script is told of by what becomes of it after the lines before. -/
theorem Effects.exists_becomes {effects : List Effect} (h : Effects schema before lines effects)
    {n : Nat} (hline : lines[n]? = some line) :
    ∃ effect, effects[n]? = some effect ∧ Becomes schema (before ++ lines.take n) line effect := by
  induction h generalizing n with
  | nil => simp at hline
  | @cons before lines first effect effects hfirst _ ih =>
    cases n with
    | zero =>
      obtain rfl : first = line := by simpa using hline
      exact ⟨effect, rfl, by simpa using hfirst⟩
    | succ n =>
      obtain ⟨effect', heffect, hbecomes⟩ := ih (by simpa using hline)
      exact ⟨effect', heffect, by simpa using hbecomes⟩

/-- The warning about what a line leaves open, with its number. -/
def Effect.warning? (numbered : Effect × Nat) : Option Warning :=
  numbered.1.unclosed.map (.ofUnbalanced numbered.2)

/-- The warnings of a run are those of what becomes of its lines. -/
theorem warnings_coerceLines {active : Option Positions}
    (hactive : ActiveAfter schema before active)
    {effects : List Effect} (h : Effects schema before lines effects) (number : Nat) :
    (coerceLines schema active number lines).warnings =
      (effects.zipIdx number).filterMap Effect.warning? := by
  induction h generalizing active number with
  | nil before => rfl
  | @cons before lines line effect effects first rest ih =>
    obtain rfl := effect_coerceLine hactive first
    rw [coerceLines, List.zipIdx_cons, List.filterMap_cons]
    simp only [ih (activeAfter_coerceLine hactive line), Effect.warning?, LineResult.effect]
    cases (coerceLine schema active line).unclosed <;> rfl

end Rows

/-! ## All warnings of a conversion -/

/-- The number of the line that a warning is about. -/
def Warning.line : Warning → Nat
  | unbalanced line _ => line
  | unconverted line _ _ => line

/-- `RepairOf line new`: the repair may make `new` of the line. -/
def Separators.RepairOf (line new : Text) : Prop :=
  ∃ fix : CommaFix, new = fix.apply line ∨ new = Line.commentOut (fix.apply line)

/-- Each line of a repair is the repair of the line in its place. -/
theorem Separators.forall₂_repairOf (lines : List Text) :
    List.Forall₂ RepairOf lines (repair lines).lines := by
  rw [lines_repair]
  induction lines with
  | nil => exact .nil
  | cons line lines ih =>
    refine .cons ⟨commaFix line lines, ?_⟩ ih
    dsimp only
    split
    · exact Or.inr rfl
    · exact Or.inl rfl

namespace Conversion

/-- The lines with their separators repaired. -/
def repairedLines (options : Options) (dump : Text) : List Text :=
  (Separators.repair (namedLines options dump)).lines

/-- The tables that the repaired lines define. -/
def schemaOf (options : Options) (dump : Text) : Schema :=
  .ofLines (catalogOf options dump) (repairedLines options dump)

/-- The warning about a construct that is left on a line, with its number. -/
def lineWarning? (numbered : Text × Nat) : Option Warning :=
  (Line.marker? numbered.1).map fun marker => .ofUnconverted numbered.2 marker numbered.1

/-- The warnings about constructs are those of the lines, with their numbers. -/
theorem markerWarnings_eq (number : Nat) (lines : List Text) :
    markerWarnings number lines = (lines.zipIdx number).filterMap lineWarning? := by
  induction lines generalizing number with
  | nil => rfl
  | cons line lines ih =>
    rw [markerWarnings, ih, List.zipIdx_cons, List.filterMap_cons]
    simp only [lineWarning?]
    cases Line.marker? line <;> rfl

/-- A log has an entry for each warning: one for each line with a construct and one for each line
that leaves a tuple open. -/
theorem length_warnings (lines : List Text) (effects : List Rows.Effect) (k : Nat) :
    ((lines.zipIdx k).filterMap lineWarning? ++
        (effects.zipIdx k).filterMap Rows.Effect.warning?).length =
      lines.countP (fun line => (Line.marker? line).isSome) +
        effects.countP (fun effect => effect.unclosed.isSome) := by
  have hlines : (fun numbered => (lineWarning? numbered).isSome) =
      (fun line => (Line.marker? line).isSome) ∘ Prod.fst := by
    funext numbered
    simp [lineWarning?]
  have heffects : (fun numbered => (Rows.Effect.warning? numbered).isSome) =
      (fun effect : Rows.Effect => effect.unclosed.isSome) ∘ Prod.fst := by
    funext numbered
    simp [Rows.Effect.warning?]
  rw [List.length_append, List.length_filterMap_eq_countP, List.length_filterMap_eq_countP, hlines,
    heffects, ← List.countP_map, ← List.countP_map, List.zipIdx_map_fst, List.zipIdx_map_fst]

theorem length_repairedLines (options : Options) (dump : Text) :
    (repairedLines options dump).length = dump.lines.length := by
  rw [repairedLines, Separators.length_repair, namedLines, List.length_map, List.length_map]

variable {options : Options} {dump : Text} {effects : List Rows.Effect} {n : Nat}

/-- What stands at one place on the way from the dump to its changed values. -/
theorem exists_origin
    (heffects : Rows.Effects (schemaOf options dump) [] (repairedLines options dump) effects)
    (hn : n < dump.lines.length) :
    ∃ raw line effect, dump.lines[n]? = some raw ∧ (repairedLines options dump)[n]? = some line ∧
      effects[n]? = some effect ∧
      Separators.RepairOf ((catalogOf options dump).substitute (Line.convert options raw)) line ∧
      Rows.Becomes (schemaOf options dump) ((repairedLines options dump).take n) line effect := by
  have hraw : dump.lines[n]? = some dump.lines[n] := List.getElem?_eq_getElem hn
  have hnamed : (namedLines options dump)[n]? =
      some ((catalogOf options dump).substitute (Line.convert options dump.lines[n])) := by
    rw [namedLines, List.getElem?_map, List.getElem?_map, hraw]
    rfl
  obtain ⟨line, hline, hrepair⟩ :=
    exists_getElem?_of_forall₂ (Separators.forall₂_repairOf _) hnamed
  obtain ⟨effect, heffect, hbecomes⟩ := heffects.exists_becomes hline
  exact ⟨_, line, effect, hraw, hline, heffect, hrepair, hbecomes⟩

theorem exists_of_mem_zipIdx_one {α : Type} {l : List α} {a : α} {k : Nat}
    (h : (a, k) ∈ l.zipIdx 1) : ∃ n, k = n + 1 ∧ n < l.length ∧ l[n]? = some a := by
  obtain ⟨hk, ha⟩ := List.mk_mem_zipIdx_iff_le_and_getElem?_sub.mp h
  exact ⟨k - 1, by omega, (List.getElem?_eq_some_iff.mp ha).1, ha⟩

/-- A warning bears the number of the line that it is about. -/
theorem exists_of_mem_warnings
    (heffects : Rows.Effects (schemaOf options dump) [] (repairedLines options dump) effects)
    {warning : Warning}
    (h : warning ∈ ((repairedLines options dump).zipIdx 1).filterMap lineWarning? ++
      (effects.zipIdx 1).filterMap Rows.Effect.warning?) :
    ∃ n raw line effect, warning.line = n + 1 ∧ n < dump.lines.length ∧ dump.lines[n]? = some raw ∧
      (repairedLines options dump)[n]? = some line ∧ effects[n]? = some effect ∧
      Separators.RepairOf ((catalogOf options dump).substitute (Line.convert options raw)) line ∧
      Rows.Becomes (schemaOf options dump) ((repairedLines options dump).take n) line effect ∧
      (lineWarning? (line, n + 1) = some warning ∨
        Rows.Effect.warning? (effect, n + 1) = some warning) := by
  have hlength : effects.length = dump.lines.length := by
    rw [← heffects.forall₂.length_eq, length_repairedLines]
  rcases List.mem_append.mp h with h | h <;>
    obtain ⟨⟨x, k⟩, hmem, hwarning⟩ := List.mem_filterMap.mp h
  · obtain ⟨n, rfl, hn, hx⟩ := exists_of_mem_zipIdx_one hmem
    rw [length_repairedLines] at hn
    obtain ⟨raw, line, effect, hraw, hline, heffect, hrepair, hbecomes⟩ := exists_origin heffects hn
    obtain rfl : line = x := Option.some.inj (hline.symm.trans hx)
    obtain ⟨marker, -, rfl⟩ := Option.map_eq_some_iff.mp hwarning
    exact ⟨n, raw, line, effect, rfl, hn, hraw, hline, heffect, hrepair, hbecomes, Or.inl hwarning⟩
  · obtain ⟨n, rfl, hn, hx⟩ := exists_of_mem_zipIdx_one hmem
    rw [hlength] at hn
    obtain ⟨raw, line, effect, hraw, hline, heffect, hrepair, hbecomes⟩ := exists_origin heffects hn
    obtain rfl : effect = x := Option.some.inj (heffect.symm.trans hx)
    obtain ⟨tuple, -, rfl⟩ := Option.map_eq_some_iff.mp hwarning
    exact ⟨n, raw, line, effect, rfl, hn, hraw, hline, heffect, hrepair, hbecomes, Or.inr hwarning⟩

/-- If no construct is left on the repaired lines, none is on the lines with changed values. -/
theorem marker?_coercedLines (h : ∀ line ∈ repairedLines options dump, Line.marker? line = none) :
    ∀ line ∈ coercedLines options dump, Line.marker? line = none := by
  intro line hline
  obtain ⟨n, hn⟩ := List.mem_iff_getElem?.mp hline
  obtain ⟨old, hold, before, effect, hbecomes, rfl⟩ :=
    exists_getElem?_of_forall₂ (Rows.forall₂_coerce (schemaOf options dump)
      (repairedLines options dump)).flip hn
  exact Rows.marker?_becomes hbecomes (h old (List.mem_of_getElem? hold))

/-- **Warnings are accounted for.** There are as many as repaired lines with a construct that
is left and value texts that end at a tuple which is not closed; the log keeps the first
hundred, each once; each one bears the number of the line of the dump that it comes from; and
without warnings no construct is left on any line whose values changed. -/
theorem warnings_run (options : Options) (dump : Text) :
    let repaired := repairedLines options dump
    let schema := schemaOf options dump
    let log := (run options dump).warnings
    ∃ effects, (∀ others, Rows.Effects schema [] repaired others ↔ others = effects) ∧
      log.total = repaired.countP (fun line => (Line.marker? line).isSome) +
        effects.countP (fun effect => effect.unclosed.isSome) ∧
      log.stored = ((repaired.zipIdx 1).filterMap lineWarning? ++
        (effects.zipIdx 1).filterMap Rows.Effect.warning?).eraseDups.take 100 ∧
      (∀ warning ∈ log.stored, 1 ≤ warning.line ∧
        warning.line ≤ (run options dump).stats.linesRead ∧
        ∃ n raw line effect, warning.line = n + 1 ∧ dump.lines[n]? = some raw ∧
          repaired[n]? = some line ∧ effects[n]? = some effect ∧
          Separators.RepairOf ((catalogOf options dump).substitute (Line.convert options raw))
            line ∧
          Rows.Becomes schema (repaired.take n) line effect ∧
          (lineWarning? (line, n + 1) = some warning ∨
            Rows.Effect.warning? (effect, n + 1) = some warning)) ∧
      (log.total = 0 → ∀ line ∈ coercedLines options dump, Line.marker? line = none) := by
  intro repaired schema log
  obtain ⟨effects, heffects⟩ := Rows.exists_effects schema [] repaired
  have hactive := Rows.activeAfter_nil schema
  have hwarnings : log = ({} : WarningLog).addAll ((repaired.zipIdx 1).filterMap lineWarning? ++
      (effects.zipIdx 1).filterMap Rows.Effect.warning?) := by
    change ({} : WarningLog).addAll (markerWarnings 1 repaired ++
      (Rows.coerce schema repaired).warnings) = _
    rw [markerWarnings_eq, Rows.coerce_eq_coerceLines, Rows.warnings_coerceLines hactive heffects 1]
  have htotal : log.total = repaired.countP (fun line => (Line.marker? line).isSome) +
      effects.countP (fun effect => effect.unclosed.isSome) := by
    rw [hwarnings, WarningLog.total_addAll, length_warnings]
    exact Nat.zero_add _
  have hstored := (congrArg WarningLog.stored hwarnings).trans (WarningLog.stored_addAll _)
  refine ⟨effects, fun others => ⟨heffects.unique hactive, ?_⟩, htotal, hstored, ?_, ?_⟩
  · rintro rfl
    exact heffects
  · intro warning hwarning
    rw [hstored] at hwarning
    obtain ⟨n, raw, line, effect, hnumber, hn, horigin⟩ := exists_of_mem_warnings heffects
      (List.mem_eraseDups.mp (List.mem_of_mem_take hwarning))
    have hread : (run options dump).stats.linesRead = dump.lines.length := rfl
    exact ⟨by omega, by omega, n, raw, line, effect, hnumber, horigin⟩
  · intro hzero
    have hnone : repaired.countP (fun line => (Line.marker? line).isSome) = 0 := by omega
    refine marker?_coercedLines fun line hline => ?_
    simpa using List.countP_eq_zero.mp hnone line hline

end Conversion
end DumpBridge
