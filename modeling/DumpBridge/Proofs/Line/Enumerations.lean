import DumpBridge.Proofs.Line.Additions
import DumpBridge.Proofs.Line.EnumRules
import DumpBridge.Proofs.Line.Survival
import Mathlib.Data.List.Infix

/-!
# Enumerations through the rules

The types of a dump are read from its raw lines, and the enumerations are looked up
again on the converted lines.  Both agree if the rules in between spare the
enumerations: `Rule.spares` says when one of them does, and `Rule.sparesRun` goes over
a run.  Nor must they open others, and they cannot if all parentheses of the line are
those of its enumerations, since no rule adds one.  On such a line the same values are
found before and after in all cases but one, and the names take the place of all
enumerations in all cases but one (`enumerations_convert_iff`): a double quote mark that
is escaped keeps its backslash, and a line that begins like a row once the backticks are
gone is passed over.
-/

namespace DumpBridge

open Literal
open Enumeration
open ZeroDates (ZeroDate)

variable {es : List (Enumeration .standard)} {line : Text}

/-! ## What a rule spares -/

namespace Rule

open Line

/-- The rules that run once the escapes are those of the script. -/
def scriptRules : List Rule := [
  .nullZeroDates, .commentConditionalBlocks, .renameTimeZone, .commentSessionStatements,
  .stripTableOptions, .stripColumnComments, .stripCollation, .stripCharset, .mapTypes,
  .booleanDefaults, .stripOnUpdate, .currentTimestampCalls, .stripAutoIncrement,
  .stripIndexMethods, .plainKeys]

/-- Whether a rule spares the enumerations of a line: it finds nothing of its own in their
literals, and what it finds elsewhere does not reach into them. -/
def spares (es : List (Enumeration .standard)) (line : Text) : Rule → Bool
  | nullZeroDates =>
    es.all fun e => [ZeroDate.date, .dateTime].all fun z => !decide (z.literal <:+: e.text)
  | commentConditionalBlocks => everyMatch conditionalBlock isBareBlock none none line
  | renameTimeZone => es.all fun e => !timeZone.occurs e.text
  | stripTableOptions => es.isEmpty || !tableEnd.starts line
  | stripColumnComments => everyMatch columnComment isOutside none none line
  | stripCollation => !(collationWord ++ EnumType.opener).occurs line
  | stripCharset => !(charsetWord ++ EnumType.opener).occurs line
  | mapTypes => typesApart line
  | booleanDefaults => es.all fun e => !booleanDefault.occurs e.text
  | plainKeys => keyNameApart line && keyColumnsApart (dropUniqueKeyName line)
  | _ => true

/-- The options of a table go with what is behind its end, and so an enumeration must not be
there. -/
theorem placed_stripTableOptions (h : Placed ScriptGap es line)
    (hspares : spares es line .stripTableOptions) :
    Placed ScriptGap es (Line.stripTableOptions line) := by
  rw [spares, Bool.or_eq_true, List.isEmpty_iff, Bool.not_eq_true'] at hspares
  rcases hspares with rfl | hnone
  · exact .rest _
  · have hmatch : tableEnd.matchStart line = none := by simpa [Text.Pattern.starts] using hnone
    rwa [Line.stripTableOptions, hmatch]

/-- A rule that makes some lines comments keeps the others. -/
theorem ite_commentOut_eq (comment : Text → Bool)
    (hlive : isComment (if comment line then commentOut line else line) = false) :
    (if comment line then commentOut line else line) = line := by
  split at hlive
  · simp [isComment_commentOut] at hlive
  · next hnone => exact if_neg hnone

/-- **A rule that spares the enumerations** of a line and does not make it a comment keeps
them in their places. -/
theorem placed_apply {rule : Rule} (hrule : rule ∈ scriptRules) (h : Placed ScriptGap es line)
    (hspares : rule.spares es line) (hlive : isComment (rule.apply line) = false) :
    Placed ScriptGap es (rule.apply line) := by
  have hnone : ∀ p : Text.Pattern, (es.all fun e => !p.occurs e.text) →
      ∀ e ∈ es, p.occurs e.text = false := by
    intro p hall e he
    simpa using List.all_eq_true.mp hall e he
  cases rule with
  | nullZeroDates =>
    refine placed_nullZeroDates h fun e he z => ?_
    have hdates := List.all_eq_true.mp (List.all_eq_true.mp hspares e he) z (by cases z <;> simp)
    simpa using hdates
  | commentConditionalBlocks => exact placed_commentConditionalBlocks h hspares
  | renameTimeZone => exact placed_renameTimeZone h (hnone _ hspares)
  | commentSessionStatements =>
    have hkept : apply .commentSessionStatements line = line :=
      ite_commentOut_eq sessionStatement.starts hlive
    rwa [hkept]
  | stripTableOptions => exact placed_stripTableOptions h hspares
  | stripColumnComments => exact placed_stripColumnComments h hspares
  | stripCollation => exact placed_stripCollation h (by simpa [spares] using hspares)
  | stripCharset => exact placed_stripCharset h (by simpa [spares] using hspares)
  | mapTypes => exact placed_mapTypes h hspares
  | booleanDefaults => exact placed_booleanDefaults h (hnone _ hspares)
  | stripOnUpdate => exact placed_stripOnUpdate h
  | currentTimestampCalls => exact placed_currentTimestampCalls h
  | stripAutoIncrement => exact placed_stripAutoIncrement h
  | stripIndexMethods => exact placed_stripIndexMethods h
  | plainKeys =>
    have hkeys : (keyNameApart line && keyColumnsApart (dropUniqueKeyName line)) := hspares
    rw [Bool.and_eq_true] at hkeys
    exact placed_plainKeys h hkeys.1 hkeys.2
  | _ => exact absurd hrule (by decide)

/-! ## Runs of rules -/

/-- Whether each rule of a run spares the enumerations of the line that it comes to. -/
def sparesRun (es : List (Enumeration .standard)) : List Rule → Text → Bool
  | [], _ => true
  | rule :: rules, line => rule.spares es line && sparesRun es rules (step false line rule)

theorem live_of_foldl {data : Bool} {rules : List Rule}
    (h : isComment (rules.foldl (step data) line) = false) : isComment line = false := by
  rw [← Bool.not_eq_true]
  intro hcomment
  simp [isComment_foldl_step data rules hcomment] at h

/-- **A run that spares the enumerations** keeps them in their places, unless it makes the
line a comment. -/
theorem placed_foldl_step {rules : List Rule} (hrules : ∀ rule ∈ rules, rule ∈ scriptRules)
    (h : Placed ScriptGap es line) (hspares : sparesRun es rules line)
    (hlive : isComment (rules.foldl (step false) line) = false) :
    Placed ScriptGap es (rules.foldl (step false) line) := by
  induction rules generalizing line with
  | nil => exact h
  | cons rule rules ih =>
    obtain ⟨hrule, hrules⟩ := List.forall_mem_cons.mp hrules
    have hline : isComment line = false := live_of_foldl hlive
    rw [sparesRun, Bool.and_eq_true] at hspares
    rw [List.foldl_cons, step_of_live hline] at hlive ⊢
    rw [step_of_live hline] at hspares
    exact ih hrules (placed_apply hrule h hspares.1 (live_of_foldl hlive)) hspares.2 hlive

theorem step_of_all {data : Bool} {rule : Rule} (h : rule.scope = .all) :
    step data line rule = rule.apply line := by
  simp [step, h]

/-- A rule that makes some lines comments does nothing in a run that ends with another. -/
theorem step_of_comment {rule : Rule} {rules : List Rule} (comment : Text → Bool)
    (hrule : rule.apply line = if comment line then commentOut line else line)
    (hlive : isComment ((rule :: rules).foldl (step false) line) = false) :
    step false line rule = line := by
  have hline : isComment line = false := live_of_foldl hlive
  rw [List.foldl_cons, step_of_live hline, hrule] at hlive
  rw [step_of_live hline, hrule]
  exact ite_commentOut_eq comment (live_of_foldl hlive)

end Rule

namespace Line

variable {raw : Text} {options : Options}

/-- A line that stays live and is no row is read in the script's quoting by all rules but
two. -/
theorem convert_eq_run (hdata : isData raw = false)
    (hlive : isComment (convert options raw) = false) :
    convert options raw =
      Rule.scriptRules.foldl (Rule.step false) (normalizeEscapes (stripNameQuotes raw)) := by
  have hall : Rule.all = .commentSecondaryKeys :: Rule.all.tail := rfl
  have htail : Rule.all.tail =
      .commentIdentityModifications :: .stripNameQuotes :: .normalizeEscapes ::
        Rule.scriptRules := rfl
  have hrun : isComment (Rule.all.tail.foldl (Rule.step false) raw) = false →
      Rule.all.tail.foldl (Rule.step false) raw =
        Rule.scriptRules.foldl (Rule.step false) (normalizeEscapes (stripNameQuotes raw)) := by
    intro hlive
    have hstep : Rule.step false raw .commentIdentityModifications = raw := by
      rw [htail] at hlive
      exact Rule.step_of_comment identityModification.starts rfl hlive
    have hnames : Rule.step false raw .stripNameQuotes = stripNameQuotes raw := Rule.step_of_all rfl
    have hescapes : Rule.step false (stripNameQuotes raw) .normalizeEscapes =
        normalizeEscapes (stripNameQuotes raw) := Rule.step_of_all rfl
    rw [htail, List.foldl_cons, hstep, List.foldl_cons, hnames, List.foldl_cons, hescapes]
  rw [convert, hdata, QuotedColumn.enabled_eq] at hlive ⊢
  split at hlive
  · next hoption =>
    rw [if_pos hoption]
    have hstep : Rule.step false raw .commentSecondaryKeys = raw := by
      rw [hall] at hlive
      exact Rule.step_of_comment (fun line => secondaryKey.starts line ||
        (addSecondaryKey.occurs line && !addPrimaryOrUnique.occurs line)) rfl hlive
    rw [hall, List.foldl_cons, hstep] at hlive ⊢
    exact hrun hlive
  · next hoption =>
    rw [if_neg hoption]
    exact hrun hlive

/-! ## The dump and the script -/

/-- `EnumLine es raw`: the line of the dump is live and no row, and its enumerations are `es`:
they stand outside literals, and no other opens, in a literal or outside. -/
structure EnumLine (es : List (Enumeration .mysql)) (raw : Text) : Prop where
  placed : Placed DumpGap es raw
  only : EnumType.openings raw = es.length
  plain : '\x00' ∉ raw
  live : isComment raw = false
  schema : isData raw = false

/-- `Spared options es raw`: the rules spare the enumerations of a line, and they open no
other.  For the latter it is enough that no other parenthesis opens on the line; where one
does, the converted line must tell. -/
structure Spared (options : Options) (es : List (Enumeration .mysql)) (raw : Text) : Prop where
  run : Rule.sparesRun (es.map Enumeration.script) Rule.scriptRules
    (normalizeEscapes (stripNameQuotes raw))
  only : raw.count '(' = es.length ∨ EnumType.openings (convert options raw) = es.length

/-- **Enumerations that the rules spare** stand in the converted line, with their escapes
restated. -/
theorem placed_convert {es : List (Enumeration .mysql)} (h : EnumLine es raw)
    (hspared : Spared options es raw) (hlive : isComment (convert options raw) = false) :
    Placed ScriptGap (es.map Enumeration.script) (convert options raw) := by
  have hrun := convert_eq_run h.schema hlive
  rw [hrun] at hlive ⊢
  exact Rule.placed_foldl_step (fun rule (hrule : rule ∈ Rule.scriptRules) => hrule)
    (h.placed.script h.plain) hspared.run hlive

section Found

variable {es : List (Enumeration .mysql)} (h : EnumLine es raw) (hspared : Spared options es raw)
  (hlive : isComment (convert options raw) = false)
include h hspared hlive

/-- **No other enumeration** opens in the converted line. -/
theorem openings_convert : EnumType.openings (convert options raw) = es.length := by
  rcases hspared.only with honly | hconverted
  · have hplaced : (es.map Enumeration.script).length ≤ EnumType.openings (convert options raw) :=
      (placed_convert h hspared hlive).length_le (fun _ hx => hx.blank) rfl
    rw [List.length_map] at hplaced
    have hparens : EnumType.openings (convert options raw) ≤ raw.count '(' :=
      (EnumType.openingsFrom_le_count none _).trans (addsNo_convert (by decide) options raw)
    exact Nat.le_antisymm (hparens.trans_eq honly) hplaced
  · exact hconverted

/-- The values of a line stay the same just if no double quote mark is escaped in them. -/
theorem valueLists_convert_iff :
    EnumType.valueLists .standard (convert options raw) = EnumType.valueLists .mysql raw ↔
      ∀ e ∈ es, e.escapesDouble = false := by
  have hraw : EnumType.valueLists .mysql raw = es.map values :=
    h.placed.valueLists (fun _ hx => hx.blank) h.only
  have hconverted : EnumType.valueLists .standard (convert options raw) =
      (es.map Enumeration.script).map values :=
    (placed_convert h hspared hlive).valueLists (fun _ hx => hx.blank)
      (by simpa using openings_convert h hspared hlive)
  rw [hraw, hconverted, List.map_map, List.map_inj_left]
  exact forall₂_congr fun e _ => e.values_script_iff

/-- Where the values are the same, the catalog of a dump with the line names all its
enumerations just if the line is not taken for a row. -/
theorem substitute_convert_iff
    (hvalues : EnumType.valueLists .standard (convert options raw) =
      EnumType.valueLists .mysql raw) :
    (∀ dump, raw ∈ dump → ∀ start,
        (EnumCatalog.ofLines start dump).substitute (convert options raw) =
        EnumType.named start (convert options raw)) ↔
      es = [] ∨ isData (convert options raw) = false := by
  cases hdata : isData (convert options raw) with
  | false =>
    refine iff_of_true (fun dump hraw start => ?_) (Or.inr rfl)
    refine EnumCatalog.substitute_eq_named hraw (fun values hmem => ?_) hlive hdata start
    rw [hvalues] at hmem
    simpa [EnumCatalog.declared, h.live, h.schema] using hmem
  | true =>
    -- The line is kept as it is, so it has to be the line with all names.
    have hkept : ∀ dump start, (EnumCatalog.ofLines start dump).substitute (convert options raw) =
        convert options raw := fun _ _ => EnumCatalog.substitute_of_isData hdata
    simp only [hkept, Bool.true_eq_false, or_false]
    constructor
    · intro hnamed
      apply Decidable.byContradiction
      intro hne
      refine (placed_convert h hspared hlive).named_ne (fun _ hx => hx.blank) (by simpa using hne)
        (by simpa using openings_convert h hspared hlive) ?_
      exact (hnamed [raw] (by simp) ['x']).symm
    · rintro rfl dump - start
      exact (EnumType.named_of_openings (openings_convert h hspared hlive)).symm

end Found

/-- **Enumerations in the dump and in the script.**  On a line whose enumerations the rules
spare, the same values are found before and after, and the catalog of every dump with the line
puts a name for each of them, just if no double quote mark is escaped in them and the
converted line is not taken for a row. -/
theorem enumerations_convert_iff {es : List (Enumeration .mysql)} (h : EnumLine es raw)
    (hspared : Spared options es raw) (hlive : isComment (convert options raw) = false) :
    (EnumType.valueLists .standard (convert options raw) = EnumType.valueLists .mysql raw ∧
        ∀ dump, raw ∈ dump → ∀ start,
          (EnumCatalog.ofLines start dump).substitute (convert options raw) =
          EnumType.named start (convert options raw)) ↔
      (∀ e ∈ es, e.escapesDouble = false) ∧ (es = [] ∨ isData (convert options raw) = false) := by
  rw [← valueLists_convert_iff h hspared hlive]
  exact and_congr_right fun hvalues => substitute_convert_iff h hspared hlive hvalues

/-- Two values between tabs, with a doubled mark and with a doubled backslash. -/
def moodValues : Enumeration .mysql where
  word := "ENUM".toList
  gap := "\t".toList
  first :=
    { lead := "\t".toList
      literal := "'it''s'".toList
      trail := "\t".toList
      lead_blank := by decide
      isLiteral :=
        ⟨[.inside 'i', .inside 't', .pair '\'' (some '\''), .inside 's'], by decide, by decide⟩
      trail_blank := by decide }
  others :=
    [{ lead := "\t".toList
       literal := "'a\\\\b'".toList
       trail := "\t".toList
       lead_blank := by decide
       isLiteral := ⟨[.inside 'a', .pair '\\' (some '\\'), .inside 'b'], by decide, by decide⟩
       trail_blank := by decide }]
  spelled := by decide
  gap_blank := by decide

/-- A column of these values, with clauses that the rules drop. -/
def moodLine : Text :=
  "  \x60mood\x60 ".toList ++
    (moodValues.text ++ " CHARSET utf8 COMMENT 'two',".toList)

/-- Two values with a doubled mark and a backslash, among clauses that are dropped. -/
theorem enumerations_convert_moodLine :
    EnumLine [moodValues] moodLine ∧ Spared {} [moodValues] moodLine ∧
      isComment (convert {} moodLine) = false ∧
      EnumType.valueLists .standard (convert {} moodLine) = EnumType.valueLists .mysql moodLine ∧
      ∀ dump, moodLine ∈ dump → ∀ start,
        (EnumCatalog.ofLines start dump).substitute (convert {} moodLine) =
        EnumType.named start (convert {} moodLine) := by
  obtain ⟨hconverted, hrun⟩ :
      convert {} moodLine = "  mood ENUM\t(\t'it''s'\t,\t'a\\b'\t),".toList ∧
        Rule.sparesRun ([moodValues].map Enumeration.script) Rule.scriptRules
          (normalizeEscapes (stripNameQuotes moodLine)) := by
    decide +kernel
  have hline : EnumLine [moodValues] moodLine :=
    { placed := .cons ⟨.code (by decide) (by decide), by decide⟩ moodValues (.rest _)
      only := by decide +kernel
      plain := by decide +kernel
      live := by decide +kernel
      schema := by decide +kernel }
  have hspared : Spared {} [moodValues] moodLine := ⟨hrun, Or.inl (by decide +kernel)⟩
  have hlive : isComment (convert {} moodLine) = false := by
    rw [hconverted]
    decide +kernel
  have hdata : isData (convert {} moodLine) = false := by
    rw [hconverted]
    decide +kernel
  exact ⟨hline, hspared, hlive,
    (enumerations_convert_iff hline hspared hlive).mpr ⟨by decide +kernel, Or.inr hdata⟩⟩

/-- A column whose name begins like the word of a replacement. -/
def replacedLine : Text := "  \x60replaced\x60 enum('y','n'),".toList

/-- Its values are found before and after, but it keeps them where a name should be. -/
theorem substitute_convert_replaced :
    (isComment replacedLine = false ∧ isData replacedLine = false ∧
      isComment (convert {} replacedLine) = false) ∧
      EnumType.valueLists .mysql replacedLine = [["y".toList, "n".toList]] ∧
      EnumType.valueLists .standard (convert {} replacedLine) = [["y".toList, "n".toList]] ∧
      ∀ dump start, (EnumCatalog.ofLines start dump).substitute (convert {} replacedLine) =
        "  replaced enum('y','n'),".toList := by
  have hconverted : convert {} replacedLine = "  replaced enum('y','n'),".toList := by
    decide +kernel
  rw [hconverted]
  exact ⟨by decide +kernel, by decide +kernel, by decide +kernel,
    fun _ _ => EnumCatalog.substitute_of_isData (by decide +kernel)⟩

end Line
end DumpBridge
