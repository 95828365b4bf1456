import DumpBridge.Line.Quotes
import DumpBridge.Proofs.Text.Replace

/-!
# Which zero dates become null

Only literals that are a zero date as a whole should become `NULL`.  The rule
looks for the quoted dates as plain text, first with a time and then without,
so it can also find one that is no literal: between doubled marks inside a
longer literal, inside a literal in double marks, or in code between two
literals.

`nulled` is the line with just the whole literals replaced.
`nullZeroDates_eq_nulled_iff` says exactly when the rule does that: if no
quoted date is `Stray`.
-/

namespace DumpBridge.ZeroDates

open Line (nullZeroDates)
open Literal (Segment segments)

/-- A date that does not exist, with or without a time. -/
inductive ZeroDate where
  | date
  | dateTime
  deriving DecidableEq, Repr

/-- The literal of a zero date. -/
def ZeroDate.literal : ZeroDate → Text
  | date => "'0000-00-00'".toList
  | dateTime => "'0000-00-00 00:00:00'".toList

/-- What takes the place of a zero date. -/
def null : Text := "NULL".toList

/-- What a segment should become: a literal that is a zero date as a whole is
replaced, and every other segment is kept. -/
def nulledSegment : Segment → Text
  | .literal t =>
    if t = ZeroDate.date.literal ∨ t = ZeroDate.dateTime.literal then null else t
  | .code t => t

/-- The line with the literals replaced that are zero dates. -/
def nulled (line : Text) : Text :=
  (segments .standard line).flatMap nulledSegment

/-! ## Kept characters and whole literals -/

/-- A character that is to be kept, or a literal that is a zero date. -/
inductive Part where
  | kept (c : Char)
  | zero (z : ZeroDate)
  deriving DecidableEq, Repr

/-- The characters of a part. -/
def Part.text : Part → Text
  | kept c => [c]
  | zero z => z.literal

/-- What a part should become. -/
def Part.result : Part → Text
  | kept c => [c]
  | zero _ => null

/-- The characters of parts. -/
def textOf (parts : List Part) : Text :=
  parts.flatMap Part.text

/-- What parts should become. -/
def resultOf (parts : List Part) : Text :=
  parts.flatMap Part.result

/-- The parts of a segment. -/
def segmentParts : Segment → List Part
  | .literal t =>
    if t = ZeroDate.date.literal then [.zero .date]
    else if t = ZeroDate.dateTime.literal then [.zero .dateTime]
    else t.map .kept
  | .code t => t.map .kept

/-- The parts of a line. -/
def parts (line : Text) : List Part :=
  (segments .standard line).flatMap segmentParts

theorem textOf_map_kept (t : Text) : textOf (t.map .kept) = t := by
  induction t with
  | nil => rfl
  | cons c t ih => simpa [textOf, Part.text] using ih

theorem resultOf_map_kept (t : Text) : resultOf (t.map .kept) = t := by
  induction t with
  | nil => rfl
  | cons c t ih => simpa [resultOf, Part.result] using ih

/-- The parts of a segment have its text. -/
theorem textOf_segmentParts (s : Segment) : textOf (segmentParts s) = s.text := by
  fun_cases segmentParts s with
  | case1 | case2 => simp [textOf, Part.text, Segment.text]
  | case3 t | case4 t => exact textOf_map_kept t

theorem resultOf_segmentParts (s : Segment) : resultOf (segmentParts s) = nulledSegment s := by
  fun_cases segmentParts s with
  | case1 | case2 => simp [resultOf, Part.result, nulledSegment]
  | case3 t hdate htime => simp [nulledSegment, hdate, htime, resultOf_map_kept]
  | case4 t => exact resultOf_map_kept t

/-- The parts of a line have its text. -/
theorem textOf_parts (line : Text) : textOf (parts line) = line := by
  have htext (segs : List Segment) :
      textOf (segs.flatMap segmentParts) = segs.flatMap Segment.text := by
    rw [textOf, List.flatMap_assoc]
    exact congrArg (segs.flatMap ·) (funext textOf_segmentParts)
  rw [parts, htext, Literal.flatMap_text_segments]

/-- The parts of a line say what it should become. -/
theorem resultOf_parts (line : Text) : resultOf (parts line) = nulled line := by
  rw [resultOf, parts, List.flatMap_assoc, nulled]
  exact congrArg ((segments .standard line).flatMap ·) (funext resultOf_segmentParts)

/-! ## What the rule replaces -/

/-- What goes wrong at a part, if `rest` follows it.
* A date-time starts at a kept character.
* A date starts at a kept character, and no date-time that starts at its last
  mark takes the mark away before the date is looked for.
* A date-time starts at the last mark of a literal that is a date, and takes the
  mark away from the literal. -/
def StrayAt (rest : List Part) : Part → Prop
  | .kept c =>
    ZeroDate.dateTime.literal <+: c :: textOf rest ∨
      ZeroDate.date.literal <+: c :: textOf rest ∧
        ¬ ZeroDate.dateTime.literal <+: (textOf rest).drop 10
  | .zero .date => ZeroDate.dateTime.literal <+: '\'' :: textOf rest
  | .zero .dateTime => False

/-- Some quoted date among the parts is replaced, or kept, in the wrong place. -/
def Stray (parts : List Part) : Prop :=
  ∃ before part rest, parts = before ++ part :: rest ∧ StrayAt rest part

theorem not_stray_nil : ¬ Stray [] := by
  rintro ⟨before, part, rest, h, _⟩
  simp at h

/-- A date is stray in the first part or in a later one. -/
theorem stray_cons {part : Part} {rest : List Part} :
    Stray (part :: rest) ↔ StrayAt rest part ∨ Stray rest := by
  constructor
  · rintro ⟨before, part', rest', h, hstray⟩
    cases before with
    | nil =>
      obtain ⟨rfl, rfl⟩ := List.cons.inj h
      exact Or.inl hstray
    | cons _ before => exact Or.inr ⟨before, part', rest', (List.cons.inj h).2, hstray⟩
  · rintro (hstray | ⟨before, part', rest', rfl, hstray⟩)
    · exact ⟨[], part, rest, rfl, hstray⟩
    · exact ⟨part :: before, part', rest', rfl, hstray⟩

/-- The first step: date-times become null. -/
private def timesNulled (t : Text) : Text :=
  Text.replace ZeroDate.dateTime.literal null t

/-- The second step: dates become null. -/
private def datesNulled (t : Text) : Text :=
  Text.replace ZeroDate.date.literal null t

/-- Dates with times are nulled first, and then dates. -/
private theorem nullZeroDates_eq (line : Text) :
    nullZeroDates line = datesNulled (timesNulled line) := rfl

/-- Neither step finds anything in text without single marks. -/
private theorem timesNulled_append {x : Text} (hx : '\'' ∉ x) (t : Text) :
    timesNulled (x ++ t) = x ++ timesNulled t :=
  Text.replace_append_of_not_mem hx null t

private theorem datesNulled_append {x : Text} (hx : '\'' ∉ x) (t : Text) :
    datesNulled (x ++ t) = x ++ datesNulled t :=
  Text.replace_append_of_not_mem hx null t

/-- A date-time in front is replaced in the first step. -/
private theorem steps_dateTime (t : Text) :
    datesNulled (timesNulled (ZeroDate.dateTime.literal ++ t)) =
      null ++ datesNulled (timesNulled t) := by
  have hfirst : timesNulled (ZeroDate.dateTime.literal ++ t) = null ++ timesNulled t :=
    Text.replace_append (by decide) null t
  rw [hfirst, datesNulled_append (by decide)]

/-- Where a zero date is replaced, the result starts with the word for null. -/
private theorem head?_replace {old t : Text} (hold : old ≠ []) (h : old <+: t) :
    (Text.replace old null t).head? = some 'N' := by
  obtain ⟨rest, rfl⟩ := h
  rw [Text.replace_append hold]
  rfl

/-- A zero date begins with a quote mark. -/
private theorem first_eq_mark {z : ZeroDate} {c : Char} {t : Text}
    (h : z.literal <+: c :: t) : c = '\'' := by
  cases z <;> exact (List.cons_prefix_cons.mp h).1.symm

/-- After the first step, a mark stands behind `x` if one did before and no
date-time started at it. -/
private theorem mark_prefix_timesNulled {x : Text} (hmark : '\'' ∉ x) (hnull : 'N' ∉ x) (t : Text) :
    x ++ ['\''] <+: timesNulled t ↔
      x ++ ['\''] <+: t ∧ ¬ ZeroDate.dateTime.literal <+: t.drop x.length := by
  induction x generalizing t with
  | nil =>
    cases t with
    | nil => simp [timesNulled]
    | cons c t =>
      by_cases htime : ZeroDate.dateTime.literal <+: c :: t
      · have hhead : (timesNulled (c :: t)).head? = some 'N' :=
          head?_replace (by decide) htime
        obtain ⟨u, hu⟩ := List.head?_eq_some_iff.mp hhead
        simp [hu, htime]
      · have hkept : timesNulled (c :: t) = c :: timesNulled t :=
          Text.replace_cons htime null
        simp [hkept, htime]
  | cons a x ih =>
    have ha : a ≠ '\'' := fun h => hmark (h ▸ List.mem_cons_self)
    have hx := ih (fun h => hmark (List.mem_cons_of_mem a h))
      (fun h => hnull (List.mem_cons_of_mem a h))
    cases t with
    | nil => simp [timesNulled]
    | cons c t =>
      by_cases hc : c = a
      · subst hc
        have hkept : timesNulled (c :: t) = c :: timesNulled t :=
          Text.replace_cons (fun h => ha (first_eq_mark h)) null
        simpa [hkept] using hx t
      · have hhead : (timesNulled (c :: t)).head? ≠ some a := by
          by_cases htime : ZeroDate.dateTime.literal <+: c :: t
          · have hN : (timesNulled (c :: t)).head? = some 'N' :=
              head?_replace (by decide) htime
            rw [hN]
            exact fun h => hnull (Option.some.inj h ▸ List.mem_cons_self)
          · have hkept : timesNulled (c :: t) = c :: timesNulled t :=
              Text.replace_cons htime null
            simpa [hkept] using hc
        constructor
        · rintro ⟨u, hu⟩
          rw [← hu] at hhead
          exact absurd rfl hhead
        · rintro ⟨hpre, _⟩
          exact absurd (List.cons_prefix_cons.mp hpre).1.symm hc

/-- The second step finds a date at a kept character if one was there before the
first step and no date-time started at its last mark. -/
private theorem date_prefix_timesNulled (c : Char) (t : Text) :
    ZeroDate.date.literal <+: c :: timesNulled t ↔
      ZeroDate.date.literal <+: c :: t ∧ ¬ ZeroDate.dateTime.literal <+: t.drop 10 := by
  have hmark := mark_prefix_timesNulled (x := "0000-00-00".toList) (by decide) (by decide) t
  have hdate : ZeroDate.date.literal = '\'' :: ("0000-00-00".toList ++ ['\'']) := rfl
  rw [hdate, List.cons_prefix_cons, List.cons_prefix_cons, hmark, and_assoc]
  rfl

/-- A kept character is kept unless a quoted date starts at it. -/
private theorem steps_kept_iff (c : Char) (parts : List Part) :
    datesNulled (timesNulled (c :: textOf parts)) = c :: resultOf parts ↔
      ¬ StrayAt parts (.kept c) ∧
        datesNulled (timesNulled (textOf parts)) = resultOf parts := by
  rw [StrayAt, ← date_prefix_timesNulled, not_or]
  by_cases htime : ZeroDate.dateTime.literal <+: c :: textOf parts
  · obtain rfl := first_eq_mark htime
    obtain ⟨rest, hrest⟩ := htime
    rw [← hrest, steps_dateTime]
    simp [null]
  · have hfirst : timesNulled (c :: textOf parts) = c :: timesNulled (textOf parts) :=
      Text.replace_cons htime null
    rw [hfirst]
    by_cases hdate : ZeroDate.date.literal <+: c :: timesNulled (textOf parts)
    · obtain rfl := first_eq_mark hdate
      have hhead := head?_replace (by decide) hdate
      constructor
      · intro h
        rw [datesNulled] at h
        rw [h] at hhead
        simp at hhead
      · exact fun h => absurd hdate h.1.2
    · have hsecond : datesNulled (c :: timesNulled (textOf parts)) =
          c :: datesNulled (timesNulled (textOf parts)) := Text.replace_cons hdate null
      simp [hsecond, htime, hdate]

/-- A literal that is a date is replaced unless a date-time starts at its last
mark. -/
private theorem steps_date_iff (parts : List Part) :
    datesNulled (timesNulled (ZeroDate.date.literal ++ textOf parts)) = null ++ resultOf parts ↔
      ¬ StrayAt parts (.zero .date) ∧
        datesNulled (timesNulled (textOf parts)) = resultOf parts := by
  have hsplit : ZeroDate.date.literal ++ textOf parts =
      '\'' :: ("0000-00-00".toList ++ '\'' :: textOf parts) := rfl
  have hnot : ¬ ZeroDate.dateTime.literal <+:
      '\'' :: ("0000-00-00".toList ++ '\'' :: textOf parts) := by
    have htime : ZeroDate.dateTime.literal =
        '\'' :: ("0000-00-00".toList ++ ' ' :: "00:00:00'".toList) := rfl
    rw [htime, List.cons_prefix_cons, List.prefix_append_right_inj, List.cons_prefix_cons]
    exact fun h => absurd h.2.1 (by decide)
  have hfirst : timesNulled ('\'' :: ("0000-00-00".toList ++ '\'' :: textOf parts)) =
      '\'' :: ("0000-00-00".toList ++ timesNulled ('\'' :: textOf parts)) := by
    rw [timesNulled, Text.replace_cons hnot, ← timesNulled, timesNulled_append (by decide)]
  rw [hsplit, hfirst, StrayAt]
  by_cases htime : ZeroDate.dateTime.literal <+: '\'' :: textOf parts
  · -- The first step takes the last mark, so the second finds no date in front.
    have hkept : datesNulled ('\'' :: ("0000-00-00".toList ++ timesNulled ('\'' :: textOf parts))) =
        '\'' :: datesNulled ("0000-00-00".toList ++ timesNulled ('\'' :: textOf parts)) := by
      refine Text.replace_cons ?_ null
      rw [← timesNulled_append (by decide), date_prefix_timesNulled]
      exact fun h => h.2 htime
    rw [hkept]
    simp [null, htime]
  · have hmark : timesNulled ('\'' :: textOf parts) = '\'' :: timesNulled (textOf parts) :=
      Text.replace_cons htime null
    have hfound :
        datesNulled ('\'' :: ("0000-00-00".toList ++ '\'' :: timesNulled (textOf parts))) =
          null ++ datesNulled (timesNulled (textOf parts)) :=
      Text.replace_append (by decide : ZeroDate.date.literal ≠ []) null (timesNulled (textOf parts))
    rw [hmark, hfound, List.append_cancel_left_eq]
    simp [htime]

/-- **When the rule is right about parts**: if none of them is stray. -/
theorem nullZeroDates_textOf_iff (parts : List Part) :
    nullZeroDates (textOf parts) = resultOf parts ↔ ¬ Stray parts := by
  rw [nullZeroDates_eq]
  induction parts with
  | nil => simp [textOf, resultOf, timesNulled, datesNulled, not_stray_nil]
  | cons part parts ih =>
    rw [stray_cons, not_or, ← ih]
    cases part with
    | kept c => exact steps_kept_iff c parts
    | zero z =>
      cases z with
      | date => exact steps_date_iff parts
      | dateTime =>
        have hstray : ¬ StrayAt parts (.zero .dateTime) := id
        have htext : textOf (.zero .dateTime :: parts) =
            ZeroDate.dateTime.literal ++ textOf parts := rfl
        have hresult : resultOf (.zero .dateTime :: parts) = null ++ resultOf parts := rfl
        rw [htext, hresult, steps_dateTime, List.append_cancel_left_eq]
        simp [hstray]

/-- **When the rule is right.**  The line becomes what it should, each literal
that is a zero date replaced and all else kept, exactly if it has no stray
quoted date. -/
theorem nullZeroDates_eq_nulled_iff (line : Text) :
    nullZeroDates line = nulled line ↔ ¬ Stray (parts line) := by
  have h := nullZeroDates_textOf_iff (parts line)
  rwa [textOf_parts, resultOf_parts] at h

/-- A date between doubled marks inside a longer literal is replaced, and the
literal falls apart. -/
theorem nullZeroDates_ne_nulled :
    nullZeroDates "'it''0000-00-00''x'".toList ≠ nulled "'it''0000-00-00''x'".toList ∧
      nullZeroDates "'it''0000-00-00''x'".toList = "'it'NULL'x'".toList ∧
      nulled "'it''0000-00-00''x'".toList = "'it''0000-00-00''x'".toList := by
  decide

end DumpBridge.ZeroDates
