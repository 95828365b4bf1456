import DumpBridge.Proofs.Rows.Values
import Mathlib.Algebra.GroupWithZero.Nat

/-!
# The tuples of a text

`Reads t rows rest` says that `t` starts with the rows, each a gap and a tuple
in matching parentheses, and that no further row follows them.  Every text is
read in this way (`exists_reads`), and `coerceTuples_of_reads` says what
becomes of it: in each row the items change as in `newItem`, and gaps and rest
stay.

The proof follows the reading: `coerceTuples_row` is one row in front of any
text, and `coerceTuples_rest` the text where no row starts.
-/

namespace DumpBridge.Rows

open Literal (Lexeme lexemes Balanced lexemes_code lexemes_parenthesised
  balanced_of_groupFrom groupFrom_eq_some_iff flatMap_text_lexemes isQuote)

/-- What may stand between rows: a comma or an ASCII blank. -/
def isGapChar (c : Char) : Bool :=
  c = ',' || Text.isAsciiBlank c

/-- A gap and the tuple after it. -/
structure Row where
  gap : Text
  /-- What stands between the tuple's parentheses. -/
  inner : Text
  gap_plain : ∀ c ∈ gap, isGapChar c
  balanced : Balanced .standard inner

namespace Row

/-- The row with other items in its parentheses. -/
def withItems (row : Row) (items : List Text) : Text :=
  row.gap ++ '(' :: (Text.join [','] items ++ [')'])

/-- The text of a row. -/
def text (row : Row) : Text :=
  row.withItems (itemsOf row.inner)

/-- What a row becomes. -/
def result (targets : Positions) (row : Row) : Text :=
  row.withItems ((itemsOf row.inner).mapIdx (newItem targets))

/-- How many values of a row change. -/
def changed (targets : Positions) (row : Row) : Nat :=
  ((itemsOf row.inner).mapIdx (changes targets)).count true

theorem text_eq (row : Row) : row.text = row.gap ++ '(' :: (row.inner ++ [')']) := by
  rw [text, withItems, join_itemsOf]

end Row

/-- `Reads t rows rest`: the text is the longest run of rows, and the rest. -/
structure Reads (t : Text) (rows : List Row) (rest : Text) : Prop where
  text : t = rows.flatMap Row.text ++ rest
  longest : ∀ (row : Row) (more : Text), rest ≠ row.text ++ more

/-- Every text is read in some way. -/
theorem exists_reads (t : Text) : ∃ rows rest, Reads t rows rest := by
  induction hlen : t.length using Nat.strongRecOn generalizing t with
  | ind n ih =>
    by_cases hrow : ∃ (row : Row) (more : Text), t = row.text ++ more
    · obtain ⟨row, more, rfl⟩ := hrow
      have hshorter : more.length < n := by
        simp only [← hlen, row.text_eq, List.length_append, List.length_cons]
        omega
      obtain ⟨rows, rest, hreads⟩ := ih _ hshorter more rfl
      exact ⟨row :: rows, rest, by simp [← hreads.text], hreads.longest⟩
    · exact ⟨[], t, rfl, fun row more h => hrow ⟨row, more, h⟩⟩

/-- The tuple after the gap a text starts with, if the text has one that is not
closed. -/
def unclosed (rest : Text) : Option Text :=
  let tuple := rest.dropWhile isGapChar
  if Text.startsWith '(' tuple then some tuple else none

variable {targets : Positions} {t rest : Text}

/-- The lexemes of a tuple that is read already are passed over. -/
private theorem coerceFrom_skip (targets : Positions) (xs ys : List Lexeme) :
    coerceFrom targets xs.length (xs ++ ys) = coerceFrom targets 0 ys := by
  induction xs with
  | nil => rfl
  | cons x xs ih => exact ih

theorem isQuote_of_isGapChar {c : Char} (hc : isGapChar c) :
    isQuote c = false :=
  Literal.isQuote_eq_false_of_class (isGapChar ·) (by decide) (by decide) hc

/-- A character between rows stays. -/
theorem coerceTuples_gapChar {c : Char} (hc : isGapChar c) (t : Text) :
    coerceTuples targets (c :: t) = (coerceTuples targets t).after [c] 0 := by
  have hparen : c ≠ '(' := by
    rintro rfl
    simp [isGapChar, Text.isAsciiBlank] at hc
  have hgap : isGap (.code c) := hc
  rw [coerceTuples, lexemes_code (isQuote_of_isGapChar hc), coerceFrom]
  simp [hparen, hgap, Lexeme.text, coerceTuples]

/-- It stays. -/
theorem coerceTuples_gap {gap : Text} (hgap : ∀ c ∈ gap, isGapChar c) (t : Text) :
    coerceTuples targets (gap ++ t) = (coerceTuples targets t).after gap 0 := by
  induction gap with
  | nil => simp [Tuples.after]
  | cons c gap ih =>
    obtain ⟨hc, hgap⟩ := List.forall_mem_cons.mp hgap
    rw [List.cons_append, coerceTuples_gapChar hc, ih hgap]
    simp [Tuples.after]

/-- The items of a tuple change as `newItem` says; an empty tuple has one empty
item. -/
theorem coerceItems_items (hnodup : (targets.map Prod.fst).Nodup) (inner : Text) :
    Text.join [','] (coerceItems targets (Literal.items .standard inner)).1 =
        Text.join [','] ((itemsOf inner).mapIdx (newItem targets)) ∧
      (coerceItems targets (Literal.items .standard inner)).2 =
        ((itemsOf inner).mapIdx (changes targets)).count true := by
  rw [coerceItems_eq hnodup]
  by_cases hinner : inner = []
  · subst hinner
    have hkept : newWord? targets 0 [] = none := by simp [newWord?]
    simp [Literal.items, itemsOf, lexemes, Literal.lexemesFrom, newItem, changes, Text.trim,
      Text.trimStart, Text.trimEnd, Text.dropEndWhile, hkept, Text.join]
  · rw [items_eq_itemsOf hinner]
    exact ⟨rfl, rfl⟩

/-- **One tuple**: its items change, whatever text follows. -/
theorem coerceTuples_tuple {inner : Text} (h : Balanced .standard inner) (t : Text) :
    coerceTuples targets ('(' :: (inner ++ ')' :: t)) = (coerceTuples targets t).after
        ('(' :: (Text.join [','] (coerceItems targets (Literal.items .standard inner)).1 ++ [')']))
        (coerceItems targets (Literal.items .standard inner)).2 := by
  have hgroup : Literal.groupFrom 1 (lexemes .standard inner ++
      Lexeme.code ')' :: lexemes .standard t) = some (lexemes .standard inner) :=
    (groupFrom_eq_some_iff (Nat.le_refl 1)).mpr ⟨h.leavesOne, _, rfl⟩
  rw [coerceTuples, lexemes_parenthesised h, coerceFrom, if_pos rfl, hgroup]
  simp only [flatMap_text_lexemes]
  have hskip := coerceFrom_skip targets (lexemes .standard inner ++ [Lexeme.code ')'])
    (lexemes .standard t)
  rw [List.append_assoc, List.length_append] at hskip
  exact congrArg (Tuples.after · _ _) hskip

/-- **One row**: its items change, whatever text follows. -/
theorem coerceTuples_row (hnodup : (targets.map Prod.fst).Nodup) (row : Row) (t : Text) :
    coerceTuples targets (row.text ++ t) =
      (coerceTuples targets t).after (row.result targets) (row.changed targets) := by
  have htext : row.text ++ t = row.gap ++ '(' :: (row.inner ++ ')' :: t) := by
    simp [row.text_eq]
  obtain ⟨hitems, hcount⟩ := coerceItems_items hnodup row.inner
  rw [htext, coerceTuples_gap row.gap_plain, coerceTuples_tuple row.balanced, hitems, hcount]
  simp [Tuples.after, Row.result, Row.withItems, Row.changed]

/-- A text that starts with neither a gap nor a tuple has a first lexeme that is
neither. -/
private theorem lexemes_cons_of_other {c : Char} (hgap : ¬ isGapChar c)
    (hparen : c ≠ '(') (t : Text) :
    ∃ l ls, lexemes .standard (c :: t) = l :: ls ∧ l ≠ .code '(' ∧ isGap l = false := by
  cases hquote : isQuote c with
  | true =>
    refine ⟨.opening c, Literal.lexemesFrom .standard (some c) t, ?_, by simp, rfl⟩
    simp [lexemes, Literal.lexemesFrom, hquote]
  | false =>
    refine ⟨.code c, _, lexemes_code hquote t, by simpa using hparen, ?_⟩
    exact Bool.eq_false_iff.mpr hgap

/-- **The rest**: where no row starts, the text stays. -/
theorem coerceTuples_rest (hrest : ∀ (row : Row) (more : Text), rest ≠ row.text ++ more) :
    coerceTuples targets rest = ⟨rest, 0, unclosed rest⟩ := by
  induction rest with
  | nil => rfl
  | cons c t ih =>
    by_cases hgap : isGapChar c
    · -- A row after the character would be one with a longer gap.
      have ht : ∀ (row : Row) (more : Text), t ≠ row.text ++ more := by
        rintro row more rfl
        refine hrest ⟨c :: row.gap, row.inner, ?_, row.balanced⟩ more ?_
        · exact List.forall_mem_cons.mpr ⟨hgap, row.gap_plain⟩
        · simp [Row.text_eq]
      rw [coerceTuples_gapChar hgap, ih ht]
      simp [Tuples.after, unclosed, hgap]
    · by_cases hparen : c = '('
      · subst hparen
        have hgroup : Literal.groupFrom 1 (lexemes .standard t) = none := by
          cases hg : Literal.groupFrom 1 (lexemes .standard t) with
          | none => rfl
          | some group =>
            obtain ⟨inner, more, hbalanced, -, rfl⟩ := balanced_of_groupFrom hg
            exact absurd (by simp [Row.text_eq]) (hrest ⟨[], inner, by simp, hbalanced⟩ more)
        rw [coerceTuples, lexemes_code (by decide), coerceFrom, if_pos rfl, hgroup]
        simp [Lexeme.text, flatMap_text_lexemes, unclosed, hgap, Text.startsWith]
      · obtain ⟨l, ls, hlexemes, hcode, hplain⟩ := lexemes_cons_of_other hgap hparen t
        have htext := flatMap_text_lexemes .standard (c :: t)
        rw [hlexemes] at htext
        rw [coerceTuples, hlexemes, coerceFrom, if_neg hcode, if_neg (by simp [hplain]), htext]
        simp [unclosed, hgap, hparen, Text.startsWith]

/-- **All rows** of a text change, and its gaps and its rest stay. -/
theorem coerceTuples_of_reads (hnodup : (targets.map Prod.fst).Nodup) {rows : List Row}
    (h : Reads t rows rest) :
    coerceTuples targets t =
      ⟨rows.flatMap (Row.result targets) ++ rest, (rows.map (Row.changed targets)).sum,
        unclosed rest⟩ := by
  obtain ⟨rfl, hlongest⟩ := h
  induction rows with
  | nil => simp [coerceTuples_rest hlongest]
  | cons row rows ih =>
    rw [List.flatMap_cons, List.append_assoc, coerceTuples_row hnodup, ih]
    simp [Tuples.after]

end DumpBridge.Rows
