import DumpBridge.Proofs.Line.HeaderText
import DumpBridge.Proofs.Rows.Columns

/-!
# Values that have changed

A word that a value became is no value that changes (`changes_newItem`).  The tuples of
a changed text are the changed tuples, with the same gaps and the same rest
(`Reads.settled`), so a second change of the text finds nothing to do.

For a line it also has to be read as before: its header, whether it starts with a tuple
and whether it ends its statement.  A header can only look as far as the parenthesis
that first closes on the line, and what changed has no parentheses
(`exists_first_paren`); so the header is read again (`parse?_coerceTuples`).
-/

namespace DumpBridge.Rows

open Text (isBlank isWord)
open Line (InsertHeader)
open Line.InsertHeader (Reading Closing IsLongest valuesWord fits_valuesWord_congr
  isLongest_of_head exists_reading)

variable {targets : Positions} {i : Nat} {t item rest : Text} {rows : List Row} {items : List Text}

/-! ## Items -/

/-- What a value changed to does not change. -/
theorem changes_newItem (targets : Positions) (i : Nat) (item : Text) :
    changes targets i (newItem targets i item) = false := by
  unfold newItem
  split
  · next word hword =>
    obtain ⟨hmem, -⟩ := newWord?_cases hword
    have hwords : ∀ word ∈ newWords, word.head?.any (!isBlank ·) ∧ word.getLast?.any (!isBlank ·) ∧
        word ∉ ["0".toList, "1".toList, "''".toList, "\"\"".toList] := by decide
    obtain ⟨hhead, hlast, hother⟩ := hwords word hmem
    have htrim : Text.trim (item.takeWhile isBlank ++ (word ++
        (item.reverse.takeWhile isBlank).reverse)) = word :=
      Text.trim_append (fun c hc => List.mem_takeWhile_imp hc) hhead hlast
        fun c hc => List.mem_takeWhile_imp (List.mem_reverse.mp hc)
    rw [changes, List.append_assoc, htrim, Option.isSome_eq_false_iff, Option.isNone_iff_eq_none]
    refine Option.eq_none_iff_forall_ne_some.mpr fun other hchange => ?_
    exact hother (newWord?_cases hchange).2
  · next hnone => rw [changes, hnone, Option.isSome_none]

/-- **A new item is not changed again.** -/
theorem newItem_newItem (targets : Positions) (i : Nat) (item : Text) :
    newItem targets i (newItem targets i item) = newItem targets i item :=
  newItem_eq_self_iff.mpr (changes_newItem targets i item)

/-- An item that changes has no closing parenthesis, and neither has what it becomes. -/
theorem paren_newItem (targets : Positions) (i : Nat) (item : Text) :
    newItem targets i item = item ∨ ')' ∉ item ∧ ')' ∉ newItem targets i item := by
  unfold newItem
  split
  · next word hword =>
    obtain ⟨hnew, hvalue⟩ := newWord?_cases hword
    have hwords : ∀ word ∈ newWords, ')' ∉ word := by decide
    have hvalues : ∀ value ∈ ["0".toList, "1".toList, "''".toList, "\"\"".toList],
        ')' ∉ value := by decide
    have hblank : ∀ s : Text, (∀ c ∈ s, isBlank c) → ')' ∉ s := fun s hs hc =>
      absurd (hs _ hc) (by decide)
    right
    constructor
    · obtain ⟨lead, tail, hitem, hlead, htail⟩ := Text.exists_trim item
      rw [hitem, List.mem_append, List.mem_append, not_or, not_or]
      exact ⟨hblank lead hlead, hvalues _ hvalue, hblank tail htail⟩
    · rw [List.mem_append, List.mem_append, not_or, not_or]
      refine ⟨⟨hblank _ fun c hc => List.mem_takeWhile_imp hc, hwords word hnew⟩, ?_⟩
      exact hblank _ fun c hc => List.mem_takeWhile_imp (List.mem_reverse.mp hc)
  · exact Or.inl rfl

/-! ## Rows -/

namespace Row

/-- The row that a row becomes. -/
def settled (targets : Positions) (row : Row) : Row :=
  { row with
    inner := Text.join [','] ((itemsOf row.inner).mapIdx (newItem targets))
    balanced := row.balanced_newItems targets }

/-- The settled row has the text that the row came out with. -/
theorem text_settled (targets : Positions) (row : Row) :
    (row.settled targets).text = row.result targets := by
  rw [text_eq, result, withItems]
  rfl

/-- Its items are the new ones. -/
theorem itemsOf_settled (targets : Positions) (row : Row) :
    itemsOf (row.settled targets).inner = (itemsOf row.inner).mapIdx (newItem targets) :=
  itemsOf_join_newItems row.isShut targets

/-- So it comes out as it is. -/
theorem result_settled (targets : Positions) (row : Row) :
    (row.settled targets).result targets = row.result targets := by
  have hagain : (fun i => newItem targets i ∘ newItem targets i) = newItem targets := by
    funext i item
    exact newItem_newItem targets i item
  rw [result, itemsOf_settled, List.mapIdx_mapIdx, hagain]
  rfl

/-- None of its values changes. -/
theorem changed_settled (targets : Positions) (row : Row) :
    (row.settled targets).changed targets = 0 := by
  rw [changed, itemsOf_settled, List.mapIdx_mapIdx, List.count_eq_zero]
  intro hmem
  obtain ⟨i, hi, hchange⟩ := List.mem_mapIdx.mp hmem
  simp [changes_newItem] at hchange

end Row

/-- **The rows of a changed text** are the rows that its rows became. -/
theorem Reads.settled (h : Reads t rows rest) (targets : Positions) :
    Reads (rows.flatMap (Row.result targets) ++ rest) (rows.map (Row.settled targets)) rest := by
  refine ⟨?_, h.longest⟩
  rw [List.flatMap_map]
  simp only [Row.text_settled]

/-- **A second change** of a text changes nothing. -/
theorem coerceTuples_coerceTuples (hnodup : (targets.map Prod.fst).Nodup) (t : Text) :
    coerceTuples targets (coerceTuples targets t).text =
      { coerceTuples targets t with changed := 0 } := by
  obtain ⟨rows, rest, hreads⟩ := exists_reads t
  rw [coerceTuples_of_reads hnodup hreads, coerceTuples_of_reads hnodup (hreads.settled targets),
    List.flatMap_map, List.map_map]
  have hchanged : Row.changed targets ∘ Row.settled targets = fun _ => 0 :=
    funext fun row => row.changed_settled targets
  simp [hchanged, Row.result_settled]

/-! ## Headers -/

/-- A parenthesis in an item, and what follows the item, are read alike whatever comes behind the
separator. -/
theorem exists_paren_of_mem {c : Char} (hmem : ')' ∈ item) (hc : c ∈ [',', ')']) (m m' : Text) :
    ∃ l w w', item ++ c :: m = l ++ ')' :: w ∧ item ++ c :: m' = l ++ ')' :: w' ∧ ')' ∉ l ∧
      (valuesWord.Fits none w' → valuesWord.Fits none w) := by
  obtain ⟨l, w, rfl, hl⟩ := List.eq_append_cons_of_mem hmem
  have hplain : ∀ c ∈ [',', ')'], isBlank c = false ∧ isWord c = false := by decide
  obtain ⟨hblank, hword⟩ := hplain c hc
  exact ⟨l, w ++ c :: m, w ++ c :: m', by simp, by simp, hl, fits_valuesWord_congr hblank hword⟩

/-- **The first closing parenthesis** behind changed items comes where it came behind the items, and
no word `VALUES` comes in after it. -/
theorem exists_first_paren {news : List Text} {more more' : Text}
    (h : List.Forall₂ (fun item new => new = item ∨ ')' ∉ item ∧ ')' ∉ new) items news)
    (hmore : valuesWord.Fits none more' → valuesWord.Fits none more) :
    ∃ l w l' w', Text.join [','] items ++ ')' :: more = l ++ ')' :: w ∧
      Text.join [','] news ++ ')' :: more' = l' ++ ')' :: w' ∧ ')' ∉ l ∧ ')' ∉ l' ∧
      (valuesWord.Fits none w' → valuesWord.Fits none w) := by
  induction h with
  | nil => exact ⟨[], more, [], more', rfl, rfl, by simp, by simp, hmore⟩
  | @cons item new items news hitem hrest ih =>
    by_cases hmem : ')' ∈ item
    · -- An item with a parenthesis is the same as before.
      obtain rfl : new = item := hitem.resolve_right fun hplain => hplain.1 hmem
      cases hrest with
      | nil =>
        obtain ⟨l, w, w', hl, hl', hplain, hw⟩ := exists_paren_of_mem (c := ')') hmem (by simp)
          more more'
        exact ⟨l, w, l, w', hl, hl', hplain, hplain, hw⟩
      | @cons next next' items news _ _ =>
        obtain ⟨l, w, w', hl, hl', hplain, hw⟩ := exists_paren_of_mem (c := ',') hmem (by simp)
          (Text.join [','] (next :: items) ++ ')' :: more)
          (Text.join [','] (next' :: news) ++ ')' :: more')
        exact ⟨l, w, l, w', by rw [← hl]; simp [Text.join], by rw [← hl']; simp [Text.join],
          hplain, hplain, hw⟩
    · have hnew : ')' ∉ new := by
        rcases hitem with rfl | hplain
        · exact hmem
        · exact hplain.2
      cases hrest with
      | nil => exact ⟨item, more, new, more', rfl, rfl, hmem, hnew, hmore⟩
      | @cons next next' items news _ _ =>
        obtain ⟨l, w, l', w', hl, hl', hplain, hplain', hw⟩ := ih
        refine ⟨item ++ ',' :: l, w, new ++ ',' :: l', w', ?_, ?_, by simp [hmem, hplain],
          by simp [hnew, hplain'], hw⟩
        · rw [List.append_assoc, List.cons_append, ← hl]
          simp [Text.join]
        · rw [List.append_assoc, List.cons_append, ← hl']
          simp [Text.join]

/-- Behind a header without a list, no longer name comes in when rows change. -/
theorem isLongest_result {front : Text} (row : Row) (hfront : '(' ∉ front)
    (h : IsLongest (front ++ ((row :: rows).flatMap Row.text ++ rest))) (targets : Positions) :
    IsLongest (front ++ ((row :: rows).flatMap (Row.result targets) ++ rest)) := by
  have hgap : '(' ∉ front ++ row.gap := by
    rw [List.mem_append, not_or]
    exact ⟨hfront, fun hc => absurd (row.gap_plain _ hc) (by decide)⟩
  have hmore : valuesWord.Fits none (rows.flatMap (Row.result targets) ++ rest) →
      valuesWord.Fits none (rows.flatMap Row.text ++ rest) := by
    cases rows with
    | nil => exact id
    | cons next rows =>
      intro hfits
      simp only [List.flatMap_cons, Row.text, Row.result, Row.withItems, List.append_assoc,
        List.cons_append] at hfits ⊢
      exact fits_valuesWord_congr (by decide) (by decide) hfits
  have hitems : List.Forall₂ (fun item new => new = item ∨ ')' ∉ item ∧ ')' ∉ new)
      (itemsOf row.inner) ((itemsOf row.inner).mapIdx (newItem targets)) := by
    refine List.forall₂_iff_get.mpr ⟨by simp, fun i _ _ => ?_⟩
    simpa using paren_newItem targets i _
  obtain ⟨l, w, l', w', hl, hl', hplain, hplain', hw⟩ := exists_first_paren hitems hmore
  have htext : front ++ ((row :: rows).flatMap Row.text ++ rest) =
      front ++ row.gap ++ '(' :: (l ++ ')' :: w) := by
    rw [← hl]
    simp [Row.text, Row.withItems]
  have hresult : front ++ ((row :: rows).flatMap (Row.result targets) ++ rest) =
      front ++ row.gap ++ '(' :: (l' ++ ')' :: w') := by
    rw [← hl']
    simp [Row.result, Row.withItems]
  rw [htext] at h
  rw [hresult]
  exact h.congr hgap hplain hplain' hw

/-- **The header is read again** before the changed values. -/
theorem parse?_coerceTuples {line : Text} {header : InsertHeader}
    (h : InsertHeader.parse? line = some header) (hnodup : (targets.map Prod.fst).Nodup) :
    InsertHeader.parse? (line.take header.length ++
      (coerceTuples targets (line.drop header.length)).text) = some header := by
  obtain ⟨r, rfl⟩ := exists_reading h
  obtain ⟨rows, rest, hreads⟩ := exists_reads r.rest
  rw [r.take_header, r.drop_header, coerceTuples_of_reads hnodup hreads]
  cases rows with
  | nil =>
    have hsame : [].flatMap (Row.result targets) ++ rest = r.rest := hreads.text.symm
    exact r.parse?_append (by rw [hsame]) (by rw [hsame]; exact r.longest)
  | cons row rows =>
    refine r.parse?_append ?_ ?_
    · rw [hreads.text]
      simp only [List.flatMap_cons, Row.text, Row.result, Row.withItems, List.append_assoc,
        List.cons_append]
      cases row.gap <;> rfl
    · by_cases hlist : r.closing.list = none
      · have hlongest := r.longest
        rw [hreads.text] at hlongest
        exact isLongest_result row (Closing.not_mem_text hlist) hlongest targets
      · exact isLongest_of_head (Closing.head_of_list hlist _)

/-! ## Lines -/

variable {schema : Schema} {before lines : List Text} {line : Text} {active : Option Positions}
  {header : InsertHeader}

theorem endsStatement_coerceTuples (hnodup : (targets.map Prod.fst).Nodup) (front t : Text) :
    endsStatement (front ++ (coerceTuples targets t).text) = endsStatement (front ++ t) := by
  rw [endsStatement_eq, endsStatement_eq, lastSolid?_coerceTuples hnodup]

/-- A line that goes on with rows is read as such again. -/
theorem further_coerceTuples (htuple : Text.startsWith '(' (Text.trim line))
    (hnodup : (targets.map Prod.fst).Nodup) :
    InsertHeader.parse? (coerceTuples targets line).text = none ∧
      Text.startsWith '(' (Text.trim (coerceTuples targets line).text) := by
  obtain ⟨rows, rest, hreads⟩ := exists_reads line
  obtain ⟨lead, more, hfront, hlead⟩ := exists_front_of_further targets hreads htuple
  rw [coerceTuples_of_reads hnodup hreads]
  simp only [hfront]
  exact ⟨Line.parse?_eq_none_of_first hlead (by decide) (by decide) more,
    Text.startsWith_trim hlead (by decide) '(' more⟩

/-- A line that is left alone is left alone again. -/
theorem coerceLine_again_of_same {carried : Option Positions}
    (h : coerceLine schema active line = .same line carried) :
    coerceLine schema active (coerceLine schema active line).line =
      { coerceLine schema active line with changed := 0 } := by
  rw [h]
  exact h

/-- **A header line** changes once. -/
theorem coerceLine_again_header (active : Option Positions)
    (hparse : InsertHeader.parse? line = some header) :
    coerceLine schema active (coerceLine schema active line).line =
      { coerceLine schema active line with changed := 0 } := by
  by_cases hnil : positions schema header = []
  · exact coerceLine_again_of_same (coerceLine_header_of_nil active hparse hnil)
  · have hnodup := nodup_positions schema header
    have hagain := parse?_coerceTuples hparse hnodup
    have hends := endsStatement_coerceTuples hnodup (line.take header.length)
      (line.drop header.length)
    rw [List.take_append_drop] at hends
    have hlength : (line.take header.length).length = header.length := by
      obtain ⟨r, rfl⟩ := exists_reading hparse
      rw [r.take_header]
      rfl
    rw [coerceLine_header active hparse hnil]
    dsimp only
    rw [coerceLine_header active hagain hnil, List.take_left' hlength, List.drop_left' hlength,
      hends, coerceTuples_coerceTuples hnodup]

/-- **One line** changes once. -/
theorem coerceLine_coerceLine (hactive : ActiveAfter schema before active) (line : Text) :
    coerceLine schema active (coerceLine schema active line).line =
      { coerceLine schema active line with changed := 0 } := by
  cases hparse : InsertHeader.parse? line with
  | some header => exact coerceLine_again_header active hparse
  | none =>
    cases active with
    | none => exact coerceLine_again_of_same (coerceLine_outside hparse)
    | some targets =>
      obtain ⟨-, header, -, rfl⟩ := (hactive targets).mp rfl
      have hnodup := nodup_positions schema header
      by_cases htuple : Text.startsWith '(' (Text.trim line)
      · obtain ⟨hparse', htuple'⟩ := further_coerceTuples htuple hnodup
        have hends : endsStatement (coerceTuples (positions schema header) line).text =
          endsStatement line := endsStatement_coerceTuples hnodup [] line
        rw [coerceLine_further hparse, if_pos htuple]
        dsimp only
        rw [coerceLine_further hparse', if_pos htuple', hends, coerceTuples_coerceTuples hnodup]
      · have hsame : coerceLine schema (some (positions schema header)) line = .same line
            (if endsStatement line then none else some (positions schema header)) := by
          rw [coerceLine_further hparse, if_neg htuple]
        exact coerceLine_again_of_same hsame

/-! ## All lines -/

/-- **A run** over the lines that come out of a run changes none of them. -/
theorem coerceLines_coerceLines (hactive : ActiveAfter schema before active) (number : Nat)
    (lines : List Text) :
    coerceLines schema active number (coerceLines schema active number lines).lines =
      { coerceLines schema active number lines with values := 0 } := by
  induction lines generalizing before active number with
  | nil => rfl
  | cons line lines ih =>
    have hline := coerceLine_coerceLine hactive line
    have hrest := ih (activeAfter_coerceLine hactive line) (number + 1)
    simp only [coerceLines]
    simp only [hline, hrest]

/-- **Once is enough.**  Changing the values of a script a second time leaves every line as it is:
no value changes, as many statements have positions, and the same tuples are not closed. -/
theorem coerce_coerce (schema : Schema) (lines : List Text) :
    coerce schema (coerce schema lines).lines = { coerce schema lines with values := 0 } := by
  rw [coerce_eq_coerceLines, coerce_eq_coerceLines]
  exact coerceLines_coerceLines (activeAfter_nil schema) 1 lines

end DumpBridge.Rows
