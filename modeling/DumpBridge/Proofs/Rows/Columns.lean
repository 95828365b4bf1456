import DumpBridge.Proofs.Literal.Matching
import DumpBridge.Proofs.Rows.NestedValues

/-!
# Positions and columns

A position of a target is the number of a column.  The value of a column is the value
of that number in the tuple, but what changes is the item of that number: behind a
call with several arguments the two numbers part.  `Aligned` says when this makes no
difference: no argument of a call has to change as an item, and every other value has
to change to the same word as an item and as the value of its column.

`coerceTuples_eq_columns_iff` says that each tuple of a text changes column by column
just if all of them are aligned.  A tuple without commas in nested parentheses always is.
-/

namespace DumpBridge.Rows

open Text (isBlank)
open Literal (Balanced)

variable {targets : Positions} {i j column place : Nat} {t item rest : Text} {values : List Text}

/-! ## When an item changes -/

/-- No word that a value changes to is that value. -/
theorem newItem_eq_self_iff : newItem targets i item = item ↔ changes targets i item = false := by
  unfold newItem changes
  cases hword : newWord? targets i (Text.trim item) with
  | none => simp
  | some word =>
    refine iff_of_false (fun hsame => ?_) (by simp)
    obtain ⟨hnew, hvalue⟩ := newWord?_cases hword
    have hletters : ∀ word ∈ newWords, word ≠ [] ∧ ∀ c ∈ word, isBlank c = false ∧
        ∀ value ∈ ["0".toList, "1".toList, "''".toList, "\"\"".toList], c ∉ value := by decide
    obtain ⟨hne, hall⟩ := hletters word hnew
    obtain ⟨c, hc⟩ := List.exists_mem_of_ne_nil word hne
    obtain ⟨hsolid, hother⟩ := hall c hc
    obtain ⟨lead, tail, hitem, hlead, htail⟩ := Text.exists_trim item
    -- The item is a value between blanks, and has no letter of the word.
    have hmem : c ∈ item := by
      rw [← hsame]
      simp [hc]
    rw [hitem, List.mem_append, List.mem_append] at hmem
    rcases hmem with hmem | hmem | hmem
    · simp [hlead c hmem] at hsolid
    · exact hother _ hvalue hmem
    · simp [htail c hmem] at hsolid

/-- At two positions an item becomes the same just if it has to change to the same word. -/
theorem newItem_eq_newItem_iff : newItem targets i item = newItem targets j item ↔
    newWord? targets i (Text.trim item) = newWord? targets j (Text.trim item) := by
  refine ⟨fun heq => ?_, fun heq => by rw [newItem, newItem, heq]⟩
  cases hi : newWord? targets i (Text.trim item) with
  | none =>
    have hsame : newItem targets i item = item := newItem_eq_self_iff.mpr (by simp [changes, hi])
    have hkept : changes targets j item = false := newItem_eq_self_iff.mp (heq.symm.trans hsame)
    rw [changes, Option.isSome_eq_false_iff, Option.isNone_iff_eq_none] at hkept
    exact hkept.symm
  | some word =>
    cases hj : newWord? targets j (Text.trim item) with
    | none =>
      have hsame : newItem targets j item = item :=
        newItem_eq_self_iff.mpr (by simp [changes, hj])
      have hkept : changes targets i item = false := newItem_eq_self_iff.mp (heq.trans hsame)
      simp [changes, hi] at hkept
    | some word' => simpa [newItem, hi, hj] using heq

/-! ## Values and their items -/

/-- The value of a column changes in the same way as its items, which start at `place`. -/
def IsPlaced (targets : Positions) (column place : Nat) (value : Text) : Prop :=
  if (itemsOf value).length = 1 then
    newWord? targets place (Text.trim value) = newWord? targets column (Text.trim value)
  else ∀ mark ∈ (itemsOf value).mapIdx (fun r => changes targets (place + r)), mark = false

/-- Values from a column on change in the same way as their items from a place on. -/
def Aligned (targets : Positions) : Nat → Nat → List Text → Prop
  | _, _, [] => True
  | column, place, value :: values =>
    IsPlaced targets column place value ∧
      Aligned targets (column + 1) (place + (itemsOf value).length) values

instance (column place : Nat) (value : Text) : Decidable (IsPlaced targets column place value) :=
  inferInstanceAs (Decidable (ite _ _ _))

instance Aligned.decidable (targets : Positions) :
    (column place : Nat) → (values : List Text) → Decidable (Aligned targets column place values)
  | _, _, [] => isTrue trivial
  | column, place, value :: values =>
    have := Aligned.decidable targets (column + 1) (place + (itemsOf value).length) values
    inferInstanceAs (Decidable (_ ∧ _))

/-- **One value**: its items become those of what it becomes just if it is placed. -/
theorem mapIdx_itemsOf_iff (value : Text) :
    (itemsOf value).mapIdx (fun r => newItem targets (place + r)) =
        itemsOf (newItem targets column value) ↔
      IsPlaced targets column place value := by
  by_cases hone : (itemsOf value).length = 1
  · obtain ⟨item, hitems⟩ := List.length_eq_one_iff.mp hone
    obtain rfl := eq_of_itemsOf hitems
    rw [itemsOf_newItem hitems, hitems, IsPlaced, if_pos hone, ← newItem_eq_newItem_iff]
    simp
  · rw [newItem_of_length_ne hone, IsPlaced, if_neg hone]
    constructor
    · intro heq mark hmark
      obtain ⟨r, hr, rfl⟩ := List.mem_mapIdx.mp hmark
      have hget : ((itemsOf value).mapIdx fun r => newItem targets (place + r))[r]? =
          (itemsOf value)[r]? := by rw [heq]
      rw [List.getElem?_mapIdx, List.getElem?_eq_getElem hr] at hget
      exact newItem_eq_self_iff.mp (Option.some.inj hget)
    · intro hmarks
      refine List.ext_getElem (by simp) fun r hr _ => ?_
      rw [List.getElem_mapIdx]
      exact newItem_eq_self_iff.mpr (hmarks _ (List.mem_mapIdx.mpr ⟨r, by simpa using hr, rfl⟩))

/-- Numbers behind the items of a value go on from there. -/
theorem add_length_add {α : Type} (f : Nat → α) (place n : Nat) :
    (fun k => f (place + (k + n))) = fun k => f (place + n + k) := by
  funext k
  congr 1
  omega

/-- **Values and their items.**  All items become those of the new values just if the
values are aligned with them. -/
theorem mapIdx_flatMap_itemsOf_iff (targets : Positions) (column place : Nat) (values : List Text) :
    (values.flatMap itemsOf).mapIdx (fun k => newItem targets (place + k)) =
        (values.mapIdx fun k => newItem targets (column + k)).flatMap itemsOf ↔
      Aligned targets column place values := by
  induction values generalizing column place with
  | nil => simp [Aligned]
  | cons value values ih =>
    rw [List.flatMap_cons, List.mapIdx_append, List.mapIdx_cons, List.flatMap_cons, Aligned,
      add_length_add (newItem targets), add_length_add (newItem targets), ← ih,
      ← mapIdx_itemsOf_iff value, Nat.add_zero]
    constructor
    · intro heq
      exact List.append_inj heq (by rw [List.length_mapIdx, length_itemsOf_newItem])
    · intro h
      obtain ⟨hfirst, hothers⟩ := h
      rw [hfirst, hothers]

/-- Aligned values change as often as their items. -/
theorem count_changes (h : Aligned targets column place values) :
    ((values.flatMap itemsOf).mapIdx fun k => changes targets (place + k)).count true =
      (values.mapIdx fun k => changes targets (column + k)).count true := by
  induction values generalizing column place with
  | nil => rfl
  | cons value values ih =>
    obtain ⟨hplaced, hvalues⟩ := h
    have hfirst : ((itemsOf value).mapIdx fun r => changes targets (place + r)).count true =
        [changes targets column value].count true := by
      by_cases hone : (itemsOf value).length = 1
      · obtain ⟨item, hitems⟩ := List.length_eq_one_iff.mp hone
        obtain rfl := eq_of_itemsOf hitems
        rw [IsPlaced, if_pos hone] at hplaced
        simp [hitems, changes, hplaced]
      · rw [newItem_eq_self_iff.mp (newItem_of_length_ne hone), List.count_eq_zero.mpr]
        · rfl
        · rw [IsPlaced, if_neg hone] at hplaced
          intro hmem
          simpa using hplaced true hmem
    rw [List.flatMap_cons, List.mapIdx_append, List.mapIdx_cons, List.count_append,
      add_length_add (changes targets), add_length_add (changes targets), ih hvalues, hfirst,
      ← List.count_append]
    rfl

/-- Values that are items are aligned. -/
theorem aligned_of_items (h : ∀ value ∈ values, itemsOf value = [value]) (n : Nat) :
    Aligned targets n n values := by
  induction values generalizing n with
  | nil => trivial
  | cons value values ih =>
    obtain ⟨hvalue, hvalues⟩ := List.forall_mem_cons.mp h
    refine ⟨by simp [IsPlaced, hvalue], ?_⟩
    rw [hvalue]
    exact ih hvalues (n + 1)

/-! ## Rows -/

namespace Row

/-- What a row becomes if the value of each column changes. -/
def columnResult (targets : Positions) (row : Row) : Text :=
  row.withItems ((valuesOf row.inner).mapIdx (newItem targets))

/-- In how many columns the value of a row has to change. -/
def columnChanged (targets : Positions) (row : Row) : Nat :=
  ((valuesOf row.inner).mapIdx (changes targets)).count true

/-- The values of a row are aligned with its items. -/
def IsAligned (targets : Positions) (row : Row) : Prop :=
  Aligned targets 0 0 (valuesOf row.inner)

instance (row : Row) : Decidable (row.IsAligned targets) :=
  inferInstanceAs (Decidable (Aligned ..))

theorem isShut (row : Row) : IsShut row.inner :=
  row.balanced.outside

theorem balanced_newItems (row : Row) (targets : Positions) :
    Balanced .standard (Text.join [','] ((itemsOf row.inner).mapIdx (newItem targets))) := by
  refine balanced_join_newItems ?_ (fun t ht => isShut_of_mem_itemsOf row.isShut ht) targets
  rw [join_itemsOf]
  exact row.balanced

/-- What the items become, joined, is what the values become just if the values are
aligned. -/
theorem join_newItems_iff (row : Row) :
    Text.join [','] ((itemsOf row.inner).mapIdx (newItem targets)) =
        Text.join [','] ((valuesOf row.inner).mapIdx (newItem targets)) ↔
      row.IsAligned targets := by
  have hvalues : itemsOf (Text.join [','] ((valuesOf row.inner).mapIdx (newItem targets))) =
      ((valuesOf row.inner).mapIdx (newItem targets)).flatMap itemsOf :=
    itemsOf_join (by simpa using valuesOf_ne_nil row.inner) fun t =>
      isShut_of_mem_newItems fun u hu => isShut_of_mem_valuesOf row.isShut hu
  have haligned : (itemsOf row.inner).mapIdx (newItem targets) =
      ((valuesOf row.inner).mapIdx (newItem targets)).flatMap itemsOf ↔ row.IsAligned targets := by
    have hall := mapIdx_flatMap_itemsOf_iff targets 0 0 (valuesOf row.inner)
    simp only [Nat.zero_add] at hall
    rw [itemsOf_eq_flatMap row.isShut]
    exact hall
  rw [← haligned, ← hvalues]
  constructor
  · intro heq
    rw [← heq, itemsOf_join_newItems row.isShut]
  · intro heq
    rw [heq, join_itemsOf]

/-- **In an aligned row** the values that change are counted by their columns. -/
theorem changed_eq_columnChanged {row : Row} (h : row.IsAligned targets) :
    row.changed targets = row.columnChanged targets := by
  rw [changed, columnChanged, itemsOf_eq_flatMap row.isShut]
  simpa using count_changes h

theorem isAligned_of_items {row : Row} (h : valuesOf row.inner = itemsOf row.inner) :
    row.IsAligned targets := by
  refine aligned_of_items (fun value hvalue => ?_) 0
  rw [h] at hvalue
  exact itemsOf_of_mem_itemsOf row.isShut hvalue

end Row

/-- Rows that change item by item give the text of the same rows changed column by column
just if each is aligned: where the tuple of a row ends is seen in either text. -/
theorem flatMap_result_iff (rows : List Row) (rest : Text) :
    rows.flatMap (Row.result targets) ++ rest = rows.flatMap (Row.columnResult targets) ++ rest ↔
      ∀ row ∈ rows, row.IsAligned targets := by
  induction rows with
  | nil => simp
  | cons row rows ih =>
    have hvalues : Balanced .standard
        (Text.join [','] ((valuesOf row.inner).mapIdx (newItem targets))) := by
      refine balanced_join_newItems ?_ (fun t ht => isShut_of_mem_valuesOf row.isShut ht) targets
      rw [join_valuesOf]
      exact row.balanced
    rw [List.forall_mem_cons, ← ih, ← row.join_newItems_iff]
    simp only [List.flatMap_cons, Row.result, Row.columnResult, Row.withItems, List.append_assoc,
      List.cons_append, List.nil_append, List.append_cancel_left_eq, List.cons.injEq, true_and]
    constructor
    · intro heq
      exact (row.balanced_newItems targets).append_close_inj hvalues heq
    · intro h
      obtain ⟨hfirst, hothers⟩ := h
      rw [hfirst, hothers]

/-- **Columns.**  The tuples of a text change column by column just if each of them is
aligned.  A tuple is aligned if it has no comma in nested parentheses, and so its values
are its items. -/
theorem coerceTuples_eq_columns_iff (hnodup : (targets.map Prod.fst).Nodup) {rows : List Row}
    (h : Reads t rows rest) :
    (coerceTuples targets t =
        ⟨rows.flatMap (Row.columnResult targets) ++ rest,
          (rows.map (Row.columnChanged targets)).sum, unclosed rest⟩ ↔
      ∀ row ∈ rows, row.IsAligned targets) ∧
    ∀ row ∈ rows, valuesOf row.inner = itemsOf row.inner → row.IsAligned targets := by
  refine ⟨?_, fun row _ hplain => Row.isAligned_of_items hplain⟩
  rw [coerceTuples_of_reads hnodup h, Tuples.mk.injEq, flatMap_result_iff]
  constructor
  · intro h
    obtain ⟨haligned, -⟩ := h
    exact haligned
  · intro haligned
    refine ⟨haligned, ?_, rfl⟩
    rw [List.map_congr_left fun row hrow => Row.changed_eq_columnChanged (haligned row hrow)]

/-- Behind a call of two arguments column 2 is item 3. -/
theorem coerceTuples_eq_columns_iff_call :
    coerceTuples [(0, .boolean), (2, .boolean), (3, .boolean)] ", (1,f(2,3),0)".toList =
      ⟨", (TRUE,f(2,3),FALSE)".toList, 2, none⟩ := by
  have hreads : Reads ", (1,f(2,3),0)".toList
      [⟨[',', ' '], "1,f(2,3),0".toList, by decide, by decide⟩] [] := by
    refine ⟨by decide, fun row more => ?_⟩
    simp [Row.text_eq]
  exact (coerceTuples_eq_columns_iff (by decide) hreads).1.mpr (by decide)

/-- Item 1 of the tuple is an argument of the call, and column 1 is the value behind it. -/
theorem coerceTuples_changes_argument :
    coerceTuples [(1, .boolean)] "(f(2,0,3),1)".toList = ⟨"(f(2,FALSE,3),1)".toList, 1, none⟩ ∧
      (valuesOf "f(2,0,3),1".toList).mapIdx (newItem [(1, .boolean)]) =
        ["f(2,0,3)".toList, "TRUE".toList] := by
  decide

end DumpBridge.Rows
