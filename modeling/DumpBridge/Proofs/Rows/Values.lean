import DumpBridge.Table.Rows
import DumpBridge.Proofs.Literal.Items

/-!
# The values of one tuple

The inside of a tuple is cut into items at the commas outside literals
(`itemsOf`), and the items give it back (`join_itemsOf`).  `newWord?` says, for
a position and a value, which word has to stand there instead.  Changing the
targets one after another does this to every item at once, and counts each
change once (`coerceItems_eq`): no two targets share a position, as
`nodup_positions` says.
-/

namespace DumpBridge.Rows

open Line (InsertHeader)
open Literal (Lexeme lexemes flatMap_text_lexemes)

/-! ## Items -/

/-- The items of a tuple's inside: what stands between commas outside literals. -/
def itemsOf (inner : Text) : List Text :=
  ((lexemes .standard inner).splitOn (.code ',')).map (List.flatMap Lexeme.text)

/-- An inside that is not empty is cut into its items. -/
theorem items_eq_itemsOf {inner : Text} (hinner : inner ≠ []) :
    Literal.items .standard inner = itemsOf inner :=
  Literal.items_eq_map hinner

/-- The items, with commas between them, are the inside again. -/
theorem join_itemsOf (inner : Text) : Text.join [','] (itemsOf inner) = inner := by
  rw [itemsOf, ← Literal.flatMap_text_intercalate, List.intercalate_splitOn, flatMap_text_lexemes]

/-! ## Values -/

/-- The word that has to stand at a position instead of a value, if any. -/
def newWord? (targets : Positions) (i : Nat) (value : Text) : Option Text :=
  if (i, .boolean) ∈ targets ∧ value = "0".toList then some "FALSE".toList
  else if (i, .boolean) ∈ targets ∧ value = "1".toList then some "TRUE".toList
  else if (i, .enumNull) ∈ targets ∧ (value = "''".toList ∨ value = "\"\"".toList) then
    some "NULL".toList
  else none

/-- Whether the item at a position has to change. -/
def changes (targets : Positions) (i : Nat) (item : Text) : Bool :=
  (newWord? targets i (Text.trim item)).isSome

/-- What the item at a position becomes: the blanks around its value stay. -/
def newItem (targets : Positions) (i : Nat) (item : Text) : Text :=
  match newWord? targets i (Text.trim item) with
  | some word =>
    item.takeWhile Text.isBlank ++ word ++ (item.reverse.takeWhile Text.isBlank).reverse
  | none => item

variable {targets : Positions} {i j : Nat} {coercion : Coercion} {item : Text}

/-- Nothing changes where there is no target. -/
theorem newWord?_eq_none (hi : i ∉ targets.map Prod.fst) (value : Text) :
    newWord? targets i value = none := by
  have hnot : ∀ c, (i, c) ∉ targets := fun c hc => hi (List.mem_map_of_mem hc)
  simp [newWord?, hnot]

/-- A target elsewhere does not matter for a value. -/
theorem newWord?_cons_of_ne (hj : j ≠ i) (value : Text) :
    newWord? ((i, coercion) :: targets) j value = newWord? targets j value := by
  have hmem : ∀ c, (j, c) ∈ (i, coercion) :: targets ↔ (j, c) ∈ targets := by
    intro c
    simp [hj]
  simp only [newWord?, hmem]

/-- At a target's own position its replacement is the word. -/
theorem newWord?_cons_self (hi : i ∉ targets.map Prod.fst) (value : Text) :
    newWord? ((i, coercion) :: targets) i value = replacement? coercion value := by
  have hnot : ∀ c, (i, c) ∉ targets := fun c hc => hi (List.mem_map_of_mem hc)
  cases coercion <;> unfold replacement? <;> split <;> simp_all [newWord?]

theorem newItem_eq_self (hi : i ∉ targets.map Prod.fst) (item : Text) :
    newItem targets i item = item := by
  rw [newItem, newWord?_eq_none hi]

theorem newItem_cons_of_ne (hj : j ≠ i) (item : Text) :
    newItem ((i, coercion) :: targets) j item = newItem targets j item := by
  rw [newItem, newItem, newWord?_cons_of_ne hj]

/-- The item at a target is coerced. -/
theorem newItem_cons_self (hi : i ∉ targets.map Prod.fst) (item : Text) :
    newItem ((i, coercion) :: targets) i item = (coerceItem? coercion item).getD item := by
  rw [newItem, newWord?_cons_self hi, coerceItem?]
  cases replacement? coercion (Text.trim item) <;> rfl

theorem changes_eq_false (hi : i ∉ targets.map Prod.fst) (item : Text) :
    changes targets i item = false := by
  rw [changes, newWord?_eq_none hi, Option.isSome_none]

theorem changes_cons_of_ne (hj : j ≠ i) (item : Text) :
    changes ((i, coercion) :: targets) j item = changes targets j item := by
  rw [changes, changes, newWord?_cons_of_ne hj]

theorem changes_cons_self (hi : i ∉ targets.map Prod.fst) (item : Text) :
    changes ((i, coercion) :: targets) i item = (coerceItem? coercion item).isSome := by
  rw [changes, newWord?_cons_self hi, coerceItem?, Option.isSome_map]

/-! ## All targets of a tuple -/

/-- A target that leaves its item alone can be left out. -/
private theorem idle_target {items : List Text} (hi : i ∉ targets.map Prod.fst)
    (hnone : items[i]?.bind (coerceItem? coercion) = none) (j : Nat) (hj : j < items.length) :
    newItem ((i, coercion) :: targets) j items[j] = newItem targets j items[j] ∧
      changes ((i, coercion) :: targets) j items[j] = changes targets j items[j] := by
  by_cases hij : j = i
  · subst hij
    have hitem : coerceItem? coercion items[j] = none := by simpa [hj] using hnone
    rw [newItem_cons_self hi, newItem_eq_self hi, changes_cons_self hi, changes_eq_false hi, hitem]
    exact ⟨rfl, rfl⟩
  · exact ⟨newItem_cons_of_ne hij _, changes_cons_of_ne hij _⟩

/-- Two indexed maps that differ at one index only. -/
private theorem mapIdx_eq_set {α β : Type} {f g : Nat → α → β} {l : List α} {a : α}
    (hi : l[i]? = some a) (hne : ∀ j x, j ≠ i → f j x = g j x) :
    l.mapIdx f = (l.mapIdx g).set i (f i a) := by
  obtain ⟨hlt, rfl⟩ := List.getElem?_eq_some_iff.mp hi
  refine List.ext_getElem (by simp) fun j _ _ => ?_
  rw [List.getElem_mapIdx, List.getElem_set, List.getElem_mapIdx]
  split
  · next hij => subst hij; rfl
  · next hij => exact hne j _ fun h => hij h.symm

/-- **Coercing target by target** is coercing item by item, if no item is a target twice. -/
private theorem foldl_coerceAt (hnodup : (targets.map Prod.fst).Nodup) (items : List Text)
    (n : Nat) :
    targets.foldl coerceAt (items, n) =
      (items.mapIdx (newItem targets), n + (items.mapIdx (changes targets)).count true) := by
  induction targets generalizing items n with
  | nil =>
    have hitems : items.mapIdx (newItem []) = items :=
      List.ext_getElem (by simp) fun j _ _ => by simp [newItem_eq_self]
    have hcount : (items.mapIdx (changes [])).count true = 0 := by
      refine List.count_eq_zero.mpr fun h => ?_
      obtain ⟨j, hj, hchanges⟩ := List.mem_mapIdx.mp h
      simp [changes_eq_false] at hchanges
    rw [hitems, hcount, List.foldl_nil, Nat.add_zero]
  | cons target targets ih =>
    obtain ⟨i, coercion⟩ := target
    obtain ⟨hi, hrest⟩ := List.nodup_cons.mp hnodup
    rw [List.foldl_cons, coerceAt]
    cases hitem : items[i]?.bind (coerceItem? coercion) with
    | none =>
      rw [ih hrest,
        List.mapIdx_eq_mapIdx_iff.mpr fun j hj => (idle_target hi hitem j hj).1,
        List.mapIdx_eq_mapIdx_iff.mpr fun j hj => (idle_target hi hitem j hj).2]
    | some new =>
      obtain ⟨item, hget, hnew⟩ := Option.bind_eq_some_iff.mp hitem
      have hlt : i < items.length := (List.getElem?_eq_some_iff.mp hget).1
      have hitems : items.mapIdx (newItem ((i, coercion) :: targets)) =
          (items.mapIdx (newItem targets)).set i new := by
        rw [mapIdx_eq_set hget fun j x hj => newItem_cons_of_ne hj x, newItem_cons_self hi, hnew]
        rfl
      have hmarks : items.mapIdx (changes ((i, coercion) :: targets)) =
          (items.mapIdx (changes targets)).set i true := by
        rw [mapIdx_eq_set hget fun j x hj => changes_cons_of_ne hj x, changes_cons_self hi, hnew]
        rfl
      -- The mark at `i` was off before, so setting it counts one more.
      rw [ih hrest, hitems, hmarks, List.mapIdx_set, List.mapIdx_set, newItem_eq_self hi,
        changes_eq_false hi, List.count_set (by simpa), List.count_set (by simpa)]
      simp only [List.getElem_mapIdx, changes_eq_false hi]
      grind

/-- **All targets at once.**  If no two targets share a position, changing them
one after another changes every item on its own, and counts the changes. -/
theorem coerceItems_eq (hnodup : (targets.map Prod.fst).Nodup) (items : List Text) :
    coerceItems targets items =
      (items.mapIdx (newItem targets), (items.mapIdx (changes targets)).count true) := by
  rw [coerceItems, foldl_coerceAt hnodup, Nat.zero_add]

/-! ## No two targets share a position -/

/-- Positions are counted from the start. -/
private theorem le_of_mem_positionsFrom {table : Table} {start : Nat} {columns : List Text}
    (hi : i ∈ (positionsFrom table start columns).map Prod.fst) : start ≤ i := by
  fun_induction positionsFrom table start columns with
  | case1 => simp at hi
  | case2 start column rest coercion hcolumn ih =>
    rcases List.mem_cons.mp hi with rfl | hi
    · exact Nat.le_refl _
    · have := ih hi
      omega
  | case3 start column rest hcolumn ih =>
    have := ih hi
    omega

/-- **No position is listed twice.** -/
private theorem nodup_positionsFrom (table : Table) (start : Nat) (columns : List Text) :
    ((positionsFrom table start columns).map Prod.fst).Nodup := by
  fun_induction positionsFrom table start columns with
  | case1 => simp
  | case2 start column rest coercion hcolumn ih =>
    refine List.nodup_cons.mpr ⟨fun h => ?_, ih⟩
    have := le_of_mem_positionsFrom h
    omega
  | case3 start column rest hcolumn ih => exact ih

/-- No two positions of a header's rows are the same. -/
theorem nodup_positions (schema : Schema) (header : InsertHeader) :
    ((positions schema header).map Prod.fst).Nodup := by
  unfold positions
  split
  · simp
  · exact nodup_positionsFrom _ _ _

end DumpBridge.Rows
