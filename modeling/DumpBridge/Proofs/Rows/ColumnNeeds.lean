import DumpBridge.Proofs.Rows.Columns
import Mathlib.Data.List.FinRange

/-!
# What columns need

A position stands for a column, and what is done to the item there depends on the column
alone.  `Follows needs targets` says that the targets are the columns with needs, by
number; the targets of a header with a list are (`follows_positions`).

A `Tuple` has an item for each column, and a `TupleLine` is what a line starts with: such
tuples, and the rest.  Its tuples change column by column (`TupleLine.coerceTuples_text`).
If the columns change their order and the items with them, the same items change
(`coerced_permute`, `changed_permute`), and the line starts and ends as before.
-/

namespace DumpBridge.Rows

open Text (isBlank isWord)
open Line (InsertHeader)
open Line.InsertHeader (parse?)
open Literal (lexemes Balanced)

variable {schema : Schema} {table : Table} {targets : Positions} {i start : Nat} {c : Coercion}
  {item : Text} {n : Nat} {needs : Fin (n + 1) → Option Coercion}

/-! ## What a column needs -/

/-- What the values of a column need, by the name of its table. -/
def need? (schema : Schema) (table column : Text) : Option Coercion :=
  (schema.table? table).bind (columnCoercion? · column)

/-- What an item becomes if its column has a need and the item has to change. -/
def newText? (need : Option Coercion) (item : Text) : Option Text :=
  need.bind (coerceItem? · item)

/-- `Follows needs targets`: the targets are the numbers of the columns with needs. -/
def Follows (needs : Fin (n + 1) → Option Coercion) (targets : Positions) : Prop :=
  ∀ i c, (i, c) ∈ targets ↔ ∃ h : i < n + 1, needs ⟨i, h⟩ = some c

/-- A position is listed with a coercion just if its column has one. -/
theorem mem_positionsFrom {columns : List Text} :
    (i, c) ∈ positionsFrom table start columns ↔
      start ≤ i ∧ columns[i - start]?.bind (columnCoercion? table) = some c := by
  induction columns generalizing start with
  | nil => simp [positionsFrom]
  | cons column columns ih =>
    have hrest : (i, c) ∈ positionsFrom table (start + 1) columns ↔ start < i ∧
        (column :: columns)[i - start]?.bind (columnCoercion? table) = some c := by
      rw [ih]
      refine and_congr_right fun hlt => ?_
      obtain ⟨k, rfl⟩ := Nat.exists_eq_add_of_lt (show start < i from hlt)
      have hk : start + k + 1 - start = k + 1 := by omega
      have hk' : start + k + 1 - (start + 1) = k := by omega
      rw [hk, hk', List.getElem?_cons_succ]
    have hfirst : (i, c) ∈ positionsFrom table start (column :: columns) ↔
        i = start ∧ columnCoercion? table column = some c ∨
          (i, c) ∈ positionsFrom table (start + 1) columns := by
      rw [positionsFrom]
      cases columnCoercion? table column with
      | none => simp
      | some d => simp [eq_comm]
    rw [hfirst, hrest]
    rcases Nat.lt_trichotomy i start with hlt | rfl | hlt
    · simp [hlt.ne, Nat.not_lt_of_lt hlt, Nat.not_le_of_lt hlt]
    · simp
    · simp [hlt.ne', hlt, hlt.le]

/-- The targets of a header with a list are the columns of the list. -/
theorem follows_positions {header : InsertHeader} {columns : Fin (n + 1) → Text}
    (hcolumns : header.columns = some (List.ofFn columns)) :
    Follows (fun i => need? schema header.table (columns i)) (positions schema header) := by
  intro i c
  unfold positions need?
  cases htable : schema.table? header.table with
  | none => simp
  | some table =>
    rw [mem_positionsFrom, hcolumns, Option.getD_some, Nat.sub_zero, List.getElem?_ofFn]
    simp only [Nat.zero_le, true_and, Option.bind_some]
    split
    · next hi => simp [hi]
    · next hi => simp [hi]

/-- A value gets the word that its column needs. -/
theorem Follows.newWord? (h : Follows needs targets) (i : Fin (n + 1)) (value : Text) :
    newWord? targets i value = (needs i).bind (replacement? · value) := by
  cases hneed : needs i with
  | none =>
    refine newWord?_eq_none (fun hmem => ?_) value
    obtain ⟨⟨j, c⟩, htarget, hj⟩ := List.mem_map.mp hmem
    obtain ⟨hlt, hc⟩ := (h j c).mp htarget
    obtain rfl : (⟨j, hlt⟩ : Fin (n + 1)) = i := Fin.ext hj
    simp [hneed] at hc
  | some c =>
    have hmem : ∀ d, (i.val, d) ∈ targets ↔ (i.val, d) ∈ [(i.val, c)] := by
      intro d
      rw [h i.val d, List.mem_singleton, Prod.mk.injEq]
      constructor
      · intro hd
        obtain ⟨_, hd⟩ := hd
        exact ⟨rfl, Option.some.inj (hd.symm.trans hneed)⟩
      · intro hd
        exact ⟨i.isLt, hd.2 ▸ hneed⟩
    have hword : Rows.newWord? [(i.val, c)] i.val value = replacement? c value :=
      newWord?_cons_self (by simp) value
    simp only [Rows.newWord?, hmem] at hword ⊢
    exact hword

/-- An item gets the text that its column needs. -/
theorem Follows.newItem (h : Follows needs targets) (i : Fin (n + 1)) (item : Text) :
    newItem targets i item = (newText? (needs i) item).getD item := by
  rw [Rows.newItem, h.newWord?, newText?]
  cases needs i with
  | none => rfl
  | some c =>
    simp only [Option.bind_some, coerceItem?]
    cases replacement? c (Text.trim item) <;> rfl

/-- It changes just if there is such a text. -/
theorem Follows.changes (h : Follows needs targets) (i : Fin (n + 1)) (item : Text) :
    changes targets i item = (newText? (needs i) item).isSome := by
  rw [Rows.changes, h.newWord?, newText?]
  cases needs i with
  | none => rfl
  | some c => simp [coerceItem?]

/-- No target is left just if no column has a need. -/
theorem Follows.eq_nil_iff (h : Follows needs targets) : targets = [] ↔ ∀ i, needs i = none := by
  constructor
  · rintro rfl i
    refine Option.eq_none_iff_forall_ne_some.mpr fun c hc => ?_
    have hmem := (h i.val c).mpr ⟨i.isLt, hc⟩
    simp at hmem
  · intro hnone
    refine List.eq_nil_iff_forall_not_mem.mpr fun target hmem => ?_
    obtain ⟨hlt, hc⟩ := (h target.1 target.2).mp hmem
    simp [hnone] at hc

/-! ## Tuples -/

/-- A text that can be an item: it ends outside literals, its parentheses match, and it has no comma
outside literals. -/
structure IsWhole (item : Text) : Prop where
  balanced : Balanced .standard item
  no_comma : .code ',' ∉ lexemes .standard item

instance (item : Text) : Decidable (IsWhole item) :=
  decidable_of_iff (Balanced .standard item ∧ .code ',' ∉ lexemes .standard item)
    ⟨fun h => ⟨h.1, h.2⟩, fun h => ⟨h.balanced, h.no_comma⟩⟩

theorem IsPlain.isWhole (h : IsPlain item) : IsWhole item := by
  have hempty : Balanced .standard [] :=
    ⟨rfl, by simp [lexemes, Literal.lexemesFrom, Literal.opened, Literal.closed], rfl⟩
  exact ⟨hempty.of_parens h.shut h.filter_isParen, h.no_separator ',' (by simp)⟩

/-- What a whole item becomes is whole. -/
theorem IsWhole.newText (h : IsWhole item) (need : Option Coercion) :
    IsWhole ((newText? need item).getD item) := by
  cases need with
  | none => exact h
  | some c =>
    have hnew : Rows.newItem [(0, c)] 0 item = (newText? (some c) item).getD item :=
      newItem_cons_self (by simp) item
    rw [← hnew]
    rcases isPlain_newItem [(0, c)] 0 item with hsame | ⟨-, hplain⟩
    · rwa [hsame]
    · exact hplain.isWhole

/-- A tuple with an item for each column, and the gap before it. -/
structure Tuple (n : Nat) where
  gap : Text
  items : Fin (n + 1) → Text
  gap_plain : ∀ c ∈ gap, isGapChar c
  whole : ∀ i, IsWhole (items i)

namespace Tuple

/-- The tuple with its items in another order. -/
def permute (σ : Equiv.Perm (Fin (n + 1))) (t : Tuple n) : Tuple n :=
  { t with
    items := t.items ∘ σ
    whole := fun i => t.whole (σ i) }

/-- What the tuple becomes if its columns have the given needs. -/
def coerced (needs : Fin (n + 1) → Option Coercion) (t : Tuple n) : Tuple n :=
  { t with
    items := fun i => (newText? (needs i) (t.items i)).getD (t.items i)
    whole := fun i => (t.whole i).newText (needs i) }

/-- How many items of the tuple change. -/
def changed (needs : Fin (n + 1) → Option Coercion) (t : Tuple n) : Nat :=
  (List.ofFn fun i => (newText? (needs i) (t.items i)).isSome).count true

def row (t : Tuple n) : Row :=
  { gap := t.gap
    inner := Text.join [','] (List.ofFn t.items)
    gap_plain := t.gap_plain
    balanced := balanced_join (List.forall_mem_ofFn_iff.mpr fun i => (t.whole i).balanced) }

/-- The items of a tuple's row are those of the tuple. -/
theorem itemsOf_row (t : Tuple n) : itemsOf t.row.inner = List.ofFn t.items := by
  have hsingle : ∀ item ∈ List.ofFn t.items, itemsOf item = [item] :=
    List.forall_mem_ofFn_iff.mpr fun i => itemsOf_eq_singleton (t.whole i).no_comma
  have hshut : ∀ item ∈ List.ofFn t.items, IsShut item :=
    List.forall_mem_ofFn_iff.mpr fun i => (t.whole i).balanced.outside
  rw [row, itemsOf_join (by simp) hshut, List.flatMap_congr hsingle]
  exact List.flatMap_singleton' _

/-- **A row comes out** as the tuple with what its columns need. -/
theorem result_row (t : Tuple n) (h : Follows needs targets) :
    t.row.result targets = (t.coerced needs).row.text := by
  have hitems : (List.ofFn t.items).mapIdx (newItem targets) =
      List.ofFn (t.coerced needs).items := by
    refine List.ext_getElem (by simp) fun i hi _ => ?_
    rw [List.getElem_mapIdx, List.getElem_ofFn, List.getElem_ofFn]
    exact h.newItem ⟨i, by simpa using hi⟩ _
  rw [Row.result, Row.text, itemsOf_row, itemsOf_row, hitems]
  rfl

/-- As many of its values change. -/
theorem changed_row (t : Tuple n) (h : Follows needs targets) :
    t.row.changed targets = t.changed needs := by
  have hmarks : (List.ofFn t.items).mapIdx (changes targets) =
      List.ofFn fun i => (newText? (needs i) (t.items i)).isSome := by
    refine List.ext_getElem (by simp) fun i hi _ => ?_
    rw [List.getElem_mapIdx, List.getElem_ofFn, List.getElem_ofFn]
    exact h.changes ⟨i, by simpa using hi⟩ _
  rw [Row.changed, itemsOf_row, hmarks, changed]

/-- Items change with their columns, so as many change in any order. -/
theorem changed_permute (σ : Equiv.Perm (Fin (n + 1))) (t : Tuple n) :
    (t.permute σ).changed (needs ∘ σ) = t.changed needs :=
  (σ.ofFn_comp_perm fun i => (newText? (needs i) (t.items i)).isSome).count_eq true

end Tuple

/-! ## Lines of tuples -/

/-- What a gap and the tuple behind it start with, whatever the tuple. -/
theorem exists_first_of_gap {gap : Text} (hgap : ∀ c ∈ gap, isGapChar c) :
    ∃ lead d, (∀ c ∈ lead, isBlank c) ∧ d ∈ [',', '('] ∧
      ∀ more, ∃ more', gap ++ '(' :: more = lead ++ d :: more' := by
  induction gap with
  | nil => exact ⟨[], '(', by simp, by simp, fun more => ⟨more, rfl⟩⟩
  | cons c gap ih =>
    obtain ⟨hc, hgap⟩ := List.forall_mem_cons.mp hgap
    by_cases hcomma : c = ','
    · subst hcomma
      exact ⟨[], ',', by simp, by simp, fun more => ⟨gap ++ '(' :: more, rfl⟩⟩
    · obtain ⟨lead, d, hlead, hd, hfirst⟩ := ih hgap
      have hblank : isBlank c := by
        simp only [isGapChar, hcomma, Text.isAsciiBlank, Bool.or_eq_true, decide_eq_true_eq,
          false_or] at hc
        rcases hc with (((rfl | rfl) | rfl) | rfl) | rfl <;> decide
      refine ⟨c :: lead, d, List.forall_mem_cons.mpr ⟨hblank, hlead⟩, hd, fun more => ?_⟩
      obtain ⟨more', hmore⟩ := hfirst more
      exact ⟨more', by rw [List.cons_append, hmore, List.cons_append]⟩

/-- The tuples that a text starts with, and the rest of it. -/
structure TupleLine (n : Nat) where
  tuples : List (Tuple n)
  rest : Text
  longest : ∀ (row : Row) (more : Text), rest ≠ row.text ++ more

namespace TupleLine

def text (l : TupleLine n) : Text :=
  l.tuples.flatMap (·.row.text) ++ l.rest

def permute (σ : Equiv.Perm (Fin (n + 1))) (l : TupleLine n) : TupleLine n :=
  { l with tuples := l.tuples.map (Tuple.permute σ) }

def coerced (needs : Fin (n + 1) → Option Coercion) (l : TupleLine n) : TupleLine n :=
  { l with tuples := l.tuples.map (Tuple.coerced needs) }

def changed (needs : Fin (n + 1) → Option Coercion) (l : TupleLine n) : Nat :=
  (l.tuples.map (Tuple.changed needs)).sum

/-- **The tuples of a line** change column by column. -/
theorem coerceTuples_text (l : TupleLine n) (h : Follows needs targets)
    (hnodup : (targets.map Prod.fst).Nodup) :
    coerceTuples targets l.text = ⟨(l.coerced needs).text, l.changed needs, unclosed l.rest⟩ := by
  have hreads : Reads l.text (l.tuples.map Tuple.row) l.rest :=
    ⟨by rw [text, List.flatMap_map], l.longest⟩
  rw [coerceTuples_of_reads hnodup hreads, List.flatMap_map, List.map_map]
  simp only [Tuple.result_row _ h, text, coerced, changed, List.flatMap_map]
  congr 3
  funext t
  exact t.changed_row h

/-- The order of the columns does not matter for how many values change. -/
theorem changed_permute (σ : Equiv.Perm (Fin (n + 1))) (l : TupleLine n) :
    (l.permute σ).changed (needs ∘ σ) = l.changed needs := by
  simp only [changed, permute, List.map_map]
  congr 2
  funext t
  exact t.changed_permute σ

/-- **Coercing and reordering commute.** -/
theorem coerced_permute (σ : Equiv.Perm (Fin (n + 1))) (l : TupleLine n) :
    (l.permute σ).coerced (needs ∘ σ) = (l.coerced needs).permute σ := by
  simp only [coerced, permute, List.map_map]
  rfl

/-- A line ends alike in any order. -/
theorem lastSolid?_permute (σ : Equiv.Perm (Fin (n + 1))) (l : TupleLine n) (before : Text) :
    lastSolid? (before ++ (l.permute σ).text) = lastSolid? (before ++ l.text) := by
  have hrow : ∀ t : Tuple n, lastSolid? (t.permute σ).row.text = lastSolid? t.row.text := by
    intro t
    rw [Row.text, Row.text, lastSolid?_withItems, lastSolid?_withItems]
  simp only [text, permute, List.flatMap_map, lastSolid?_append, lastSolid?_flatMap_congr hrow]

theorem text_eq {l : TupleLine n} {t : Tuple n} {ts : List (Tuple n)} (hl : l.tuples = t :: ts) :
    l.text = t.gap ++ '(' :: (Text.join [','] (List.ofFn t.items) ++
      ')' :: (ts.flatMap (·.row.text) ++ l.rest)) := by
  rw [text, hl, List.flatMap_cons, Row.text_eq]
  simp [Tuple.row]

theorem parse?_text (l : TupleLine n) (hne : l.tuples ≠ []) : parse? l.text = none := by
  obtain ⟨t, ts, hl⟩ := List.exists_cons_of_ne_nil hne
  obtain ⟨lead, d, hlead, hd, hfirst⟩ := exists_first_of_gap t.gap_plain
  obtain ⟨more, hmore⟩ := hfirst _
  have hmarks : ∀ d ∈ [',', '('], isBlank d = false ∧ isWord d = false := by decide
  rw [text_eq hl, hmore]
  exact Line.parse?_eq_none_of_first hlead (hmarks d hd).1 (hmarks d hd).2 more

/-- Whether a line is looked at does not depend on the order. -/
theorem startsWith_permute (σ : Equiv.Perm (Fin (n + 1))) (l : TupleLine n) :
    Text.startsWith '(' (Text.trim (l.permute σ).text) =
      Text.startsWith '(' (Text.trim l.text) := by
  cases hl : l.tuples with
  | nil => simp [text, permute, hl]
  | cons t ts =>
    have hpermuted : (l.permute σ).tuples = t.permute σ :: ts.map (Tuple.permute σ) := by
      simp [permute, hl]
    obtain ⟨lead, d, hlead, hd, hfirst⟩ := exists_first_of_gap t.gap_plain
    have hmarks : ∀ d ∈ [',', '('], isBlank d = false := by decide
    have hstart : ∀ more,
        Text.startsWith '(' (Text.trim (t.gap ++ '(' :: more)) = decide (d = '(') := by
      intro more
      obtain ⟨more', hmore⟩ := hfirst more
      rw [hmore, Text.startsWith_trim hlead (hmarks d hd)]
    rw [text_eq hl, text_eq hpermuted, hstart]
    exact hstart _

end TupleLine

/-- A line on which a statement goes on. -/
structure FurtherLine (n : Nat) extends TupleLine n where
  no_header : tuples = [] → parse? rest = none

namespace FurtherLine

/-- Whether the tuples of the line are looked at. -/
def isRead (l : FurtherLine n) : Bool :=
  Text.startsWith '(' (Text.trim l.text)

def permute (σ : Equiv.Perm (Fin (n + 1))) (l : FurtherLine n) : FurtherLine n :=
  { l with
    toTupleLine := l.toTupleLine.permute σ
    no_header := fun hnil => l.no_header (List.map_eq_nil_iff.mp hnil) }

def coerced (needs : Fin (n + 1) → Option Coercion) (l : FurtherLine n) : FurtherLine n :=
  if l.isRead then
    { l with
      toTupleLine := l.toTupleLine.coerced needs
      no_header := fun hnil => l.no_header (List.map_eq_nil_iff.mp hnil) }
  else l

theorem parse?_text (l : FurtherLine n) : parse? l.text = none := by
  by_cases hnil : l.tuples = []
  · have htext : l.text = l.rest := by simp [TupleLine.text, hnil]
    rw [htext, l.no_header hnil]
  · exact l.toTupleLine.parse?_text hnil

theorem isRead_permute (σ : Equiv.Perm (Fin (n + 1))) (l : FurtherLine n) :
    (l.permute σ).isRead = l.isRead :=
  l.toTupleLine.startsWith_permute σ

/-- **Coercing and reordering commute.** -/
theorem coerced_permute (σ : Equiv.Perm (Fin (n + 1))) (l : FurtherLine n) :
    (l.permute σ).coerced (needs ∘ σ) = (l.coerced needs).permute σ := by
  unfold coerced
  rw [l.isRead_permute]
  split
  · simp only [permute, TupleLine.coerced_permute]
  · rfl

theorem endsStatement_permute (σ : Equiv.Perm (Fin (n + 1))) (l : FurtherLine n) :
    endsStatement (l.permute σ).text = endsStatement l.text := by
  rw [endsStatement_eq, endsStatement_eq]
  exact congrArg (fun last => decide (last = some ';')) (l.toTupleLine.lastSolid?_permute σ [])

/-- **A further line** changes column by column, if it is looked at. -/
theorem coerceLine_text (l : FurtherLine n) (h : Follows needs targets)
    (hnodup : (targets.map Prod.fst).Nodup) :
    coerceLine schema (some targets) l.text =
      { line := (l.coerced needs).text
        active := if endsStatement l.text then none else some targets
        opens := false
        changed := if l.isRead then l.changed needs else 0
        unclosed := if l.isRead then unclosed l.rest else none } := by
  rw [coerceLine_further l.parse?_text, l.coerceTuples_text h hnodup]
  simp only [isRead, coerced]
  split
  · next hread => simp only [hread, if_true]
  · next hread => simp only [hread]; rfl

/-- **A further line** in another order: the same items change. -/
theorem coerceLine_permute (l : FurtherLine n) (σ : Equiv.Perm (Fin (n + 1)))
    (h : Follows (needs ∘ σ) targets) (hnodup : (targets.map Prod.fst).Nodup) :
    coerceLine schema (some targets) (l.permute σ).text =
      { line := ((l.coerced needs).permute σ).text
        active := if endsStatement l.text then none else some targets
        opens := false
        changed := if l.isRead then l.changed needs else 0
        unclosed := if l.isRead then unclosed l.rest else none } := by
  have hchanged : (l.permute σ).changed (needs ∘ σ) = l.changed needs :=
    l.toTupleLine.changed_permute σ
  rw [(l.permute σ).coerceLine_text h hnodup, l.coerced_permute, l.endsStatement_permute,
    l.isRead_permute, hchanged]
  rfl

end FurtherLine

end DumpBridge.Rows
