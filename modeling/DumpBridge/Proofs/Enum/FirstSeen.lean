import DumpBridge.Proofs.Enum.Catalog
import Mathlib.Data.List.Induction
import Mathlib.Data.Set.Function

/-!
# The lists of a dump, each where it is first seen

`EnumType.firstSeen` says which of some lists of values are kept: those whose key no
earlier list has.  One more list only adds itself, if at all (`firstSeen_concat`), so
the catalog of a dump holds the lists first seen, and what more lines bring comes
behind (`types_foldl_insert`).

A catalog may be kept with an index from keys to places.  `IndexedCatalog` is filled by
the same loop, over lines and over the enumerations on a line.  That a key has a place
just if the type at that place has the key is an invariant of the loop (`Indexes`), and
so the index and the list of types never disagree (`get?_eq`).
-/

namespace DumpBridge

/-! ## Lists first seen -/

namespace EnumType

/-- The lists whose key no earlier one has, in order. -/
def firstSeen (lists : List (List Text)) : List (List Text) :=
  (lists.zipIdx.filter fun entry =>
    (lists.take entry.2).all fun earlier => key earlier != key entry.1).map Prod.fst

/-- **One more list** is kept if its key is new, and changes nothing else. -/
theorem firstSeen_concat (lists : List (List Text)) (values : List Text) :
    firstSeen (lists ++ [values]) =
      firstSeen lists ++ if ∃ earlier ∈ lists, key earlier = key values then [] else [values] := by
  have hearlier : ∀ entry ∈ lists.zipIdx,
      ((lists ++ [values]).take entry.2).all (fun earlier => key earlier != key entry.1) =
        (lists.take entry.2).all fun earlier => key earlier != key entry.1 := by
    intro entry hentry
    have hlt := List.snd_lt_of_mem_zipIdx hentry
    rw [List.take_append_of_le_length (by omega)]
  have hlast : (lists ++ [values]).take (0 + lists.length) = lists := by simp
  rw [firstSeen, List.zipIdx_append, List.filter_append, List.map_append,
    List.filter_congr hearlier, List.zipIdx_singleton, List.filter_singleton, hlast]
  by_cases hseen : ∃ earlier ∈ lists, key earlier = key values
  · have hold : (lists.all fun earlier => key earlier != key values) = false := by
      simpa using hseen
    simp only [hold, if_pos hseen]
    rfl
  · have hnew : (lists.all fun earlier => key earlier != key values) := by
      simpa using hseen
    simp only [hnew, if_neg hseen]
    rfl

/-- Of a list, a key was kept just if the list had it. -/
theorem exists_mem_firstSeen_iff (lists : List (List Text)) (k : Text) :
    (∃ kept ∈ firstSeen lists, key kept = k) ↔ ∃ values ∈ lists, key values = k := by
  induction lists using List.reverseRecOn with
  | nil => simp [firstSeen]
  | append_singleton lists last ih =>
    rw [firstSeen_concat]
    simp only [List.mem_append, or_and_right, exists_or, ih]
    split
    · next hseen =>
      -- A key that comes again was there before.
      have hagain : (∃ values ∈ [last], key values = k) → ∃ values ∈ lists, key values = k := by
        rintro ⟨values, hvalues, rfl⟩
        rw [List.mem_singleton.mp hvalues]
        exact hseen
      simpa using hagain
    · rfl

/-- **Keys tell lists apart**, if no value has the separator in it. -/
theorem injOn_key :
    Set.InjOn key {values | values ≠ [] ∧ ∀ value ∈ values, keySeparator ∉ value} := by
  rintro values ⟨hne, hvalues⟩ others ⟨hne', hothers⟩ hkey
  rw [← Text.cut_join hne hvalues, ← Text.cut_join hne' hothers]
  exact congrArg (Text.cut keySeparator) hkey

end EnumType

open EnumType (key firstSeen)

/-! ## The catalog -/

namespace EnumCatalog

variable {catalog : EnumCatalog} {values : List Text}

theorem get?_eq_none_iff : catalog.get? values = none ↔
    ¬ ∃ type ∈ catalog.types, key type.values = key values := by
  simp [get?]

/-- What comes in comes behind what is there. -/
theorem types_prefix_insert (start : Text) (catalog : EnumCatalog) (values : List Text) :
    catalog.types <+: (insert start catalog values).types := by
  unfold insert
  split
  · exact List.prefix_refl _
  · exact List.prefix_append _ _

/-- **The catalog of some lists** has the types of those first seen. -/
theorem types_foldl_insert (start : Text) (lists : List (List Text)) :
    (lists.foldl (insert start) empty).types = (firstSeen lists).map (.ofValues start) := by
  induction lists using List.reverseRecOn with
  | nil => rfl
  | append_singleton lists values ih =>
    have hknown :
        (∃ type ∈ (lists.foldl (insert start) empty).types, key type.values = key values) ↔
        ∃ earlier ∈ lists, key earlier = key values := by
      rw [ih, ← EnumType.exists_mem_firstSeen_iff]
      simp [EnumType.ofValues]
    rw [List.foldl_append, List.foldl_cons, List.foldl_nil, insert, EnumType.firstSeen_concat]
    cases hget : (lists.foldl (insert start) empty).get? values with
    | none =>
      have hnew := (not_congr hknown).mp (get?_eq_none_iff.mp hget)
      simp [ih, hnew]
    | some type =>
      have hseen := hknown.mp ⟨type, mem_of_get? hget⟩
      simp [ih, hseen]

theorem types_prefix_foldl (start : Text) (catalog : EnumCatalog) (lists : List (List Text)) :
    catalog.types <+: (lists.foldl (insert start) catalog).types := by
  induction lists generalizing catalog with
  | nil => exact List.prefix_refl _
  | cons values lists ih => exact (types_prefix_insert start catalog values).trans (ih _)

/-- The lists that a dump declares are the enumerations on its lines, comments and rows left out. -/
theorem flatMap_declared (lines : List Text) :
    lines.flatMap declared =
      (lines.filter fun line => !(Line.isComment line || Line.isData line)).flatMap
        (EnumType.valueLists .mysql) := by
  induction lines with
  | nil => rfl
  | cons line lines ih =>
    rw [List.flatMap_cons, ih, List.filter_cons, declared]
    cases Line.isComment line || Line.isData line <;> rfl

end EnumCatalog

/-! ## The catalog with an index -/

/-- Types in order, and the places of their keys. -/
structure IndexedCatalog where
  types : List EnumType
  place? : Text → Option Nat

namespace IndexedCatalog

variable {catalog : IndexedCatalog} {values : List Text} {type : EnumType}

/-- The catalog without types. -/
def empty : IndexedCatalog :=
  { types := [], place? := fun _ => none }

/-- Adds a type and the place of its key, unless the key has a place. -/
def insert (start : Text) (catalog : IndexedCatalog) (values : List Text) : IndexedCatalog :=
  match catalog.place? (key values) with
  | some _ => catalog
  | none =>
    { types := catalog.types ++ [.ofValues start values]
      place? := fun k => if k = key values then some catalog.types.length else catalog.place? k }

/-- Adds the enumerations of a line, unless it is a comment or has rows. -/
def readLine (start : Text) (catalog : IndexedCatalog) (line : Text) : IndexedCatalog :=
  if Line.isComment line || Line.isData line then catalog
  else (EnumType.valueLists .mysql line).foldl (insert start) catalog

/-- The catalog of a dump. -/
def ofLines (start : Text) (lines : List Text) : IndexedCatalog :=
  lines.foldl (readLine start) empty

/-- The type at the place of the key of some values. -/
def get? (catalog : IndexedCatalog) (values : List Text) : Option EnumType :=
  (catalog.place? (key values)).bind fun i => catalog.types[i]?

/-- A key has a place just if the type at that place has the key. -/
def Indexes (catalog : IndexedCatalog) : Prop :=
  ∀ k i, catalog.place? k = some i ↔
    ∃ type : EnumType, catalog.types[i]? = some type ∧ key type.values = k

theorem indexes_empty : Indexes empty := by
  intro k i
  simp [empty]

/-- **One more list** keeps the index right. -/
theorem Indexes.insert (h : catalog.Indexes) (start : Text) (values : List Text) :
    (insert start catalog values).Indexes := by
  unfold IndexedCatalog.insert
  split
  · exact h
  · next hnone =>
    -- No type has the new key, so the new place is its only one.
    have hnew : ∀ (i : Nat) (type : EnumType), catalog.types[i]? = some type →
        key type.values ≠ key values := by
      intro i type htype hkey
      have hplace := (h (key values) i).mpr ⟨type, htype, hkey⟩
      simp [hnone] at hplace
    have hconcat : ∀ i : Nat, (catalog.types ++ [EnumType.ofValues start values])[i]? =
        if i = catalog.types.length then some (.ofValues start values) else catalog.types[i]? := by
      grind
    intro k i
    simp only [hconcat]
    by_cases hk : k = key values
    · subst hk
      rw [if_pos rfl]
      by_cases hi : i = catalog.types.length
      · simp [hi, EnumType.ofValues]
      · simp only [hi, if_false]
        refine iff_of_false (by simpa using Ne.symm hi) ?_
        rintro ⟨type, htype, hkey⟩
        exact hnew i type htype hkey
    · rw [if_neg hk, h k i]
      by_cases hi : i = catalog.types.length
      · simp [hi, EnumType.ofValues, Ne.symm hk]
      · simp [hi]

/-- **The index stays right** when many values are put in. -/
theorem Indexes.foldl (h : catalog.Indexes) (start : Text) (lists : List (List Text)) :
    (lists.foldl (IndexedCatalog.insert start) catalog).Indexes := by
  induction lists generalizing catalog with
  | nil => exact h
  | cons values lists ih => exact ih (h.insert start values)

/-- The nested loops go over all lists that the dump declares. -/
theorem ofLines_eq_foldl (start : Text) (lines : List Text) :
    ofLines start lines = (lines.flatMap EnumCatalog.declared).foldl (insert start) empty := by
  unfold ofLines
  generalize empty = catalog
  induction lines generalizing catalog with
  | nil => rfl
  | cons line lines ih =>
    rw [List.foldl_cons, ih, List.flatMap_cons, List.foldl_append, readLine, EnumCatalog.declared]
    cases Line.isComment line || Line.isData line <;> rfl

/-- **A lookup by the index** finds the one type with the key. -/
theorem Indexes.get?_eq_some_iff (h : catalog.Indexes) :
    catalog.get? values = some type ↔ type ∈ catalog.types ∧ key type.values = key values := by
  rw [get?, Option.bind_eq_some_iff]
  constructor
  · rintro ⟨i, hplace, htype⟩
    obtain ⟨found, hfound, hkey⟩ := (h _ i).mp hplace
    obtain rfl : found = type := Option.some.inj (hfound.symm.trans htype)
    exact ⟨List.mem_of_getElem? htype, hkey⟩
  · rintro ⟨hmem, hkey⟩
    obtain ⟨i, htype⟩ := List.mem_iff_getElem?.mp hmem
    exact ⟨i, (h _ i).mpr ⟨type, htype, hkey⟩, htype⟩

/-- A lookup by the index finds what a search of the types finds. -/
theorem Indexes.get?_eq (h : catalog.Indexes) (values : List Text) :
    catalog.get? values = EnumCatalog.get? ⟨catalog.types⟩ values := by
  cases hget : EnumCatalog.get? ⟨catalog.types⟩ values with
  | some type => exact h.get?_eq_some_iff.mpr (EnumCatalog.mem_of_get? hget)
  | none =>
    refine Option.eq_none_iff_forall_ne_some.mpr fun type htype => ?_
    exact EnumCatalog.get?_eq_none_iff.mp hget ⟨type, h.get?_eq_some_iff.mp htype⟩

/-- The same types are there with an index and without. -/
theorem Indexes.types_insert (h : catalog.Indexes) (start : Text) (values : List Text) :
    (IndexedCatalog.insert start catalog values).types =
      (EnumCatalog.insert start ⟨catalog.types⟩ values).types := by
  rw [EnumCatalog.insert, ← h.get?_eq]
  unfold IndexedCatalog.insert
  cases hplace : catalog.place? (key values) with
  | none => simp [get?, hplace]
  | some i =>
    obtain ⟨type, htype, -⟩ := (h _ i).mp hplace
    simp [get?, hplace, htype]

/-- **With its index the catalog gets the same types.** -/
theorem Indexes.types_foldl (h : catalog.Indexes) (start : Text) (lists : List (List Text)) :
    (lists.foldl (IndexedCatalog.insert start) catalog).types =
      (lists.foldl (EnumCatalog.insert start) ⟨catalog.types⟩).types := by
  induction lists generalizing catalog with
  | nil => rfl
  | cons values lists ih =>
    rw [List.foldl_cons, List.foldl_cons, ih (h.insert start values), h.types_insert]

/-- **The index of a dump's catalog** is right, and has the types of the dump. -/
theorem indexes_ofLines (start : Text) (lines : List Text) :
    (ofLines start lines).Indexes ∧
      (ofLines start lines).types = (EnumCatalog.ofLines start lines).types := by
  rw [ofLines_eq_foldl]
  exact ⟨indexes_empty.foldl start _, indexes_empty.types_foldl start _⟩

end IndexedCatalog

/-! ## The catalog of a dump -/

/-- **First seen, first kept.**  The types of a dump are those of the lists on its
lines, in order, without the lists whose key an earlier one has.  A lookup finds the
one type with the key of the values, by a search and by the index alike; keys of lists
without the separator tell the lists apart; and more lines leave the types that are
there in front. -/
theorem EnumCatalog.types_ofLines_firstSeen (start : Text) (lines : List Text) :
    let catalog := EnumCatalog.ofLines start lines
    let indexed := IndexedCatalog.ofLines start lines
    let solid := lines.filter fun line => !(Line.isComment line || Line.isData line)
    catalog.types = (firstSeen (solid.flatMap (EnumType.valueLists .mysql))).map (.ofValues start) ∧
      (∀ values type, catalog.get? values = some type ↔
        type ∈ catalog.types ∧ key type.values = key values) ∧
      indexed.types = catalog.types ∧
      indexed.Indexes ∧
      (∀ values, indexed.get? values = catalog.get? values) ∧
      Set.InjOn key {values | values ≠ [] ∧ ∀ value ∈ values, EnumType.keySeparator ∉ value} ∧
      ∀ more, catalog.types <+: (EnumCatalog.ofLines start (lines ++ more)).types := by
  intro catalog indexed solid
  obtain ⟨hindexes, htypes⟩ := IndexedCatalog.indexes_ofLines start lines
  have hget : ∀ values, indexed.get? values = catalog.get? values := by
    intro values
    rw [hindexes.get?_eq, htypes]
  refine ⟨?_, ?_, htypes, hindexes, hget, EnumType.injOn_key, ?_⟩
  · rw [← flatMap_declared]
    exact types_foldl_insert start _
  · intro values type
    rw [← hget, hindexes.get?_eq_some_iff, htypes]
  · intro more
    have hmore := types_prefix_foldl start catalog (more.flatMap declared)
    rwa [EnumCatalog.ofLines, List.flatMap_append, List.foldl_append]

end DumpBridge
