import DumpBridge.Enum.Catalog
import DumpBridge.Proofs.Text.Characters

/-!
# The types of a dump

A catalog has a type for every list of values that a line declares
(`exists_get?_ofLines`), and no others (`exists_of_mem_ofLines`).  The name of a
type is the prefix and some digits of a digest (`exists_nameOf`), so a name is
never blank and has the line feeds of the prefix only.
-/

namespace DumpBridge

open Text (isKeyChar)

/-- A digest is written with digits and letters. -/
theorem Text.Digest.isKeyChar_of_mem_hex {bytes : List UInt8} {c : Char} (hc : c ∈ hex bytes) :
    isKeyChar c := by
  have hdigit : ∀ n < 16, isKeyChar (hexDigit n) := by decide
  obtain ⟨b, -, hc⟩ := List.mem_flatMap.mp hc
  have hb : b.toNat < 256 := b.toNat_lt
  rcases List.mem_cons.mp hc with rfl | hc
  · exact hdigit _ (by omega)
  · rw [List.mem_singleton.mp hc]
    exact hdigit _ (by omega)

theorem Text.Digest.sha256_ne_nil (message : List UInt8) : sha256 message ≠ [] := by
  simp [sha256, bigEndian]

namespace EnumType

/-- The name of a type is the prefix and some digits. -/
theorem exists_nameOf (start : Text) (values : List Text) :
    ∃ digits, nameOf start values = start ++ digits ∧ digits ≠ [] ∧
      ∀ c ∈ digits, isKeyChar c := by
  refine ⟨_, rfl, ?_, ?_⟩
  · obtain ⟨b, bytes, hbytes⟩ :=
      List.exists_cons_of_ne_nil (Text.Digest.sha256_ne_nil (key values).toBytes)
    simp [hbytes, Text.Digest.hex]
  · intro c hc
    exact Text.Digest.isKeyChar_of_mem_hex (List.mem_of_mem_take hc)

theorem nameOf_congr {start : Text} {values others : List Text} (h : key values = key others) :
    nameOf start values = nameOf start others := by
  rw [nameOf, nameOf, h]

end EnumType

namespace EnumCatalog

variable {start : Text} {catalog : EnumCatalog} {values others : List Text}
  {lists : List (List Text)} {type : EnumType}

/-! ## One more list of values -/

/-- What the catalog has stays when values are put in. -/
theorem get?_insert_of_some (h : catalog.get? values = some type) (others : List Text) :
    (insert start catalog others).get? values = some type := by
  unfold insert
  split
  · exact h
  · rw [get?] at h ⊢
    rw [List.find?_append, h, Option.some_or]

/-- Values that are put in are found. -/
theorem exists_get?_insert (start : Text) (catalog : EnumCatalog) (values : List Text) :
    ∃ type, (insert start catalog values).get? values = some type := by
  unfold insert
  split
  · next type htype => exact ⟨type, htype⟩
  · next hnone =>
    rw [get?] at hnone ⊢
    rw [List.find?_append, hnone]
    exact ⟨.ofValues start values, by simp [EnumType.ofValues]⟩

/-- Putting values in adds their type at most. -/
theorem mem_types_insert (h : type ∈ (insert start catalog values).types) :
    type ∈ catalog.types ∨ type = .ofValues start values := by
  unfold insert at h
  split at h
  · exact Or.inl h
  · simpa using h

/-! ## All lists -/

/-- What the catalog has stays when many are put in. -/
theorem get?_foldl_of_some (h : catalog.get? values = some type) :
    (lists.foldl (insert start) catalog).get? values = some type := by
  induction lists generalizing catalog with
  | nil => exact h
  | cons others lists ih => exact ih (get?_insert_of_some h others)

/-- All of them are found. -/
theorem exists_get?_foldl (start : Text) (h : values ∈ lists) (catalog : EnumCatalog) :
    ∃ type, (lists.foldl (insert start) catalog).get? values = some type := by
  induction lists generalizing catalog with
  | nil => simp at h
  | cons others lists ih =>
    rw [List.foldl_cons]
    rcases List.mem_cons.mp h with rfl | h
    · obtain ⟨type, htype⟩ := exists_get?_insert start catalog values
      exact ⟨type, get?_foldl_of_some htype⟩
    · exact ih h _

/-- **Every type of the catalog** was there before, or is that of values that were put in. -/
theorem mem_types_foldl (h : type ∈ (lists.foldl (insert start) catalog).types) :
    type ∈ catalog.types ∨ ∃ values ∈ lists, type = .ofValues start values := by
  induction lists generalizing catalog with
  | nil => exact Or.inl h
  | cons values lists ih =>
    rcases ih h with h | ⟨others, hothers, htype⟩
    · rcases mem_types_insert h with h | h
      · exact Or.inl h
      · exact Or.inr ⟨values, by simp, h⟩
    · exact Or.inr ⟨others, by simp [hothers], htype⟩

/-- **Every type of a dump** has the values of an enumeration on some line. -/
theorem exists_of_mem_ofLines {lines : List Text} (h : type ∈ (ofLines start lines).types) :
    ∃ line ∈ lines, ∃ values ∈ declared line, type = .ofValues start values := by
  rcases mem_types_foldl h with h | ⟨values, hvalues, htype⟩
  · simp [empty] at h
  · obtain ⟨line, hline, hvalues⟩ := List.mem_flatMap.mp hvalues
    exact ⟨line, hline, values, hvalues, htype⟩

theorem mem_of_get? (h : catalog.get? values = some type) :
    type ∈ catalog.types ∧ EnumType.key type.values = EnumType.key values :=
  ⟨List.mem_of_find?_eq_some h, by simpa using List.find?_some h⟩

/-- The values of a type, found, give its name. -/
theorem name_of_get?_ofLines {lines : List Text}
    (h : (ofLines start lines).get? values = some type) :
    type.name = EnumType.nameOf start values := by
  obtain ⟨hmem, hkey⟩ := mem_of_get? h
  obtain ⟨line, -, others, -, rfl⟩ := exists_of_mem_ofLines hmem
  exact EnumType.nameOf_congr hkey

/-- **Every enumeration of a dump** has its type, under the name of its values. -/
theorem exists_get?_ofLines {lines : List Text} {line : Text} (hline : line ∈ lines)
    (hvalues : values ∈ declared line) :
    ∃ type, (ofLines start lines).get? values = some type ∧
      type.name = EnumType.nameOf start values := by
  obtain ⟨type, htype⟩ := exists_get?_foldl start
    (List.mem_flatMap.mpr ⟨line, hline, hvalues⟩) empty
  exact ⟨type, htype, name_of_get?_ofLines htype⟩

end EnumCatalog
end DumpBridge
