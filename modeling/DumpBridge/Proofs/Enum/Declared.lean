import DumpBridge.Proofs.Enum.Written
import DumpBridge.Proofs.Literal.Cuts
import DumpBridge.Proofs.Literal.Matching

/-!
# Declarations are read back

The statement that creates a type writes each of its values as a literal, with the
quote marks in the value doubled.  Such a literal is one whole literal of the script
(`isLiteral_quote`) and has the value that it was made from (`decode_doubled`).  So
the statement has an enumeration in it (`EnumType.enumeration`), and a scan of the
statement finds where its list ends and reads the values back (`valueText_decodes`).
-/

namespace DumpBridge

open Text (byteLength)

namespace Literal

/-- A value with its quote marks doubled. -/
def doubled (value : Text) : Text :=
  Text.replace ['\''] ['\'', '\''] value

/-- A quoted value is its doubled marks between marks. -/
theorem quote_eq (value : Text) : quote value = '\'' :: (doubled value ++ ['\'']) := rfl

/-- A mark is doubled. -/
theorem doubled_mark (t : Text) : doubled ('\'' :: t) = '\'' :: '\'' :: doubled t :=
  Text.replace_append (List.cons_ne_nil '\'' []) _ t

theorem doubled_cons {c : Char} (hc : c ≠ '\'') (t : Text) : doubled (c :: t) = c :: doubled t :=
  Text.replace_cons_of_ne hc _ t

/-- No character of the doubled value closes the literal that it stands in. -/
theorem body_doubled (value : Text) : Body .standard '\'' (doubled value) := by
  induction value with
  | nil => exact .nil
  | cons c t ih =>
    by_cases hc : c = '\''
    · subst hc
      rw [doubled_mark]
      exact .doubled ih
    · rw [doubled_cons hc]
      exact .char (by simp [Quoting.escapes]) hc ih

/-- **A value in quote marks** is one literal of the script. -/
theorem isLiteral_quote (value : Text) : IsLiteral .standard '\'' (quote value) :=
  isLiteral_iff.mpr ⟨by decide, doubled value, body_doubled value, quote_eq value⟩

theorem decode_cons {c : Char} (hc : c ≠ '\'') (t : Text) :
    decode .standard (c :: t) = c :: decode .standard t := by
  cases t with
  | nil => rfl
  | cons d t => simp [decode, hc, Quoting.escapes]

/-- A doubled mark is read as one, and all else as it stands. -/
theorem decode_doubled (value : Text) : decode .standard (doubled value) = value := by
  induction value with
  | nil => rfl
  | cons c t ih =>
    by_cases hc : c = '\''
    · subst hc
      rw [doubled_mark, decode, if_pos (by decide), ih]
    · rw [doubled_cons hc, decode_cons hc, ih]

end Literal

open Literal

namespace EnumType

theorem spells_enum : Text.Pattern.spells "enum".toList "ENUM".toList := by
  decide

/-- An item as a declaration writes it. -/
def itemOf (lead value : Text) (hlead : ∀ c ∈ lead, Text.isBlank c) :
    Enumeration.Item .standard where
  lead := lead
  literal := quote value
  trail := []
  lead_blank := hlead
  isLiteral := isLiteral_quote value
  trail_blank := Text.isBlank_of_mem_nil

/-- **The item of a value has that value.** -/
theorem value_itemOf (lead value : Text) (hlead : ∀ c ∈ lead, Text.isBlank c) :
    (itemOf lead value hlead).value = value := by
  have hbody : (quote value).tail.dropLast = doubled value := by simp [quote_eq]
  rw [Enumeration.Item.value, itemOf, hbody, decode_doubled]

/-- The enumeration that the statement writes for a first value and others. -/
def enumeration (first : Text) (others : List Text) : Enumeration .standard where
  word := "ENUM".toList
  gap := [' ']
  first := itemOf [] first Text.isBlank_of_mem_nil
  others := others.map fun value => itemOf [' '] value Text.isBlank_of_mem_space
  spelled := spells_enum
  gap_blank := Text.isBlank_of_mem_space

/-- What stands between the parentheses of the enumeration is what the statement writes. -/
theorem inside_enumeration (name first : Text) (others : List Text) :
    (enumeration first others).inside = valueText ⟨name, first :: others⟩ := by
  change quote first ++ [] ++ (others.map fun value => itemOf [' '] value _).flatMap
      (fun item => ',' :: item.text) = Text.join [',', ' '] ((first :: others).map quote)
  rw [List.append_nil, List.flatMap_map]
  induction others generalizing first with
  | nil => simp [Text.join]
  | cons value others ih =>
    have hrest := ih value
    rw [List.map_cons] at hrest
    rw [List.map_cons, List.map_cons, List.flatMap_cons, Text.join, ← hrest]
    · simp [Enumeration.Item.text, itemOf]
    · simp

/-- **The enumeration of values has these values.** -/
theorem values_enumeration (first : Text) (others : List Text) :
    (enumeration first others).values = first :: others := by
  simp [Enumeration.values, Enumeration.items, enumeration, value_itemOf, Function.comp_def]

/-- **A declaration is read back.** The statement has the values in parentheses; whatever
stands before and after them, the parenthesis that matches the first one is the one right
behind the values, and the values are read as they were. -/
theorem valueText_decodes (type : EnumType) (hne : type.values ≠ []) :
    (∃ before after, type.createStatement = before ++ '(' :: (type.valueText ++ ')' :: after)) ∧
      (∀ before after, closingByte? .standard (before ++ '(' :: (type.valueText ++ ')' :: after))
          (byteLength before) = some (byteLength before + 1 + byteLength type.valueText)) ∧
      valueList? .standard type.valueText = some type.values := by
  obtain ⟨name, values⟩ := type
  obtain ⟨first, others, rfl⟩ := List.exists_cons_of_ne_nil hne
  have hinside := inside_enumeration name first others
  refine ⟨?_, fun before after => ?_, ?_⟩
  · refine ⟨"CREATE TYPE ".toList ++ name ++ " AS ENUM ".toList, [';'], ?_⟩
    unfold createStatement
    simp
  · have hbalanced := (enumeration first others).balanced_inside
    rw [hinside] at hbalanced
    refine closingByte?_eq_some_iff_balanced.mpr ⟨before, _, after, rfl, rfl, hbalanced, ?_⟩
    rw [Nat.add_assoc]
    rfl
  · rw [← hinside, Enumeration.valueList?_inside, values_enumeration]

/-- An empty value, a quote mark, what looks like the end of an item, and a backslash. -/
theorem valueText_decodes_marks :
    let values := [[], "'".toList, "a', (b".toList, "\\".toList]
    let text := "'', '''', 'a'', (b', '\\'".toList
    values ≠ [] ∧ closingByte? .standard ('(' :: (text ++ ");".toList)) 0 = some 25 ∧
      valueList? .standard text = some values := by
  intro values text
  have hne : values ≠ [] := by simp [values]
  have htext : valueText ⟨"mood".toList, values⟩ = text := by decide
  obtain ⟨-, hclosing, hvalues⟩ := valueText_decodes ⟨"mood".toList, values⟩ hne
  have hfound := hclosing [] [';']
  rw [htext] at hfound hvalues
  exact ⟨hne, hfound, hvalues⟩

end EnumType
end DumpBridge
