import DumpBridge.Proofs.Text.Words

/-!
# The text of a column

A line of a table definition that declares a column has a bare name, a gap, the
word of a type and whatever else is said of the column.  Such a line can be taken
for something else because of its first word, the name, but not because of the
type: no type is called as the words that follow in other clauses
(`not_fits_reserved`).
-/

namespace DumpBridge.Line

open Text (Pattern FirstWord isBlank isWord)
open Text.Pattern

/-- The pattern of the first line of a table definition, with its words in front. -/
theorem fits_tableOpener {line : Text} (hname : (tableName? line).isSome) :
    ∃ a, (blanks ++ (letters ("CREATE".toList ++ " TABLE ".toList) ++ a)).Fits none line := by
  have hstarts : tableOpener.starts line := by
    simpa [tableName?, starts] using hname
  rw [starts_iff, tableOpener] at hstarts
  simp only [fits_append_assoc] at hstarts
  exact ⟨_, hstarts⟩

/-- A character of a name without quote marks. -/
def isBare (c : Char) : Bool :=
  !isBlank c && !"\x60\"'()".toList.contains c

/-- The words that come second in other statements and clauses.  No type is called
so. -/
def secondWords : List String := ["TABLE", "COLUMN"]

/-- A column definition with a bare name. -/
structure ColumnText where
  indent : Text
  name : Text
  space : Text
  type : Text
  /-- What follows the word of the type. -/
  attributes : Text
  indent_blank : ∀ c ∈ indent, isBlank c
  name_ne : name ≠ []
  name_bare : ∀ c ∈ name, isBare c
  name_dashes : ['-', '-'].isPrefixOf name = false
  space_ne : space ≠ []
  space_blank : ∀ c ∈ space, isBlank c
  type_ne : type ≠ []
  type_word : ∀ c ∈ type, isWord c
  type_free : ∀ w ∈ secondWords, spells w.toList type = false
  attributes_head : attributes.head?.any isWord = false

namespace ColumnText

variable (c : ColumnText)

def text : Text :=
  c.indent ++ (c.name ++ (c.space ++ (c.type ++ c.attributes)))

/-- A name has no blank. -/
theorem isBlank_of_mem_name {d : Char} (hd : d ∈ c.name) : isBlank d = false := by
  have hbare := c.name_bare d hd
  rw [isBare, Bool.and_eq_true] at hbare
  simpa using hbare.1

/-- The name is the first word of the line, whatever is added at its end. -/
theorem firstWord (more : Text) :
    FirstWord (c.text ++ more) c.indent c.name (c.space ++ (c.type ++ (c.attributes ++ more))) := by
  refine ⟨by simp [text], c.indent_blank, c.name_ne, fun d hd => c.isBlank_of_mem_name hd, ?_⟩
  obtain ⟨b, space, hspace⟩ := List.exists_cons_of_ne_nil c.space_ne
  simpa [hspace] using c.space_blank b (by simp [hspace])

theorem head_type (more : Text) : (c.type ++ more).head?.any isBlank = false :=
  head_append_of_isWord c.type_ne c.type_word more

/-- No word goes on behind the type. -/
theorem head_attributes {more : Text} (hmore : more.head?.any isWord = false) :
    (c.attributes ++ more).head?.any isWord = false := by
  have hhead := c.attributes_head
  cases hattributes : c.attributes with
  | nil => simpa using hmore
  | cons d attributes => simpa [hattributes] using hhead

/-- After the name there is none of the words that come second elsewhere. -/
theorem not_fits_reserved {w : String} (hw : w ∈ secondWords) {a : Pattern}
    {before : Option Char} {more : Text} (hmore : more.head?.any isWord = false)
    (ha : ∀ before m, a.Fits before m → m.head?.any isBlank) :
    ¬ (gap ++ (letters w.toList ++ a)).Fits before
        (c.space ++ (c.type ++ (c.attributes ++ more))) := by
  have hkeyword : ∀ w ∈ secondWords, isKeyword w.toList := by decide
  have hblank : ∀ last m, isWord last → a.Fits (some last) m → m.head?.any isWord = false := by
    intro last m _ hfits
    have hm := ha _ m hfits
    cases m with
    | nil => rfl
    | cons d m => simpa using Text.isWord_eq_false_of_isBlank (by simpa using hm)
  intro hfits
  obtain ⟨space, m, hsplit, ⟨-, hspace, hm⟩, hfits⟩ := fits_gap_append.mp hfits
  obtain ⟨rfl, rfl⟩ := Text.span_inj c.space_blank hspace (c.head_type _) hm hsplit
  rw [fits_keyword_append (fun _ => id) (hkeyword w hw) hblank c.type_word
    (c.head_attributes hmore), c.type_free w hw] at hfits
  simp at hfits

/-- A column begins no table definition. -/
theorem tableName?_eq_none {more : Text} (hmore : more.head?.any isWord = false) :
    tableName? (c.text ++ more) = none := by
  cases hname : tableName? (c.text ++ more) with
  | none => rfl
  | some name =>
    obtain ⟨a, hfits⟩ := fits_tableOpener (by rw [hname]; rfl)
    obtain ⟨-, q, hfits⟩ := (c.firstWord more).spells_of_fits_table (by decide) hfits
    exact absurd hfits (c.not_fits_reserved (by decide) hmore fun _ _ => isBlank_of_fits_gap)

end ColumnText
end DumpBridge.Line
