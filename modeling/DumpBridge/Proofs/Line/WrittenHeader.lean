import DumpBridge.Proofs.Line.HeaderText
import DumpBridge.Proofs.Text.Bytes
import DumpBridge.Proofs.Text.LetterCase
import DumpBridge.Proofs.Text.WholeWords

/-!
# Headers as they are written

`WrittenHeader` holds all ways to write the header of an insert statement: the words
in any case, blanks between them, the table bare or between marks, and perhaps a list
of columns, each bare or between marks.  Whatever follows the header on its line, the
line is read as this header, and the rows start behind the word `VALUES`
(`parse?_writtenHeader`).

The columns are those that were written, with one exception: an empty list is read as
one column without a name.
-/

namespace DumpBridge.Line.InsertHeader

open Text (Pattern Cursor SpacedWord isBlank isWord)
open Text.Pattern
open Schema (isNameChar)

/-! ## Columns -/

/-- A column as an entry of a list: its name, perhaps between marks, and blanks around it. -/
structure ColumnEntry where
  lead : Text
  mark : Option Char
  name : Text
  trail : Text
  lead_blank : ∀ c ∈ lead, isBlank c
  mark_quote : ∀ q ∈ mark, isNameQuote q
  name_plain : ∀ c ∈ name, c ∉ Text.listMarks
  name_head : name.head?.any isBlank = false
  name_last : name.getLast?.any isBlank = false
  trail_blank : ∀ c ∈ trail, isBlank c

namespace ColumnEntry

variable (entry : ColumnEntry)

/-- The name between its marks. -/
def marked : Text :=
  entry.mark.toList ++ (entry.name ++ entry.mark.toList)

def text : Text :=
  entry.lead ++ (entry.marked ++ entry.trail)

theorem isBlank_mark {q : Char} (hq : q ∈ entry.mark) : isBlank q = false :=
  isBlank_of_isNameQuote (entry.mark_quote q hq)

/-- A marked name does not begin with a blank. -/
theorem head_marked : entry.marked.head?.any isBlank = false := by
  unfold marked
  cases hmark : entry.mark with
  | none => simpa using entry.name_head
  | some q => simpa using entry.isBlank_mark hmark

/-- It does not end in one. -/
theorem last_marked : entry.marked.getLast?.any isBlank = false := by
  unfold marked
  cases hmark : entry.mark with
  | none => simpa using entry.name_last
  | some q =>
    rw [← List.append_assoc, Option.toList_some, List.getLast?_concat]
    exact entry.isBlank_mark hmark

theorem trim_text : Text.trim entry.text = entry.marked :=
  Text.dropEndWhile_dropWhile_append entry.lead_blank entry.trail_blank entry.head_marked
    entry.last_marked

/-- Marks around a text without them are taken off it. -/
theorem trimChar_append {q : Char} {front back t : Text} (hfront : ∀ c ∈ front, c = q)
    (hback : ∀ c ∈ back, c = q) (h : q ∉ t) : Text.trimChar q (front ++ (t ++ back)) = t := by
  have hother : ∀ c ∈ t, decide (c = q) = false := by
    intro c hc
    rw [decide_eq_false_iff_not]
    intro heq
    exact h (heq ▸ hc)
  exact Text.dropEndWhile_dropWhile_append_of_forall (by simpa using hfront)
    (by simpa using hback) hother

theorem trimChar_of_not_mem {q : Char} {t : Text} (h : q ∉ t) : Text.trimChar q t = t := by
  have hkept := trimChar_append (List.forall_mem_nil (· = q)) (List.forall_mem_nil (· = q)) h
  rwa [List.nil_append, List.append_nil] at hkept

theorem not_mem_name {q : Char} (hq : q ∈ Text.listMarks) : q ∉ entry.name :=
  fun hmem => entry.name_plain q hmem hq

/-- **A column is read by its name.** -/
theorem columnName_text : columnName entry.text = entry.name := by
  have hbacktick : '\x60' ∉ entry.name := entry.not_mem_name (by decide)
  have hquote : '"' ∉ entry.name := entry.not_mem_name (by decide)
  rw [columnName, entry.trim_text, marked]
  cases hmark : entry.mark with
  | none =>
    rw [Option.toList_none, List.nil_append, List.append_nil, trimChar_of_not_mem hbacktick,
      trimChar_of_not_mem hquote]
  | some q =>
    have hq : q = '\x60' ∨ q = '"' := by
      simpa [isNameQuote] using entry.mark_quote q hmark
    rw [Option.toList_some]
    rcases hq with rfl | rfl
    · rw [trimChar_append (by simp) (by simp) hbacktick, trimChar_of_not_mem hquote]
    · have hfree : '\x60' ∉ ['"'] ++ (entry.name ++ ['"']) := by simp [hbacktick]
      rw [trimChar_of_not_mem hfree, trimChar_append (by simp) (by simp) hquote]

/-- A column has neither a comma nor a closing parenthesis. -/
theorem not_mem_text {c : Char} (hc : c = ',' ∨ c = ')') : c ∉ entry.text := by
  have hother : c ∈ Text.listMarks ∧ isBlank c = false ∧ isNameQuote c = false := by
    rcases hc with rfl | rfl <;> decide
  obtain ⟨hlist, hblank, hquote⟩ := hother
  have hmark : c ∉ entry.mark.toList := by
    intro hmem
    rw [entry.mark_quote c (Option.mem_toList.mp hmem)] at hquote
    exact absurd hquote (by decide)
  have hspace : ∀ s : Text, (∀ d ∈ s, isBlank d) → c ∉ s := by
    intro s hs hmem
    rw [hs c hmem] at hblank
    exact absurd hblank (by decide)
  simp only [text, marked, List.mem_append, not_or]
  exact ⟨hspace _ entry.lead_blank, ⟨hmark, entry.not_mem_name hlist, hmark⟩,
    hspace _ entry.trail_blank⟩

/-- A list is read as the names of its entries. -/
theorem map_columnName_cut (entries : List ColumnEntry) :
    (Text.cut ',' (Text.join [','] (entries.map text))).map columnName =
      if entries.map name = [] then [[]] else entries.map name := by
  by_cases hnil : entries = []
  · rw [hnil]
    rfl
  · have hcomma : ∀ t ∈ entries.map text, ',' ∉ t := by
      intro t ht
      obtain ⟨entry, -, rfl⟩ := List.mem_map.mp ht
      exact entry.not_mem_text (.inl rfl)
    rw [Text.cut_join (by simpa using hnil) hcomma, if_neg (by simpa using hnil), List.map_map]
    exact List.map_congr_left fun entry _ => entry.columnName_text

end ColumnEntry

/-! ## Headers -/

/-- The header of an insert statement, as it is written. -/
structure WrittenHeader where
  lead : Text
  verb : Text
  ignore : Option (SpacedWord "IGNORE")
  into : SpacedWord "INTO"
  gap : Text
  mark : Option Char
  table : Text
  space : Text
  /-- The entries of the column list, and the blanks behind it. -/
  list : Option (List ColumnEntry × Text)
  word : Text
  lead_blank : ∀ c ∈ lead, isBlank c
  verb_spells : ∃ w ∈ ["INSERT", "REPLACE"], spells w.toList verb
  gap_ne : gap ≠ []
  gap_blank : ∀ c ∈ gap, isBlank c
  mark_quote : ∀ q ∈ mark, isNameQuote q
  table_ne : table ≠ []
  table_chars : ∀ c ∈ table, isNameChar c
  space_blank : ∀ c ∈ space, isBlank c
  list_blank : ∀ l ∈ list, ∀ c ∈ l.2, isBlank c
  word_spells : spells "VALUES".toList word
  /-- A bare name does not run into the word `VALUES`. -/
  apart : mark = none → list = none → space ≠ []

namespace WrittenHeader

variable (h : WrittenHeader)

/-- What stands before the table. -/
def front : Text :=
  h.lead ++ (h.verb ++ (h.ignore.elim [] SpacedWord.text ++ (h.into.text ++ h.gap)))

/-- What stands behind it. -/
def closing : Closing where
  mark := h.mark
  space := h.space
  list := h.list.map fun l => (Text.join [','] (l.1.map ColumnEntry.text), l.2)
  word := h.word
  mark_quote := h.mark_quote
  space_blank := h.space_blank
  list_plain := by
    intro l hl
    obtain ⟨l, hlist, rfl⟩ := Option.map_eq_some_iff.mp hl
    refine ⟨Text.not_mem_join (by decide) fun t ht => ?_, h.list_blank l hlist⟩
    obtain ⟨entry, -, rfl⟩ := List.mem_map.mp ht
    exact entry.not_mem_text (.inr rfl)
  word_spells := h.word_spells

def text : Text :=
  h.front ++ (h.mark.toList ++ (h.table ++ h.closing.text))

/-- The names of the columns, if there is a list. -/
def names : Option (List Text) :=
  h.list.map fun l => l.1.map ColumnEntry.name

/-- The columns as they are read: an empty list is one column without a name. -/
def columns : Option (List Text) :=
  h.names.map fun names => if names = [] then [[]] else names

/-- **The columns are those that were written**, unless there is an empty list. -/
theorem columns_eq_names_iff : h.columns = h.names ↔ h.names ≠ some [] := by
  unfold columns
  cases h.names with
  | none => simp
  | some names =>
    by_cases hnil : names = []
    · simp [hnil]
    · simp [hnil]

/-- The list is read as the columns. -/
theorem columns_closing :
    (h.closing.list.map fun l => (Text.cut ',' l.1).map columnName) = h.columns := by
  have hlist : h.closing.list =
      h.list.map fun l => (Text.join [','] (l.1.map ColumnEntry.text), l.2) := rfl
  rw [hlist, columns, names, Option.map_map, Option.map_map]
  refine Option.map_congr fun l _ => ?_
  exact ColumnEntry.map_columnName_cut l.1

/-- The words before the table are taken. -/
theorem takes_front {next : Text} (hnext : next.head?.any isBlank = false) :
    opening.Takes none h.front next := by
  obtain ⟨w, hw, hverb⟩ := h.verb_spells
  have hkeywords : ∀ w ∈ ["INSERT", "REPLACE"], isKeyword w.toList := by decide
  have hkeyword := hkeywords w hw
  have hinto : ∀ before, (phrase " INTO ").Takes before (h.into.text ++ h.gap) next := by
    intro before
    have hparts : (letters " INTO".toList ++ letters [' ']).Takes before
        (h.into.text ++ h.gap) next := by
      refine ⟨h.into.text, h.gap, rfl, h.into.takes (by decide), h.gap, [], by simp, ?_, rfl⟩
      exact takes_gap.mpr ⟨h.gap_ne, h.gap_blank, hnext⟩
    exact takes_letters_append.mpr hparts
  have hignore : ∀ before t, (Pattern.optional (phrase " IGNORE")).Takes before
      (h.ignore.elim [] SpacedWord.text) t := by
    intro before t
    cases h.ignore with
    | none => exact Or.inr rfl
    | some ignore => exact Or.inl (ignore.takes (by decide))
  have hword : ∀ before t, (anyPhrase ["INSERT", "REPLACE"]).Takes before h.verb t :=
    fun before t =>
    takes_anyOf.mpr ⟨phrase w, List.mem_map_of_mem hw,
      (takes_letters (not_mem_of_isKeyword hkeyword)).mpr hverb⟩
  rw [opening, takes_append_assoc, takes_append_assoc]
  refine ⟨h.lead, _, rfl, ⟨h.lead_blank, ?_⟩, h.verb, _, rfl, hword _ _, _, _, rfl, hignore _ _,
    hinto _⟩
  rw [List.append_assoc]
  exact head_append_of_spells hkeyword hverb _

/-- No longer name can be read. -/
theorem isLongest_closing (rest : Text) : IsLongest (h.closing.text ++ rest) := by
  refine isLongest_of_head ?_
  by_cases hlist : h.list = none
  · cases hmark : h.mark with
    | some q =>
      have hq := h.mark_quote q hmark
      simp [closing, Closing.text, hmark, isNameChar, hq]
    | none =>
      obtain ⟨c, space, hspace⟩ := List.exists_cons_of_ne_nil (h.apart hmark hlist)
      have hc := h.space_blank c (by simp [hspace])
      simp [closing, Closing.text, hmark, hspace, isNameChar, hc]
  · exact Closing.head_of_list (by simpa [closing] using hlist) rest

/-- How the header is read off its line. -/
def reading {rest : Text} (hrest : rest.head?.any isWord = false) : Reading (h.text ++ rest) where
  front := h.front
  mark := h.mark
  name := h.table
  closing := h.closing
  rest := rest
  line_eq := by simp [text]
  front_takes := by
    refine h.takes_front ?_
    cases hmark : h.mark with
    | some q => simpa using isBlank_of_isNameQuote (h.mark_quote q hmark)
    | none =>
      obtain ⟨c, table, htable⟩ := List.exists_cons_of_ne_nil h.table_ne
      have hc := h.table_chars c (by simp [htable])
      simp only [isNameChar, Bool.and_eq_true, Bool.not_eq_true'] at hc
      simpa [htable] using hc.1.1
  mark_quote := h.mark_quote
  name_ne := h.table_ne
  name_chars := h.table_chars
  rest_edge := hrest
  longest := h.isLongest_closing rest

end WrittenHeader

/-- **Every header is read back.** A line that starts with a header, and goes on with no
letter, is read as the table and the columns that were written, and the rows start right
behind the word `VALUES`.  The one list that is not read back is the empty one, which is read
as a column without a name. -/
theorem parse?_writtenHeader (h : WrittenHeader) (rest : Text)
    (hrest : rest.head?.any isWord = false) :
    parse? (h.text ++ rest) =
        some { table := h.table, columns := h.columns, length := h.text.length } ∧
      Text.byteOffset (h.text ++ rest) h.text.length = Text.byteLength h.text ∧
      (h.columns = h.names ↔ h.names ≠ some []) := by
  refine ⟨?_, ?_, h.columns_eq_names_iff⟩
  · have hparse := (h.reading hrest).parse?_eq
    rw [Reading.header] at hparse
    rw [hparse, ← h.columns_closing]
    rfl
  · rw [Text.byteOffset, List.take_left]

/-- A table called `values` with a name of two words among its columns. -/
theorem parse?_writtenHeader_values : ∃ (h : WrittenHeader) (rest : Text),
    h.text ++ rest = "replace  Ignore INTO `values`(`a b`, \"c\")VALUES(1)".toList ∧
      parse? (h.text ++ rest) =
        some { table := h.table, columns := h.columns, length := h.text.length } ∧
      h.table = "values".toList ∧ h.columns = some ["a b".toList, "c".toList] := by
  have hspace : [' '] ≠ [] := by decide
  have hmark : ∀ c, isNameQuote c → ∀ q ∈ some c, isNameQuote q := by
    intro c hc q hq
    rwa [← Option.some.inj hq]
  have hbacktick := hmark '\x60' (by decide)
  refine ⟨⟨[], "replace".toList,
    some ⟨"  ".toList, "Ignore".toList, by decide, by decide, by decide⟩,
    ⟨[' '], "INTO".toList, hspace, Text.isBlank_of_mem_space, by decide⟩, [' '], some '\x60',
    "values".toList, [],
    some ([⟨[], some '\x60', "a b".toList, [], Text.isBlank_of_mem_nil, hbacktick,
      by decide, rfl, rfl, Text.isBlank_of_mem_nil⟩, ⟨[' '], some '"', "c".toList, [],
      Text.isBlank_of_mem_space, hmark '"' (by decide), by decide, rfl, rfl,
      Text.isBlank_of_mem_nil⟩], []),
    "VALUES".toList, Text.isBlank_of_mem_nil, ⟨"REPLACE", by decide, by decide⟩, hspace,
    Text.isBlank_of_mem_space, hbacktick, by decide, by decide, Text.isBlank_of_mem_nil, by simp,
    by decide, by simp⟩, "(1)".toList, rfl, ?_, rfl, rfl⟩
  exact (parse?_writtenHeader _ _ rfl).1

/-- An empty list is read as one column without a name. -/
theorem parse?_emptyList :
    parse? "INSERT INTO t () VALUES ()".toList =
      some { table := "t".toList, columns := some [[]], length := 23 } := by
  decide +kernel

end DumpBridge.Line.InsertHeader
