import DumpBridge.Proofs.Line.HeaderText
import DumpBridge.Proofs.Rows.Statements
import DumpBridge.Proofs.Table.Redefinition
import DumpBridge.Proofs.Text.LetterCase

/-!
# A list of columns for a header

A header without a list of columns stands for the columns of its table, in their order.
`Listing schema line` is a list that says the same: its entries write the names of the
table's columns, in any case.  Put into the header, it gives the rows the positions that
they had (`positions_listed`), so all values change as they did (`coerceLine_put`).

A name of a column that was read off a script has no blanks and no marks, in any case.
So it can be an entry as it is (`forall₂_writes`).
-/

namespace DumpBridge.Rows

open Text (isBlank sameAsciiLetters)
open Schema (continuesName)
open Line (InsertHeader)
open Line.InsertHeader
  (columnName parse? insertAt insertAt_append length_insertAt wordStart
  wordStart_le parse?_insertAt exists_reading)

variable {schema : Schema} {table : Table} {line : Text} {header : InsertHeader}

/-! ## Entries -/

/-- `Writes entry column`: the entry of a list is read as the column, in any case. -/
structure Writes (entry column : Text) : Prop where
  no_comma : ',' ∉ entry
  no_paren : ')' ∉ entry
  same : sameAsciiLetters (columnName entry) column

theorem plain_of_writes {entries layout : List Text} (h : List.Forall₂ Writes entries layout) :
    ∀ entry ∈ entries, ',' ∉ entry ∧ ')' ∉ entry := by
  induction h with
  | nil => simp
  | cons hfirst _ ih => exact List.forall_mem_cons.mpr ⟨⟨hfirst.no_comma, hfirst.no_paren⟩, ih⟩

/-- What a column needs does not depend on the case of its name. -/
theorem columnCoercion?_congr {column column' : Text} (h : sameAsciiLetters column column') :
    columnCoercion? table column = columnCoercion? table column' := by
  have hkind : ∀ kind, table.columnHasKind column kind = table.columnHasKind column' kind := by
    intro kind
    simp only [Table.columnHasKind, Text.lower_congr h]
  rw [columnCoercion?, columnCoercion?, hkind, hkind]

/-- Columns that need the same have the same positions. -/
theorem positionsFrom_congr {columns columns' : List Text}
    (h : List.Forall₂ (fun c c' => columnCoercion? table c = columnCoercion? table c')
      columns columns') (start : Nat) :
    positionsFrom table start columns = positionsFrom table start columns' := by
  induction h generalizing start with
  | nil => rfl
  | cons hfirst _ ih => simp only [positionsFrom, hfirst, ih]

/-- **A list that writes the table's columns** gives the positions that the table gives. -/
theorem positions_listed {layout entries : List Text} (hnone : header.columns = none)
    (hlayout : schema.layout? header.table = some layout)
    (hentries : List.Forall₂ Writes entries layout) (length : Nat) :
    positions schema { table := header.table
                       columns := some ((Text.cut ',' (Text.join [','] entries)).map columnName)
                       length := length } =
      positions schema header := by
  obtain ⟨table, htable, rfl⟩ := Option.map_eq_some_iff.mp hlayout
  simp only [positions, htable, hnone, Option.getD_some, Option.getD_none]
  by_cases hnil : entries = []
  · -- An empty list names one column, which a table without columns has not.
    subst hnil
    have hcolumns : table.columns = [] := by simpa using hentries
    simp [hcolumns, Text.join, Text.cut, Text.cutFrom, positionsFrom, columnCoercion?,
      Table.columnHasKind]
  · rw [Text.cut_join hnil fun entry hentry => (plain_of_writes hentries entry hentry).1]
    refine positionsFrom_congr ?_ 0
    rw [List.forall₂_map_left_iff]
    exact hentries.imp fun entry column hwrites => columnCoercion?_congr hwrites.same

/-! ## The names of a script's columns -/

/-- What continues a name can stand in a list. -/
theorem isListable_of_continuesName {c : Char} (hc : continuesName c) :
    Text.isListable c := by
  have hblank : isBlank c = false := by
    rw [continuesName, Bool.or_eq_true, decide_eq_true_eq] at hc
    rcases hc with hword | rfl
    · exact Text.isBlank_eq_false_of_isWord hword
    · decide
  have hmarks : ∀ m ∈ Text.listMarks, continuesName m = false := by decide
  have hmark : c ∉ Text.listMarks := fun hmem => by simp [hmarks c hmem] at hc
  simp [Text.isListable, hblank, hmark]

/-- A name without blanks and marks is read off a list as it is. -/
theorem columnName_of_isListable {name : Text} (h : ∀ c ∈ name, Text.isListable c) :
    columnName name = name := by
  have hmark : ∀ m, Text.isListable m = false → ∀ c ∈ name, decide (c = m) = false := by
    intro m hm c hc
    rw [decide_eq_false_iff_not]
    rintro rfl
    simp [h c hc] at hm
  have hblank : ∀ c ∈ name, isBlank c = false := by
    intro c hc
    have hlistable := h c hc
    rw [Text.isListable, Bool.and_eq_true, Bool.not_eq_true'] at hlistable
    exact hlistable.1
  have htrim : Text.trim name = name := Text.dropEndWhile_dropWhile_of_forall hblank
  rw [columnName, htrim, Text.trimChar, Text.trimChar,
    Text.dropEndWhile_dropWhile_of_forall (hmark _ (by decide)),
    Text.dropEndWhile_dropWhile_of_forall (hmark _ (by decide))]

/-- A name that can stand in a list is written as it is, in any case of letters. -/
theorem writes_of_isListable {name column : Text} (h : ∀ c ∈ column, Text.isListable c)
    (hsame : sameAsciiLetters name column) : Writes name column := by
  have hname := Text.isListable_of_sameAsciiLetters hsame h
  refine ⟨fun hc => ?_, fun hc => ?_, ?_⟩
  · exact absurd (hname _ hc) (by decide)
  · exact absurd (hname _ hc) (by decide)
  · rwa [columnName_of_isListable hname]

/-- **The columns of a script** can be listed by their names, in any case. -/
theorem forall₂_writes {catalog : EnumCatalog} {script : List Text} {name : Text}
    {names layout : List Text}
    (hlayout : (Schema.ofLines catalog script).layout? name = some layout)
    (hnames : List.Forall₂ (fun n c => sameAsciiLetters n c = true) names layout) :
    List.Forall₂ Writes names layout := by
  obtain ⟨table, htable, rfl⟩ := Option.map_eq_some_iff.mp hlayout
  have hfolded := (Schema.invariant_ofLines catalog script).folded table
    (List.mem_of_find?_eq_some htable)
  have hlistable : ∀ column ∈ table.columns.map (·.name), ∀ c ∈ column, Text.isListable c := by
    refine List.forall_mem_map.mpr fun column hcolumn => ?_
    obtain ⟨n, hn, hname⟩ := hfolded.columns column hcolumn
    rw [hname]
    exact Text.isListable_of_mem_lower fun c hc => isListable_of_continuesName (hn c hc)
  generalize table.columns.map (·.name) = layout at hnames hlistable
  induction hnames with
  | nil => exact .nil
  | cons hfirst _ ih =>
    obtain ⟨hcolumn, hothers⟩ := List.forall_mem_cons.mp hlistable
    exact .cons (writes_of_isListable hcolumn hfirst) (ih hothers)

/-! ## A list in a header -/

/-- A list of columns for a line whose header has none. -/
structure Listing (schema : Schema) (line : Text) where
  header : InsertHeader
  /-- The names of the table's columns. -/
  layout : List Text
  entries : List Text
  space : Text
  gap : Text
  parsed : parse? line = some header
  unlisted : header.columns = none
  known : schema.layout? header.table = some layout
  entries_write : List.Forall₂ Writes entries layout
  space_blank : ∀ c ∈ space, isBlank c
  gap_blank : ∀ c ∈ gap, isBlank c

namespace Listing

/-- The list, with the blanks around it. -/
def text (l : Listing schema line) : Text :=
  l.space ++ '(' :: (Text.join [','] l.entries ++ ')' :: l.gap)

/-- Puts the list before the word `VALUES` of a line that starts with the header. -/
def put (l : Listing schema line) (t : Text) : Text :=
  insertAt (wordStart l.header) l.text t

theorem put_append (l : Listing schema line) {t : Text} (ht : t.length = l.header.length)
    (rest : Text) : l.put (t ++ rest) = l.put t ++ rest :=
  insertAt_append (ht ▸ wordStart_le l.header) l.text rest

/-- The header with the list. -/
def listed (l : Listing schema line) : InsertHeader :=
  { table := l.header.table
    columns := some ((Text.cut ',' (Text.join [','] l.entries)).map columnName)
    length := l.header.length + l.text.length }

/-- **With the list, the line is read as the header with these columns.** -/
theorem parse?_put (l : Listing schema line) : parse? (l.put line) = some l.listed := by
  have hparen : ')' ∉ Text.join [','] l.entries :=
    Text.not_mem_join (by decide) fun entry hentry =>
      (plain_of_writes l.entries_write entry hentry).2
  exact parse?_insertAt l.parsed l.unlisted hparen l.space_blank l.gap_blank

/-- **The positions are the same** with the list and without. -/
theorem positions_eq (l : Listing schema line) :
    positions schema l.listed = positions schema l.header :=
  positions_listed l.unlisted l.known l.entries_write _

theorem length_take (l : Listing schema line) :
    (line.take l.header.length).length = l.header.length := by
  obtain ⟨r, hr⟩ := exists_reading l.parsed
  rw [← hr, r.take_header]
  rfl

/-- The list stands before a word, so it does not change how the line ends. -/
theorem endsStatement_put (l : Listing schema line) :
    endsStatement (l.put line) = endsStatement line := by
  obtain ⟨r, hr⟩ := exists_reading l.parsed
  have hput : l.put line = r.beforeWord ++ (l.text ++ r.closing.word) ++ r.rest := by
    have hword : l.put r.text = r.beforeWord ++ (l.text ++ r.closing.word) := by
      rw [put, ← hr, r.insertAt_text]
    have htext := l.put_append (congrArg InsertHeader.length hr) r.rest
    rwa [← r.line_eq_text, hword] at htext
  obtain ⟨c, hc⟩ : ∃ c, lastSolid? r.closing.word = some c := by
    obtain ⟨c, word, hword, hletter⟩ := r.closing.exists_word
    refine Option.isSome_iff_exists.mp (List.find?_isSome.mpr ⟨c, by simp [hword], ?_⟩)
    simp [Text.isBlank_eq_false_of_isWord hletter]
  have hends : lastSolid? (l.put line) = lastSolid? (r.text ++ r.rest) := by
    rw [hput, r.text_eq_word]
    simp only [lastSolid?_append, hc, Option.some_or]
  rw [← r.line_eq_text] at hends
  rw [endsStatement_eq, endsStatement_eq, hends]

/-- **One line** with the list becomes what it becomes without. -/
theorem coerceLine_put (l : Listing schema line) (active : Option Positions) :
    coerceLine schema active (l.put line) = { coerceLine schema active line with
        line := l.put (coerceLine schema active line).line } := by
  by_cases hnil : positions schema l.header = []
  · rw [coerceLine_header_of_nil active l.parsed hnil,
      coerceLine_header_of_nil active l.parse?_put (l.positions_eq.trans hnil)]
    rfl
  · have hsplit : l.put line = l.put (line.take l.header.length) ++ line.drop l.header.length := by
      rw [← l.put_append l.length_take, List.take_append_drop]
    have hlength : (l.put (line.take l.header.length)).length = l.listed.length := by
      rw [put, length_insertAt, l.length_take]
      rfl
    rw [coerceLine_header active l.parsed hnil,
      coerceLine_header active l.parse?_put (by rwa [l.positions_eq]), l.positions_eq,
      l.endsStatement_put]
    simp only [l.put_append l.length_take]
    rw [hsplit, List.take_left' hlength, List.drop_left' hlength]

/-- **A script** with the list becomes what it becomes without, with the list put in. -/
theorem coerceLines_put (l : Listing schema line) (before after : List Text)
    (active : Option Positions) (number : Nat) :
    coerceLines schema active number (before ++ l.put line :: after) =
      { coerceLines schema active number (before ++ line :: after) with
        lines := (coerceLines schema active number (before ++ line :: after)).lines.modify
          before.length l.put } := by
  induction before generalizing active number with
  | nil => simp [coerceLines, l.coerceLine_put]
  | cons first before ih => simp [coerceLines, ih]

end Listing

end DumpBridge.Rows
