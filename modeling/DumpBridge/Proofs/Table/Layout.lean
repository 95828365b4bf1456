import DumpBridge.Proofs.Table.Reading
import Mathlib.Data.List.Flatten

/-!
# The columns of a table in order

Rows without a list of columns are read by position, so the schema has to hold
each column of a table in its place.  `layout?_definition` says when it does:
every column must be read, and no key may be taken for a column.
-/

namespace DumpBridge.Schema

open Text (isBlank isWord)
open Text.Pattern
open Line (ColumnText IsKey isBare isComment tableName?)

/-! ## Lookups -/

section Lookup

variable {name : Text} {table : Table} (schema : Schema)

/-- The table with a name in lower case. -/
def lookup (name : Text) : Option Table :=
  schema.tables.find? (·.name = name)

/-- Putting a table in leaves the others. -/
theorem lookup_put_of_ne (hname : table.name ≠ name) :
    (schema.put table).lookup name = schema.lookup name := by
  have hfilter : ∀ tables : List Table,
      (tables.filter (·.name != table.name)).find? (·.name = name) =
        tables.find? (·.name = name) := by
    intro tables
    rw [List.find?_filter]
    congr 1
    funext t
    by_cases ht : t.name = name
    · simp [ht, Ne.symm hname]
    · simp [ht]
  rw [lookup, put, lookup]
  split
  · rw [List.find?_append, hfilter]
    simp [hname]
  · rw [hfilter]

/-- A table that is put in is found, if it is of interest at all. -/
theorem lookup_put_self :
    (schema.put table).lookup table.name = if table.isRelevant then some table else none := by
  have hfilter : (schema.tables.filter (·.name != table.name)).find?
      (·.name = table.name) = none := by
    simp
  rw [lookup, put]
  split
  · rw [List.find?_append, hfilter]
    simp
  · rw [hfilter]

theorem lookup_close (opened : Option Table) (hopened : ∀ t ∈ opened, t.name ≠ name) :
    (schema.close opened).lookup name = schema.lookup name := by
  cases opened with
  | none => rfl
  | some t => exact lookup_put_of_ne schema (hopened t rfl)

end Lookup

/-! ## The lines after a definition -/

/-- No definition of another table changes what is known of a table. -/
theorem lookup_step {name : Text} (catalog : EnumCatalog) (state : Schema × Option Table)
    (line : Text) (hopen : ∀ t ∈ state.2, t.name ≠ name)
    (hline : (opened? (Text.trim line)).any (·.name = name) = false) :
    (step catalog state line).1.lookup name = state.1.lookup name ∧
      ∀ t ∈ (step catalog state line).2, t.name ≠ name := by
  obtain ⟨schema, opened⟩ := state
  rw [step]
  cases hopened : opened? (Text.trim line) with
  | some table =>
    have htable : table.name ≠ name := by simpa [hopened] using hline
    have hclose := lookup_close schema opened hopen
    by_cases hends : Text.endsWith ';' (Text.trim line)
    · simp [hends, lookup_put_of_ne _ htable, hclose]
    · simp [hends, hclose, htable]
  | none =>
    cases opened with
    | none => simp
    | some table =>
      have htable : table.name ≠ name := hopen table rfl
      by_cases hstart : Text.startsWith ')' (Text.trim line)
      · simp [hstart, lookup_put_of_ne _ htable]
      · cases hcolumn : column? catalog (Text.trim line) <;> simp [hstart, htable]

/-- **Lines that open no table of a name** leave what is known of it. -/
theorem lookup_foldl {name : Text} (catalog : EnumCatalog) (lines : List Text)
    (state : Schema × Option Table) (hopen : ∀ t ∈ state.2, t.name ≠ name)
    (hlines : ∀ line ∈ lines, (opened? (Text.trim line)).any (·.name = name) = false) :
    ((lines.foldl (step catalog) state).1.close (lines.foldl (step catalog) state).2).lookup name =
      state.1.lookup name := by
  induction lines generalizing state with
  | nil => exact lookup_close _ _ hopen
  | cons line lines ih =>
    obtain ⟨hline, hlines⟩ := List.forall_mem_cons.mp hlines
    obtain ⟨hlookup, hopen⟩ := lookup_step catalog state line hopen hline
    rw [List.foldl_cons, ih _ hopen hlines, hlookup]

/-! ## The lines of a definition -/

/-- A column on a line of its own. -/
structure LayoutColumn extends ColumnText where
  tail : Text
  tail_blank : ∀ c ∈ tail, isBlank c
  attributes_last : attributes.getLast?.all (!isBlank ·)

namespace LayoutColumn

variable (c : LayoutColumn)

/-- What follows the name. -/
def rest : Text :=
  c.space ++ (c.type ++ c.attributes)

def line : Text :=
  c.indent ++ (c.name ++ c.rest ++ c.tail)

/-- Whether the column is read: its name has the letters that are looked for, and it
is not taken for a key. -/
def Read : Prop :=
  isReadable c.name ∧ ¬ IsKey c.name c.rest

/-- Whether the type is that of truth values or one of the catalog. -/
def Tracked (catalog : EnumCatalog) : Prop :=
  (Text.sameAsciiLetters c.type "BOOLEAN".toList ∨ catalog.hasName c.type) ∧
    ((∀ d ∈ c.attributes.takeWhile (!isBlank ·), d = ',') ∨ c.attributes.head? = some '(')

end LayoutColumn

/-- The words that begin keys, indexes and constraints. -/
def keyWords : List String :=
  ["PRIMARY", "UNIQUE", "KEY", "INDEX", "CONSTRAINT", "FOREIGN", "FULLTEXT", "SPATIAL", "CHECK"]

/-- A key, index or constraint on a line of its own. -/
structure KeyLine where
  indent : Text
  word : Text
  /-- What follows the word. -/
  rest : Text
  tail : Text
  indent_blank : ∀ c ∈ indent, isBlank c
  word_spelled : ∃ w ∈ keyWords, spells w.toList word
  rest_head : rest.head?.any (fun c => isBlank c || c = '(')
  rest_last : rest.getLast?.any (!isBlank ·)
  tail_blank : ∀ c ∈ tail, isBlank c

namespace KeyLine

variable (k : KeyLine)

def line : Text :=
  k.indent ++ (k.word ++ k.rest ++ k.tail)

/-- Whether the key is read: it is taken for one, or at least not for a column. -/
def Read : Prop :=
  IsKey k.word k.rest ∨ ¬ (isReadable k.word ∧ HasWord k.rest)

end KeyLine

/-- A line inside a table definition. -/
inductive DefinitionLine where
  | column (c : LayoutColumn)
  | key (k : KeyLine)
  /-- A blank line or a comment. -/
  | aside (line : Text) (h : Line.isEmpty line ∨ isComment line)

namespace DefinitionLine

def line : DefinitionLine → Text
  | column c => c.line
  | key k => k.line
  | aside line _ => line

/-- The names that a line declares, in lower case. -/
def declared : DefinitionLine → List Text
  | column c => [Text.lower c.name]
  | _ => []

/-- The names that are read off a line. -/
def found (catalog : EnumCatalog) (l : DefinitionLine) : List Text :=
  ((column? catalog (Text.trim l.line)).map (·.name)).toList

end DefinitionLine

/-! ## What is read off a line -/

/-- A line that starts with no letter opens no definition. -/
theorem tableName?_cons_eq_none {d : Char} (hblank : isBlank d = false) (hword : isWord d = false)
    (t : Text) : tableName? (d :: t) = none := by
  cases hname : tableName? (d :: t) with
  | none => rfl
  | some name =>
    obtain ⟨a, hfits⟩ := Line.fits_tableOpener (by rw [hname]; rfl)
    have hsplit : letters ("CREATE".toList ++ " TABLE ".toList) =
        letters ("CREATE".toList ++ ' ' :: "TABLE ".toList) := rfl
    obtain ⟨lead, m, hlead_eq, ⟨hlead, -⟩, hfits⟩ := fits_append.mp hfits
    obtain rfl : lead = [] := by
      cases lead with
      | nil => rfl
      | cons b lead =>
        obtain ⟨rfl, -⟩ := List.cons.inj hlead_eq
        simp [hlead d (by simp)] at hblank
    rw [hsplit] at hfits
    obtain ⟨y, m, rfl, hy, -⟩ := (fits_phrase_append (by decide)).mp hfits
    obtain ⟨hne, hletters⟩ := isWord_of_spells (by decide) hy
    obtain ⟨c, y, rfl⟩ := List.exists_cons_of_ne_nil hne
    obtain ⟨rfl, -⟩ := List.cons.inj hlead_eq
    simp [hletters d (by simp)] at hword

/-- A column without the blanks around it. -/
theorem LayoutColumn.trim_line (c : LayoutColumn) : Text.trim c.line = c.name ++ c.rest := by
  refine Text.trim_append c.indent_blank ?_ ?_ c.tail_blank
  · obtain ⟨d, name, hname⟩ := List.exists_cons_of_ne_nil c.name_ne
    rw [hname]
    simpa using c.isBlank_of_mem_name (d := d) (by simp [hname])
  · have hattributes := c.attributes_last
    have htype : c.type.getLast?.any (!isBlank ·) := by
      rw [List.getLast?_eq_some_getLast c.type_ne]
      simpa using Text.isBlank_eq_false_of_isWord (c.type_word _ (List.getLast_mem c.type_ne))
    rw [rest, List.getLast?_append, List.getLast?_append, List.getLast?_append]
    cases hlast : c.attributes.getLast? with
    | some d => simpa [hlast] using hattributes
    | none =>
      cases hlast' : c.type.getLast? with
      | some d => simpa [hlast'] using htype
      | none => simp [hlast'] at htype

namespace KeyLine

variable (k : KeyLine)

theorem word_letters : k.word ≠ [] ∧ ∀ c ∈ k.word, isWord c := by
  have hkeyword : ∀ w ∈ keyWords, isKeyword w.toList := by decide
  obtain ⟨w, hw, hspells⟩ := k.word_spelled
  exact isWord_of_spells (hkeyword w hw) hspells

theorem trim_line : Text.trim k.line = k.word ++ k.rest := by
  obtain ⟨hne, hword⟩ := k.word_letters
  refine Text.trim_append k.indent_blank ?_ ?_ k.tail_blank
  · obtain ⟨d, word, hcons⟩ := List.exists_cons_of_ne_nil hne
    rw [hcons]
    simpa using Text.isBlank_eq_false_of_isWord (hword d (by simp [hcons]))
  · have hlast := k.rest_last
    rw [List.getLast?_append]
    cases hrest : k.rest.getLast? with
    | none => simp [hrest] at hlast
    | some d => simpa [hrest] using hlast

/-- A key clause opens no table. -/
theorem tableName?_eq_none : tableName? (k.word ++ k.rest) = none := by
  have hcreate : ∀ w ∈ keyWords, isKeyword w.toList ∧
      w.toList.map Char.toLower ≠ "CREATE".toList.map Char.toLower := by decide
  obtain ⟨hne, hword⟩ := k.word_letters
  obtain ⟨w, hw, hspells⟩ := k.word_spelled
  have hrest : k.rest.head?.any isBare = false := by
    refine (head_isBare ?_).1
    have hhead := k.rest_head
    cases hcons : k.rest with
    | nil => rfl
    | cons d rest => simpa [hcons] using hhead
  cases hname : tableName? (k.word ++ k.rest) with
  | none => rfl
  | some name =>
    obtain ⟨a, hfits⟩ := Line.fits_tableOpener (by rw [hname]; rfl)
    have hfits : (blanks ++ (letters ("CREATE".toList ++ " TABLE ".toList) ++ a)).Fits none
      ([] ++ (k.word ++ k.rest)) := hfits
    have hspells' : spells "CREATE".toList k.word :=
      (spells_of_fits_table (fun _ => Line.isBare_of_isWord)
        (fun _ => Line.isBare_eq_false_of_isBlank) (by simp) hne
        (fun c hc => Line.isBare_of_isWord (hword c hc)) hrest (by decide) hfits).1
    rw [spells_eq_false hspells (hcreate w hw).1 (by decide) (hcreate w hw).2] at hspells'
    simp at hspells'

end KeyLine

namespace DefinitionLine

/-- A comment without blanks around it begins with its dashes. -/
theorem trim_of_isComment {line : Text} (h : isComment line) :
    ∃ t, Text.trim line = '-' :: '-' :: t := by
  have hdash : isBlank '-' = false := by decide
  obtain ⟨t, ht⟩ := List.isPrefixOf_iff_prefix.mp h
  obtain ⟨t', ht'⟩ := Text.exists_dropEndWhile_append_cons ['-'] hdash t
  rw [Text.trim, ← ht]
  exact ⟨t', ht'⟩

/-- No line inside a definition begins or closes one. -/
theorem trim_line (l : DefinitionLine) :
    opened? (Text.trim l.line) = none ∧ Text.startsWith ')' (Text.trim l.line) = false := by
  have hparen : isBare ')' = false := by decide
  cases l with
  | column c =>
    let bare : ColumnText := { c.toColumnText with indent := [], indent_blank := by simp }
    have hname : tableName? (c.name ++ c.rest) = none := by
      have hbare : tableName? (bare.text ++ []) = none := bare.tableName?_eq_none rfl
      rwa [List.append_nil] at hbare
    obtain ⟨d, name, hcons⟩ := List.exists_cons_of_ne_nil c.name_ne
    have hd : d ≠ ')' := by
      rintro rfl
      simp [c.name_bare ')' (by simp [hcons])] at hparen
    rw [line, c.trim_line]
    refine ⟨by rw [opened?, hname]; rfl, ?_⟩
    simp [hcons, Text.startsWith, hd]
  | key k =>
    obtain ⟨hne, hword⟩ := k.word_letters
    obtain ⟨d, word, hcons⟩ := List.exists_cons_of_ne_nil hne
    have hd : d ≠ ')' := by
      rintro rfl
      exact absurd (hword ')' (by simp [hcons])) (by decide)
    rw [line, k.trim_line]
    refine ⟨by rw [opened?, k.tableName?_eq_none]; rfl, ?_⟩
    simp [hcons, Text.startsWith, hd]
  | aside line h =>
    rcases h with h | h
    · have htrim : Text.trim line = [] := by simpa [Line.isEmpty] using h
      rw [DefinitionLine.line, htrim]
      decide
    · obtain ⟨t, ht⟩ := trim_of_isComment h
      rw [DefinitionLine.line, ht, opened?, tableName?_cons_eq_none (by decide) (by decide)]
      exact ⟨rfl, by simp [Text.startsWith]⟩

end DefinitionLine

theorem head_dropWhile_solid (t : Text) : (t.dropWhile (!isBlank ·)).head?.all isBlank := by
  have hstop := Text.head?_dropWhile_any (!isBlank ·) t
  cases hdrop : t.dropWhile (!isBlank ·) with
  | nil => rfl
  | cons d rest => simpa [hdrop] using hstop

namespace LayoutColumn

variable (c : LayoutColumn)

/-- The type with what follows it up to a blank. -/
def typeText : Text :=
  c.type ++ c.attributes.takeWhile (!isBlank ·)

theorem head_rest : c.rest.head?.all (fun d => isBlank d || d = '(') := by
  obtain ⟨b, space, hspace⟩ := List.exists_cons_of_ne_nil c.space_ne
  rw [rest, hspace]
  simp [c.space_blank b (by simp [hspace])]

theorem column?_of_read (hread : c.Read) (catalog : EnumCatalog) :
    column? catalog (Text.trim c.line) =
      some { name := Text.lower c.name, kind := kindOf catalog c.typeText } := by
  have hsplit : c.rest = c.space ++ (c.typeText ++ c.attributes.dropWhile (!isBlank ·)) := by
    rw [rest, typeText, List.append_assoc, List.takeWhile_append_dropWhile]
  have htype : ∀ d ∈ c.typeText, isBlank d = false := by
    intro d hd
    rcases List.mem_append.mp hd with hd | hd
    · exact Text.isBlank_eq_false_of_isWord (c.type_word d hd)
    · simpa using List.mem_takeWhile_imp hd
  rw [c.trim_line]
  exact column?_eq_some c.name_ne c.name_bare c.head_rest hread.2 c.name_dashes hread.1 hsplit
    c.space_ne c.space_blank (by simp [typeText, c.type_ne]) htype (head_dropWhile_solid _) catalog

/-- **A column that is not read** gives none. -/
theorem column?_of_not_read (hread : ¬ c.Read) (catalog : EnumCatalog) :
    column? catalog (Text.trim c.line) = none := by
  rw [c.trim_line]
  by_cases hkey : IsKey c.name c.rest
  · exact column?_of_isKey c.name_ne c.name_bare c.head_rest hkey catalog
  · exact column?_eq_none c.name_bare c.head_rest (fun h => hread ⟨h.1, hkey⟩) catalog

/-- The type of a tracked column is the word that its text begins with. -/
theorem baseType_typeText {catalog : EnumCatalog} (htracked : c.Tracked catalog) :
    baseType c.typeText = c.type := by
  have hcomma : isWord ',' = false := by decide
  have hparen : isWord '(' = false := by decide
  have hletters : c.type.takeWhile (· != '(') = c.type := by
    rw [List.takeWhile_eq_self_iff]
    intro d hd
    rw [bne_iff_ne]
    rintro rfl
    simp [c.type_word '(' hd] at hparen
  obtain ⟨init, last, hlast⟩ : ∃ init last, c.type = init ++ [last] :=
    ⟨_, _, (List.dropLast_concat_getLast c.type_ne).symm⟩
  have hlast_comma : decide (last = ',') = false := by
    rw [decide_eq_false_iff_not]
    rintro rfl
    simp [c.type_word ',' (by simp [hlast])] at hcomma
  rcases htracked.2 with hattributes | hattributes
  · have hdrop : Text.dropEndWhile (· = ',') c.typeText = c.type := by
      rw [typeText, hlast, List.append_assoc, List.singleton_append]
      exact Text.dropEndWhile_append_cons hlast_comma (by simpa using hattributes)
    rw [baseType, hdrop, hletters]
  · obtain ⟨t, ht⟩ := List.head?_eq_some_iff.mp hattributes
    have hblank : isBlank '(' = false := by decide
    have htype : c.typeText = c.type ++ '(' :: t.takeWhile (!isBlank ·) := by
      rw [typeText, ht, List.takeWhile_cons, hblank]
      rfl
    obtain ⟨t', ht'⟩ : ∃ t', Text.dropEndWhile (· = ',') c.typeText = c.type ++ '(' :: t' := by
      rw [htype]
      exact Text.exists_dropEndWhile_append_cons c.type (by decide) _
    rw [baseType, ht', List.takeWhile_append_of_pos]
    · simp
    · exact fun d hd => List.takeWhile_eq_self_iff.mp hletters d hd

/-- The type of a tracked column is known for what it is. -/
theorem kindOf_typeText {catalog : EnumCatalog} (htracked : c.Tracked catalog) :
    kindOf catalog c.typeText ≠ .other := by
  rw [kindOf, c.baseType_typeText htracked]
  rcases htracked.1 with hboolean | hname
  · rw [if_pos hboolean]
    simp
  · rw [if_pos hname]
    split <;> simp

end LayoutColumn

namespace KeyLine

variable (k : KeyLine)

theorem head_rest : k.rest.head?.all (fun d => isBlank d || d = '(') := by
  have hhead := k.rest_head
  cases hcons : k.rest with
  | nil => rfl
  | cons d rest => simpa [hcons] using hhead

theorem word_bare : ∀ c ∈ k.word, isBare c :=
  fun c hc => Line.isBare_of_isWord (k.word_letters.2 c hc)

theorem column?_of_read (hread : k.Read) (catalog : EnumCatalog) :
    column? catalog (Text.trim k.line) = none := by
  rw [k.trim_line]
  rcases hread with hkey | hword
  · exact column?_of_isKey k.word_letters.1 k.word_bare k.head_rest hkey catalog
  · exact column?_eq_none k.word_bare k.head_rest hword catalog

/-- A key that is not read adds a column with the name of its first word. -/
theorem column?_of_not_read (hread : ¬ k.Read) (catalog : EnumCatalog) :
    (column? catalog (Text.trim k.line)).map (·.name) = some (Text.lower k.word) := by
  obtain ⟨hkey, hword⟩ := not_or.mp hread
  obtain ⟨hreadable, space, t, hsplit, hspace_ne, hspace, ht_ne, ht⟩ := not_not.mp hword
  have hdashes : ['-', '-'].isPrefixOf k.word = false := by
    obtain ⟨d, word, hcons⟩ := List.exists_cons_of_ne_nil k.word_letters.1
    have hd : '-' ≠ d := by
      rintro rfl
      exact absurd (k.word_letters.2 '-' (by simp [hcons])) (by decide)
    simp [hcons, List.isPrefixOf, hd]
  have htype_ne : t.takeWhile (!isBlank ·) ≠ [] := by
    obtain ⟨d, t, rfl⟩ := List.exists_cons_of_ne_nil ht_ne
    have hd : isBlank d = false := by simpa using ht
    simp [hd]
  rw [← List.takeWhile_append_dropWhile (p := (!isBlank ·)) (l := t)] at hsplit
  rw [k.trim_line, column?_eq_some k.word_letters.1 k.word_bare k.head_rest hkey hdashes hreadable
    hsplit hspace_ne hspace htype_ne (fun d hd => by simpa using List.mem_takeWhile_imp hd)
    (head_dropWhile_solid t) catalog]
  rfl

end KeyLine

/-! ## Whole definitions -/

/-- The definition of a table, line by line. -/
structure Definition where
  opening : Opening
  lines : List DefinitionLine
  closing : Text
  closing_paren : Text.startsWith ')' (Text.trimStart closing)

namespace Definition

variable (d : Definition)

def text : List Text :=
  d.opening.line :: d.lines.map (·.line) ++ [d.closing]

/-- The names of the columns in lower case, in order. -/
def layout : List Text :=
  d.lines.flatMap (·.declared)

/-- What the reader makes of the lines. -/
def columns (catalog : EnumCatalog) : List Column :=
  d.lines.filterMap fun l => column? catalog (Text.trim l.line)

/-- The table that the reader makes of the definition. -/
def table (catalog : EnumCatalog) : Table :=
  { name := Text.lower d.opening.name, columns := d.columns catalog }

end Definition

/-- The start of a definition opens a table of its name. -/
theorem opened?_core (o : Opening) :
    opened? o.core = some { name := Text.lower o.name, columns := [] } := by
  obtain ⟨init, last, hname⟩ : ∃ init last, o.name = init ++ [last] :=
    ⟨_, _, (List.dropLast_concat_getLast o.name_ne).symm⟩
  have hlast : decide (last = '(') = false := by
    have hchar := o.name_chars last (by simp [hname])
    rw [isNameChar, Bool.and_eq_true] at hchar
    simpa using hchar.2
  have hdrop : Text.dropEndWhile (· = '(') o.name = o.name := by
    rw [hname]
    exact Text.dropEndWhile_append_cons hlast (by simp)
  rw [opened?, o.tableName?_core, Option.map_some, hdrop]

/-- It finishes the table before it, and opens one without columns. -/
theorem step_opening (catalog : EnumCatalog) (o : Opening) (state : Schema × Option Table) :
    step catalog state o.line =
      (state.1.close state.2, some { name := Text.lower o.name, columns := [] }) := by
  have hends : Text.endsWith ';' o.core = false := by
    rw [Text.endsWith, o.getLast?_core]
    decide
  rw [step, o.trim_line, opened?_core]
  simp [hends]

/-- A line of the definition adds the columns that are found in it. -/
theorem step_line (catalog : EnumCatalog) (schema : Schema) (table : Table) (l : DefinitionLine) :
    step catalog (schema, some table) l.line = (schema, some { table with
        columns := table.columns ++ (column? catalog (Text.trim l.line)).toList }) := by
  obtain ⟨hopened, hstart⟩ := l.trim_line
  rw [step, hopened]
  cases column? catalog (Text.trim l.line) <;> simp [hstart]

/-- So the lines add all that are found in them, in order. -/
theorem foldl_lines (catalog : EnumCatalog) (schema : Schema) (table : Table)
    (lines : List DefinitionLine) :
    (lines.map (·.line)).foldl (step catalog) (schema, some table) = (schema, some { table with
        columns := table.columns ++ lines.filterMap fun l =>
          column? catalog (Text.trim l.line) }) := by
  induction lines generalizing table with
  | nil => simp
  | cons l lines ih =>
    rw [List.map_cons, List.foldl_cons, step_line, ih]
    cases hcolumn : column? catalog (Text.trim l.line) <;> simp [hcolumn]

/-- The closing parenthesis puts the table in. -/
theorem step_closing (catalog : EnumCatalog) (schema : Schema) (table : Table) {closing : Text}
    (hclosing : Text.startsWith ')' (Text.trimStart closing)) :
    step catalog (schema, some table) closing = (schema.put table, none) := by
  have hparen : isBlank ')' = false := by decide
  obtain ⟨t, ht⟩ : ∃ t, Text.trimStart closing = [] ++ ')' :: t := by
    rw [Text.startsWith, decide_eq_true_eq] at hclosing
    exact List.head?_eq_some_iff.mp hclosing
  obtain ⟨t', ht'⟩ : ∃ t', Text.trim closing = [] ++ ')' :: t' := by
    rw [Text.trim, ht]
    exact Text.exists_dropEndWhile_append_cons [] hparen t
  rw [step, ht', List.nil_append, opened?, tableName?_cons_eq_none hparen (by decide)]
  simp [Text.startsWith]

/-- The schema of the lines has the table that the reader makes of the definition. -/
theorem lookup_ofLines (catalog : EnumCatalog) (d : Definition) (before after : List Text)
    (hafter : ∀ line ∈ after,
      (opened? (Text.trim line)).any (·.name = Text.lower d.opening.name) = false) :
    (ofLines catalog (before ++ (d.text ++ after))).lookup (Text.lower d.opening.name) =
      if (d.table catalog).isRelevant then some (d.table catalog) else none := by
  let start := before.foldl (step catalog) (empty, none)
  have htext : d.text.foldl (step catalog) start =
      ((start.1.close start.2).put (d.table catalog), none) := by
    rw [Definition.text, List.foldl_append, List.foldl_cons, List.foldl_nil, List.foldl_cons,
      step_opening, foldl_lines, step_closing catalog _ _ d.closing_paren, List.nil_append]
    rfl
  have hlines : (before ++ (d.text ++ after)).foldl (step catalog) (empty, none) =
      after.foldl (step catalog) ((start.1.close start.2).put (d.table catalog), none) := by
    rw [List.foldl_append, List.foldl_append, ← htext]
  have hlookup := lookup_foldl catalog after ((start.1.close start.2).put (d.table catalog), none)
    (by simp) hafter
  rw [ofLines, hlines, hlookup]
  exact lookup_put_self _

/-! ## The layout -/

/-- Lists put together from parts of other lists are the same if all parts are. -/
theorem flatMap_eq_iff {α β : Type} {f g : α → List β} {l : List α}
    (h : ∀ a ∈ l, (f a).Sublist (g a)) : l.flatMap f = l.flatMap g ↔ ∀ a ∈ l, f a = g a := by
  induction l with
  | nil => simp
  | cons a l ih =>
    obtain ⟨ha, hl⟩ := List.forall_mem_cons.mp h
    have hsub := List.Sublist.flatMap_right l hl
    rw [List.flatMap_cons, List.flatMap_cons, List.forall_mem_cons, ← ih hl]
    constructor
    · intro heq
      have hlength := congrArg List.length heq
      rw [List.length_append, List.length_append] at hlength
      have ha_le := ha.length_le
      have hl_le := hsub.length_le
      exact ⟨ha.eq_of_length (by omega), hsub.eq_of_length (by omega)⟩
    · rintro ⟨ha, hl⟩
      rw [ha, hl]

namespace DefinitionLine

variable (catalog : EnumCatalog)

/-- A column is found as declared just if it is read. -/
theorem found_column_iff (c : LayoutColumn) :
    ((column c).found catalog).Sublist (column c).declared ∧
      ((column c).found catalog = (column c).declared ↔ c.Read) := by
  by_cases hread : c.Read
  · simp [found, declared, line, c.column?_of_read hread, hread]
  · simp [found, declared, line, c.column?_of_not_read hread, hread]

/-- A key is found to declare nothing just if it is read as a key. -/
theorem found_key_iff (k : KeyLine) :
    (key k).declared.Sublist ((key k).found catalog) ∧
      ((key k).found catalog = (key k).declared ↔ k.Read) := by
  by_cases hread : k.Read
  · simp [found, declared, line, k.column?_of_read hread, hread]
  · simp [found, declared, line, k.column?_of_not_read hread, hread]

/-- In an empty line or a comment nothing is found, and nothing declared. -/
theorem found_aside (line : Text) (h : Line.isEmpty line ∨ isComment line) :
    (aside line h).found catalog = (aside line h).declared := by
  have hcolumn : column? catalog (Text.trim line) = none := by
    rcases h with h | h
    · have htrim : Text.trim line = [] := by simpa [Line.isEmpty] using h
      rw [htrim]
      rfl
    · obtain ⟨t, ht⟩ := trim_of_isComment h
      have hcomment : isComment ([] ++ '-' :: '-' :: t) := by
        rw [Line.isComment_append (by simp) (by decide)]
        simp
      rw [List.nil_append, ← ht] at hcomment
      simp [column?, hcomment]
  rw [found, DefinitionLine.line, hcolumn]
  rfl

end DefinitionLine

namespace Definition

variable (d : Definition) (catalog : EnumCatalog)

/-- All columns of the definition are read. -/
def ColumnsRead : Prop :=
  ∀ c, DefinitionLine.column c ∈ d.lines → c.Read

/-- All keys of the definition are read. -/
def KeysRead : Prop :=
  ∀ k, DefinitionLine.key k ∈ d.lines → k.Read

/-- The names of the columns are those that are found in the lines. -/
theorem map_name_columns : (d.columns catalog).map (·.name) =
    d.lines.flatMap (·.found catalog) := by
  rw [columns]
  induction d.lines with
  | nil => rfl
  | cons l lines ih =>
    rw [List.flatMap_cons, ← ih, DefinitionLine.found]
    cases hcolumn : column? catalog (Text.trim l.line) <;> simp [hcolumn]

/-- If no key adds a column, then the names are those of the definition if all columns
are read. -/
theorem map_name_columns_of_keysRead (hkeys : d.KeysRead) :
    (d.columns catalog).map (·.name) = d.layout ↔ d.ColumnsRead := by
  have hsub : ∀ l ∈ d.lines, (l.found catalog).Sublist l.declared := by
    intro l hl
    cases l with
    | column c => exact (DefinitionLine.found_column_iff catalog c).1
    | key k => rw [(DefinitionLine.found_key_iff catalog k).2.mpr (hkeys k hl)]
    | aside line h => rw [DefinitionLine.found_aside]
  rw [d.map_name_columns, layout, flatMap_eq_iff hsub]
  constructor
  · intro h c hc
    exact (DefinitionLine.found_column_iff catalog c).2.mp (h _ hc)
  · intro h l hl
    cases l with
    | column c => exact (DefinitionLine.found_column_iff catalog c).2.mpr (h c hl)
    | key k => exact (DefinitionLine.found_key_iff catalog k).2.mpr (hkeys k hl)
    | aside line h => exact DefinitionLine.found_aside catalog line h

/-- If all columns are read, then the names are those of the definition if no key adds
one. -/
theorem map_name_columns_of_columnsRead (hcolumns : d.ColumnsRead) :
    (d.columns catalog).map (·.name) = d.layout ↔ d.KeysRead := by
  have hsub : ∀ l ∈ d.lines, l.declared.Sublist (l.found catalog) := by
    intro l hl
    cases l with
    | column c => rw [(DefinitionLine.found_column_iff catalog c).2.mpr (hcolumns c hl)]
    | key k => exact (DefinitionLine.found_key_iff catalog k).1
    | aside line h => rw [DefinitionLine.found_aside]
  rw [d.map_name_columns, layout, eq_comm, flatMap_eq_iff hsub]
  constructor
  · intro h k hk
    exact (DefinitionLine.found_key_iff catalog k).2.mp (h _ hk).symm
  · intro h l hl
    cases l with
    | column c => exact ((DefinitionLine.found_column_iff catalog c).2.mpr (hcolumns c hl)).symm
    | key k => exact ((DefinitionLine.found_key_iff catalog k).2.mpr (h k hl)).symm
    | aside line h => exact (DefinitionLine.found_aside catalog line h).symm

/-- A table with a tracked column that is read matters to rows. -/
theorem isRelevant_table {c : LayoutColumn} (hmem : DefinitionLine.column c ∈ d.lines)
    (hread : c.Read) (htracked : c.Tracked catalog) : (d.table catalog).isRelevant := by
  have hkind := c.kindOf_typeText htracked
  have hcolumn : { name := Text.lower c.name, kind := kindOf catalog c.typeText } ∈
      d.columns catalog :=
    List.mem_filterMap.mpr ⟨_, hmem, c.column?_of_read hread catalog⟩
  rw [Table.isRelevant, Table.hasKind, Table.hasKind, Bool.or_eq_true, List.any_eq_true,
    List.any_eq_true]
  cases hcase : kindOf catalog c.typeText with
  | boolean => exact Or.inl ⟨_, hcolumn, by simp [hcase]⟩
  | enumerated => exact Or.inr ⟨_, hcolumn, by simp [hcase]⟩
  | other => exact absurd hcase hkind

end Definition

/-- **The layout of a table** is known as its definition gives it, one name for each
column in order, if and only if all columns are read and no key is taken for one.
It is known if some column is tracked, and no later definition replaces it. -/
theorem layout?_definition (d : Definition) (catalog : EnumCatalog) (before after : List Text)
    (hafter : ∀ line ∈ after,
      (opened? (Text.trim line)).any (·.name = Text.lower d.opening.name) = false)
    (htracked : ∃ c, DefinitionLine.column c ∈ d.lines ∧ c.Tracked catalog) :
    (d.KeysRead →
      ((ofLines catalog (before ++ (d.text ++ after))).layout? d.opening.name = some d.layout ↔
        d.ColumnsRead)) ∧
    (d.ColumnsRead →
      ((ofLines catalog (before ++ (d.text ++ after))).layout? d.opening.name = some d.layout ↔
        d.KeysRead)) := by
  have hlayout : (ofLines catalog (before ++ (d.text ++ after))).layout? d.opening.name =
      some d.layout ↔
        (d.table catalog).isRelevant ∧ (d.columns catalog).map (·.name) = d.layout := by
    have htable : (ofLines catalog (before ++ (d.text ++ after))).table? d.opening.name =
        if (d.table catalog).isRelevant then some (d.table catalog) else none :=
      lookup_ofLines catalog d before after hafter
    rw [layout?, htable]
    split
    · simp_all [Definition.table]
    · simp_all
  obtain ⟨c, hmem, htracked⟩ := htracked
  have hrelevant : d.ColumnsRead → (d.table catalog).isRelevant :=
    fun h => d.isRelevant_table catalog hmem (h c hmem) htracked
  rw [hlayout]
  constructor
  · intro hkeys
    rw [d.map_name_columns_of_keysRead catalog hkeys]
    exact ⟨And.right, fun h => ⟨hrelevant h, h⟩⟩
  · intro hcolumns
    rw [d.map_name_columns_of_columnsRead catalog hcolumns]
    exact ⟨And.right, fun h => ⟨hrelevant hcolumns, h⟩⟩

/-- A definition with a column called `key`. -/
def keyedTable : Definition where
  opening :=
    { indent := [], ifNotExists := true, name := "Users".toList, space := [' '], tail := []
      indent_blank := by decide, name_ne := by decide, name_chars := by decide
      space_blank := by decide, tail_blank := by decide }
  lines :=
    [.column
      { indent := [' ', ' '], name := "key".toList, space := [' '], type := "varchar".toList
        attributes := "(20),".toList, tail := [], indent_blank := by decide, name_ne := by decide
        name_bare := by decide, name_dashes := by decide, space_ne := by decide
        space_blank := by decide, type_ne := by decide, type_word := by decide +kernel
        type_free := by decide, attributes_head := by decide, tail_blank := by decide
        attributes_last := by decide },
     .column
      { indent := [' ', ' '], name := "Flag".toList, space := [' '], type := "BOOLEAN".toList
        attributes := " DEFAULT false,".toList, tail := [' '], indent_blank := by decide
        name_ne := by decide, name_bare := by decide, name_dashes := by decide
        space_ne := by decide, space_blank := by decide, type_ne := by decide
        type_word := by decide +kernel, type_free := by decide, attributes_head := by decide
        tail_blank := by decide, attributes_last := by decide },
     .key
      { indent := [' ', ' '], word := "PRIMARY".toList, rest := " KEY (key)".toList, tail := []
        indent_blank := by decide, word_spelled := by decide, rest_head := by decide
        rest_last := by decide, tail_blank := by decide }]
  closing := ") ENGINE=InnoDB;".toList
  closing_paren := by decide

/-- A table with a column called `key` and a key is laid out as declared. -/
theorem layout?_definition_keyedTable :
    keyedTable.KeysRead ∧ keyedTable.ColumnsRead ∧
      (ofLines .empty ([] ++ (keyedTable.text ++ ["CREATE TABLE t (".toList]))).layout?
          keyedTable.opening.name = some ["key".toList, "flag".toList] := by
  have hkeys : keyedTable.KeysRead := by
    intro k hk
    simp only [keyedTable, List.mem_cons, reduceCtorEq, DefinitionLine.key.injEq, false_or,
      List.not_mem_nil, or_false] at hk
    subst hk
    exact Or.inl (Or.inr (Or.inl ⟨⟨"PRIMARY", by decide, by decide⟩, [' '], "KEY".toList,
      " (key)".toList, rfl, by decide, by decide, by decide⟩))
  have hcolumns : keyedTable.ColumnsRead := by
    intro c hc
    simp only [keyedTable, List.mem_cons, reduceCtorEq, DefinitionLine.column.injEq,
      List.not_mem_nil, or_false] at hc
    rcases hc with rfl | rfl
    · refine ⟨by decide, ?_⟩
      rw [← Line.keyClause_starts_iff (by decide) (by decide)]
      decide +kernel
    · refine ⟨by decide, ?_⟩
      rw [← Line.keyClause_starts_iff (by decide) (by decide)]
      decide +kernel
  have htracked : ∃ c, DefinitionLine.column c ∈ keyedTable.lines ∧ c.Tracked .empty :=
    ⟨_, List.mem_cons_of_mem _ List.mem_cons_self, Or.inl (by decide), Or.inl (by decide)⟩
  refine ⟨hkeys, hcolumns, ?_⟩
  exact ((layout?_definition keyedTable .empty [] ["CREATE TABLE t (".toList] (by decide +kernel)
    htracked).1 hkeys).mpr hcolumns

/-- A column called `spatial` is taken for a key and missing from the layout. -/
theorem layout?_column_spatial :
    (ofLines .empty ["CREATE TABLE t (".toList, "  spatial INTEGER,".toList,
        "  flag BOOLEAN".toList, ");".toList]).layout? "t".toList = some ["flag".toList] := by
  decide +kernel

end DumpBridge.Schema
