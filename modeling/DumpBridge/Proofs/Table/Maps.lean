import DumpBridge.Proofs.Table.Layout
import DumpBridge.Table.Rows
import Mathlib.Data.Finmap

/-!
# What is known of tables, as three maps

What rows need to know of tables may be kept in three maps in place of a list:
the columns of each table that hold truth values, those that hold enumerations,
and all its columns in order.  `SchemaMaps` is filled by the same reading of a
script, but a definition goes into the three maps one by one, and each of them
may have to forget the table.

What the maps know is what the schema knows, line after line (`Represents`).  So
they fit together: no table stands in a map without columns, the order is known of
just the tables in the other two maps, and each column in these is in its table's
order.  And rows are changed at the same positions with the one as with the other
(`positions_eq`).
-/

namespace DumpBridge

/-! ## Every schema that was read -/

namespace Schema

open Text (Pattern)
open Text.Pattern (Sets sets_of_isPlain)
open Line (tableName?)

variable {line : Text} {catalog : EnumCatalog} {schema : Schema} {table : Table}
  {s : Schema × Option Table}

/-- The parentheses that are taken off a name were never on it. -/
theorem opened?_eq (line : Text) :
    opened? line = (tableName? line).map fun n => { name := Text.lower n, columns := [] } := by
  cases hname : tableName? line with
  | none => rw [opened?, hname]; rfl
  | some n =>
    have hdrop : Text.dropEndWhile (· = '(') n = n := by
      rcases List.eq_nil_or_concat n with rfl | ⟨init, last, rfl⟩
      · rfl
      · rw [List.concat_eq_append] at hname ⊢
        have hchar := isNameChar_of_tableName? hname last (by simp)
        rw [isNameChar, Bool.and_eq_true] at hchar
        exact Text.dropEndWhile_append_cons (by simpa using hchar.2) (by simp)
    rw [opened?, hname, Option.map_some, Option.map_some, hdrop]

/-- The schema of the lines read so far, if they were all. -/
def finished (state : Schema × Option Table) : Schema :=
  state.1.close state.2

theorem ofLines_eq_finished (catalog : EnumCatalog) (lines : List Text) :
    ofLines catalog lines = finished (lines.foldl (step catalog) (empty, none)) := rfl

/-- A line that opens a table finishes the one before it, and perhaps the table itself. -/
theorem step_of_opened (hopened : opened? (Text.trim line) = some table)
    (state : Schema × Option Table) :
    step catalog state line =
      if Text.endsWith ';' (Text.trim line) then ((finished state).put table, none)
      else (finished state, some table) := by
  rw [step, hopened]
  rfl

/-- The name of the table and those of its columns are in lower case, and the columns' names are of
the letters that are looked for. -/
structure Folded (table : Table) : Prop where
  name : ∃ n, table.name = Text.lower n
  columns : ∀ column ∈ table.columns, ∃ n, (∀ c ∈ n, continuesName c) ∧
    column.name = Text.lower n

/-- What holds of every schema that was read: each table matters to rows, names are in lower
case, and no two tables have one name. -/
structure Invariant (schema : Schema) : Prop where
  relevant : ∀ table ∈ schema.tables, table.isRelevant
  folded : ∀ table ∈ schema.tables, Folded table
  nodup : (schema.tables.map (·.name)).Nodup

theorem invariant_empty : Invariant empty :=
  ⟨by simp [empty], by simp [empty], by simp [empty]⟩

/-- Putting a table in keeps the invariant. -/
theorem Invariant.put (h : Invariant schema) (htable : Folded table) :
    Invariant (schema.put table) := by
  have hsublist : (schema.tables.filter (·.name != table.name)).Sublist schema.tables :=
    List.filter_sublist
  have hnodup : ((schema.tables.filter (·.name != table.name)).map (·.name)).Nodup :=
    h.nodup.sublist (hsublist.map _)
  unfold Schema.put
  by_cases hrelevant : table.isRelevant
  · simp only [hrelevant, if_true]
    refine ⟨?_, ?_, ?_⟩
    · exact List.forall_mem_append.mpr
        ⟨fun t ht => h.relevant t (hsublist.subset ht), by simpa using hrelevant⟩
    · exact List.forall_mem_append.mpr
        ⟨fun t ht => h.folded t (hsublist.subset ht), by simpa using htable⟩
    · -- The filter has taken the name out, so it is new.
      rw [List.map_append, List.nodup_append]
      refine ⟨hnodup, by simp, ?_⟩
      intro n hn n' hn' heq
      obtain ⟨t, ht, rfl⟩ := List.mem_map.mp hn
      obtain rfl : n' = table.name := by simpa using hn'
      have hkept := (List.mem_filter.mp ht).2
      simp [heq] at hkept
  · simp only [hrelevant, Bool.false_eq_true, if_false]
    exact ⟨fun t ht => h.relevant t (hsublist.subset ht),
      fun t ht => h.folded t (hsublist.subset ht), hnodup⟩

/-- The invariant of a reading, with the table whose definition is open. -/
def Reading (state : Schema × Option Table) : Prop :=
  Invariant state.1 ∧ ∀ table ∈ state.2, Folded table

theorem Reading.finished (h : Reading s) : Invariant (finished s) := by
  obtain ⟨schema, opened⟩ := s
  cases opened with
  | none => exact h.1
  | some table => exact h.1.put (h.2 table rfl)

theorem folded_opened? (h : opened? line = some table) : Folded table := by
  rw [opened?_eq] at h
  obtain ⟨n, -, rfl⟩ := Option.map_eq_some_iff.mp h
  exact ⟨⟨n, rfl⟩, by simp⟩

/-- A column that was read has the name that stands on the line. -/
theorem exists_name_of_column? {catalog : EnumCatalog} {column : Column}
    (h : column? catalog line = some column) :
    ∃ n, (∀ c ∈ n, continuesName c) ∧ column.name = Text.lower n := by
  unfold column? at h
  split at h
  · simp at h
  · obtain ⟨found, hfound, rfl⟩ := Option.map_eq_some_iff.mp h
    have hwithin : (Pattern.one Text.isNameStart ++ .run continuesName).Within
        (continuesName ·) := by
      refine ⟨fun c hc => ?_, fun _ hc => hc⟩
      simp [continuesName, Text.isWord_of_isNameStart hc]
    have hsets : columnDefinition.Sets line
        fun k => k.slot = 1 → ∀ c ∈ k.text, continuesName c = true := by
      refine ⟨⟨⟨⟨sets_of_isPlain rfl, sets_of_isPlain rfl, ?_⟩, sets_of_isPlain rfl⟩,
        sets_of_isPlain rfl⟩, sets_of_isPlain rfl, ?_⟩
      · intro before y rest _ hy _ c hc
        exact hwithin.of_takes hy c (by simpa [Text.Capture.text] using hc)
      · simp
    refine ⟨_, ?_, rfl⟩
    exact Sets.captured (P := fun name => ∀ c ∈ name, continuesName c = true) hsets hfound (by simp)

/-- **One line** keeps the invariant. -/
theorem Reading.step (h : Reading s) (catalog : EnumCatalog) (line : Text) :
    Reading (step catalog s line) := by
  cases hopened : opened? (Text.trim line) with
  | some table =>
    have htable := folded_opened? hopened
    rw [step_of_opened hopened]
    split
    · exact ⟨h.finished.put htable, by simp⟩
    · exact ⟨h.finished, by simpa using htable⟩
  | none =>
    obtain ⟨schema, opened⟩ := s
    rw [Schema.step, hopened]
    cases opened with
    | none => exact h
    | some table =>
      have htable : Folded table := h.2 table rfl
      simp only
      split
      · exact ⟨h.1.put htable, by simp⟩
      · split
        · next column hcolumn =>
          refine ⟨h.1, ?_⟩
          have hname := exists_name_of_column? hcolumn
          have hnew : Folded { table with columns := table.columns ++ [column] } :=
            ⟨htable.name, List.forall_mem_append.mpr ⟨htable.columns, by simpa using hname⟩⟩
          simpa using hnew
        · exact h

/-- **Every schema that was read** has the invariant. -/
theorem invariant_ofLines (catalog : EnumCatalog) (lines : List Text) :
    Invariant (ofLines catalog lines) := by
  have hfold : ∀ state, Reading state → Reading (lines.foldl (step catalog) state) := by
    induction lines with
    | nil => exact fun _ h => h
    | cons line lines ih =>
      intro state h
      rw [List.foldl_cons]
      exact ih _ (h.step catalog line)
  rw [ofLines_eq_finished]
  exact (hfold (empty, none) ⟨invariant_empty, by simp⟩).finished

/-- Where no name comes twice, a table is found by its name. -/
theorem lookup_eq_some_iff (hnodup : (schema.tables.map (·.name)).Nodup) {name : Text} :
    schema.lookup name = some table ↔ table ∈ schema.tables ∧ table.name = name := by
  unfold lookup
  constructor
  · intro h
    exact ⟨List.mem_of_find?_eq_some h, by simpa using List.find?_some h⟩
  · rintro ⟨hmem, rfl⟩
    cases hfound : schema.tables.find? (·.name = table.name) with
    | none => simpa using List.find?_eq_none.mp hfound table hmem
    | some found =>
      have hname : found.name = table.name := by simpa using List.find?_some hfound
      rw [List.inj_on_of_nodup_map hnodup (List.mem_of_find?_eq_some hfound) hmem hname]

end Schema

/-! ## The maps -/

/-- Tables, each with some of its columns.  All names are in lower case. -/
structure ColumnMap where
  tables : Finmap fun _ : Text => Finset Text

namespace ColumnMap

/-- The map without tables. -/
def empty : ColumnMap := ⟨∅⟩

/-- Enters the columns of a table in place of earlier ones.  A table without columns is
left out. -/
def set (map : ColumnMap) (name : Text) (columns : Finset Text) : ColumnMap :=
  if columns = ∅ then ⟨map.tables.erase name⟩ else ⟨map.tables.insert name columns⟩

/-- Whether a column is entered for a table, in any case of the names. -/
def contains (map : ColumnMap) (name column : Text) : Bool :=
  (map.tables.lookup (Text.lower name)).any fun columns => decide (Text.lower column ∈ columns)

/-- Whether a table is in the map, in any case of the name. -/
def hasTable (map : ColumnMap) (name : Text) : Bool :=
  decide (Text.lower name ∈ map.tables)

/-- How many tables are in the map. -/
def size (map : ColumnMap) : Nat :=
  map.tables.keys.card

/-- Whether no table is in the map. -/
def isEmpty (map : ColumnMap) : Bool :=
  decide (map.size = 0)

end ColumnMap

/-- What has been read of a definition that is open. -/
structure OpenTable where
  name : Text
  /-- The names of the columns, in order. -/
  columns : List Text := []
  booleans : Finset Text := ∅
  enums : Finset Text := ∅

namespace OpenTable

/-- The table whose definition a line begins. -/
def ofLine? (line : Text) : Option OpenTable :=
  (Line.tableName? line).map fun name =>
    { name := Text.lower (Text.dropEndWhile (· = '(') name) }

/-- Takes in a line of the definition, without blanks around it. -/
def readLine (types : EnumCatalog) (opened : OpenTable) (line : Text) : OpenTable :=
  if line.isEmpty || Line.isComment line || Line.isKeyClause line then opened
  else
    match Schema.columnDefinition.matchStart line with
    | none => opened
    | some found =>
      let column := Text.lower (found.captured 1)
      let type := Schema.baseType (found.captured 2)
      let columns := opened.columns ++ [column]
      if Text.sameAsciiLetters type "BOOLEAN".toList then
        { opened with columns := columns, booleans := insert column opened.booleans }
      else if types.hasName type then
        { opened with columns := columns, enums := insert column opened.enums }
      else { opened with columns := columns }

end OpenTable

/-- What is known of tables: their columns of two kinds, and all columns in order of the
tables that have one of these kinds. -/
structure SchemaMaps where
  booleans : ColumnMap
  enums : ColumnMap
  layouts : Finmap fun _ : Text => List Text

namespace SchemaMaps

/-- The maps without tables. -/
def empty : SchemaMaps :=
  { booleans := .empty, enums := .empty, layouts := ∅ }

/-- Takes in a definition, which replaces an earlier one. -/
def finish (maps : SchemaMaps) (opened : OpenTable) : SchemaMaps :=
  { booleans := maps.booleans.set opened.name opened.booleans
    enums := maps.enums.set opened.name opened.enums
    layouts :=
      if opened.booleans = ∅ ∧ opened.enums = ∅ then maps.layouts.erase opened.name
      else maps.layouts.insert opened.name opened.columns }

/-- Takes in a definition that may be open. -/
def close (maps : SchemaMaps) : Option OpenTable → SchemaMaps
  | some opened => maps.finish opened
  | none => maps

/-- Reads one line.  The state holds the maps so far and the definition that is open. -/
def step (types : EnumCatalog) (state : SchemaMaps × Option OpenTable) (line : Text) :
    SchemaMaps × Option OpenTable :=
  let line := Text.trim line
  match OpenTable.ofLine? line with
  | some opened =>
    let maps := state.1.close state.2
    if Text.endsWith ';' line then (maps.finish opened, none) else (maps, some opened)
  | none =>
    match state.2 with
    | none => state
    | some opened =>
      if Text.startsWith ')' line then (state.1.finish opened, none)
      else (state.1, some (opened.readLine types line))

/-- The maps of converted lines. -/
def ofLines (types : EnumCatalog) (lines : List Text) : SchemaMaps :=
  let (maps, opened) := lines.foldl (step types) (empty, none)
  maps.close opened

/-- The columns of a table in order, in any case of the name. -/
def layout? (maps : SchemaMaps) (name : Text) : Option (List Text) :=
  maps.layouts.lookup (Text.lower name)

/-- Whether no table has columns of the two kinds. -/
def isEmpty (maps : SchemaMaps) : Bool :=
  maps.booleans.isEmpty && maps.enums.isEmpty

/-- The positions for columns of a table, the first of which has number `start`. -/
def positionsFrom (maps : SchemaMaps) (name : Text) : Nat → List Text → Rows.Positions
  | _, [] => []
  | start, column :: rest =>
    if maps.booleans.contains name column then
      (start, .boolean) :: maps.positionsFrom name (start + 1) rest
    else if maps.enums.contains name column then
      (start, .enumNull) :: maps.positionsFrom name (start + 1) rest
    else maps.positionsFrom name (start + 1) rest

/-- The positions for the rows of an insert statement. -/
def positions (maps : SchemaMaps) (header : Line.InsertHeader) : Rows.Positions :=
  if !maps.booleans.hasTable header.table && !maps.enums.hasTable header.table then []
  else
    match header.columns, maps.layout? header.table with
    | some columns, _ => maps.positionsFrom header.table 0 columns
    | none, some layout => maps.positionsFrom header.table 0 layout
    | none, none => []

end SchemaMaps

/-! ## What is entered -/

namespace ColumnMap

variable {map : ColumnMap} {name : Text} {columns : Finset Text}

/-- What is entered for a table is found, unless it is nothing. -/
theorem lookup_set_self (map : ColumnMap) (name : Text) (columns : Finset Text) :
    (map.set name columns).tables.lookup name = if columns = ∅ then none else some columns := by
  unfold set
  split
  · exact Finmap.lookup_erase name map.tables
  · exact Finmap.lookup_insert map.tables

/-- What is entered for a table changes nothing for another. -/
theorem lookup_set_of_ne {other : Text} (h : other ≠ name) (columns : Finset Text) :
    (map.set name columns).tables.lookup other = map.tables.lookup other := by
  unfold set
  split
  · exact Finmap.lookup_erase_ne h
  · exact Finmap.lookup_insert_of_ne map.tables h

/-- A map is empty if no table is found in it. -/
theorem isEmpty_iff : map.isEmpty ↔ ∀ name, name ∉ map.tables := by
  rw [isEmpty, decide_eq_true_eq, size, Finset.card_eq_zero, Finset.eq_empty_iff_forall_notMem]
  simp only [Finmap.mem_keys]

end ColumnMap

namespace SchemaMaps

variable {maps : SchemaMaps} {opened : OpenTable}

/-- A definition with columns of a kind gives the table its order. -/
theorem lookup_finish_self (maps : SchemaMaps) (opened : OpenTable) :
    (maps.finish opened).layouts.lookup opened.name =
      if opened.booleans = ∅ ∧ opened.enums = ∅ then none else some opened.columns := by
  unfold finish
  split
  · exact Finmap.lookup_erase opened.name maps.layouts
  · exact Finmap.lookup_insert maps.layouts

/-- A definition leaves the order of other tables as it was. -/
theorem lookup_finish_of_ne {name : Text} (h : name ≠ opened.name) :
    (maps.finish opened).layouts.lookup name = maps.layouts.lookup name := by
  unfold finish
  split
  · exact Finmap.lookup_erase_ne h
  · exact Finmap.lookup_insert_of_ne maps.layouts h

end SchemaMaps

/-! ## The maps know what the schema knows -/

namespace Table

variable {table : Table} {kind : ColumnKind}

/-- The names of the columns of a kind. -/
def columnsOf (table : Table) (kind : ColumnKind) : Finset Text :=
  ((table.columns.filter (·.kind = kind)).map (·.name)).toFinset

/-- A name is found among those of a kind if some column has both. -/
theorem mem_columnsOf {name : Text} : name ∈ table.columnsOf kind ↔
    ∃ column ∈ table.columns, column.name = name ∧ column.kind = kind := by
  simp only [columnsOf, List.mem_toFinset, List.mem_map, List.mem_filter, decide_eq_true_eq]
  constructor
  · rintro ⟨column, ⟨hmem, hkind⟩, hname⟩
    exact ⟨column, hmem, hname, hkind⟩
  · rintro ⟨column, hmem, hname, hkind⟩
    exact ⟨column, ⟨hmem, hkind⟩, hname⟩

/-- A table without columns of a kind has no names of that kind. -/
theorem columnsOf_eq_empty_iff : table.columnsOf kind = ∅ ↔ table.hasKind kind = false := by
  rw [hasKind, List.any_eq_false, Finset.eq_empty_iff_forall_notMem]
  simp only [mem_columnsOf, not_exists, not_and, decide_eq_true_eq]
  exact ⟨fun h column hmem => h column.name column hmem rfl, fun h _ column hmem _ => h column hmem⟩

/-- One more column is one more name of its kind. -/
theorem columnsOf_append (table : Table) (column : Column) (kind : ColumnKind) :
    columnsOf { table with columns := table.columns ++ [column] } kind =
      if column.kind = kind then insert column.name (table.columnsOf kind)
      else table.columnsOf kind := by
  ext name
  rw [mem_columnsOf]
  simp only [List.mem_append, List.mem_singleton, or_and_right, exists_or, exists_eq_left,
    ← mem_columnsOf]
  split
  · next hkind => rw [Finset.mem_insert, or_comm, eq_comm (a := name)]; simp [hkind]
  · next hkind => simp [hkind]

/-- A table matters to rows just if it has names of one of the two kinds. -/
theorem isRelevant_eq_false_iff : table.isRelevant = false ↔
    table.columnsOf .boolean = ∅ ∧ table.columnsOf .enumerated = ∅ := by
  rw [isRelevant, Bool.or_eq_false_iff, columnsOf_eq_empty_iff, columnsOf_eq_empty_iff]

end Table

/-- What has been read of a table, as it goes into the maps. -/
def OpenTable.ofTable (table : Table) : OpenTable where
  name := table.name
  columns := table.columns.map (·.name)
  booleans := table.columnsOf .boolean
  enums := table.columnsOf .enumerated

/-- Both readings begin a definition at the same lines. -/
theorem OpenTable.ofLine?_eq (line : Text) :
    ofLine? line = (Schema.opened? line).map ofTable := by
  unfold ofLine? Schema.opened?
  rw [Option.map_map]
  rfl

/-- **Both readings** take the same columns from a line. -/
theorem OpenTable.readLine_ofTable (types : EnumCatalog) (table : Table) (line : Text) :
    (ofTable table).readLine types line =
      match Schema.column? types line with
      | some column => ofTable { table with columns := table.columns ++ [column] }
      | none => ofTable table := by
  have hcolumn : ∀ column : Column, ofTable { table with columns := table.columns ++ [column] } =
      { name := table.name
        columns := table.columns.map (·.name) ++ [column.name]
        booleans := if column.kind = .boolean then insert column.name (table.columnsOf .boolean)
          else table.columnsOf .boolean
        enums := if column.kind = .enumerated then
            insert column.name (table.columnsOf .enumerated)
          else table.columnsOf .enumerated } := by
    intro column
    rw [ofTable, Table.columnsOf_append, Table.columnsOf_append, List.map_append]
    rfl
  unfold readLine Schema.column?
  split
  · rfl
  · cases Schema.columnDefinition.matchStart line with
    | none => rfl
    | some found =>
      simp only [Option.map_some, hcolumn, Schema.kindOf]
      split
      · rfl
      · split <;> rfl

namespace ColumnMap

variable {map : ColumnMap} {schema : Schema} {table : Table} {kind : ColumnKind}

/-- The map has the columns of a kind of every table of the schema that has any. -/
def Lists (map : ColumnMap) (kind : ColumnKind) (schema : Schema) : Prop :=
  ∀ name, map.tables.lookup name =
    ((schema.lookup name).map (·.columnsOf kind)).filter fun columns => decide (columns ≠ ∅)

/-- **One definition** goes into the map as it goes into the schema. -/
theorem Lists.set (h : map.Lists kind schema)
    (hkind : table.isRelevant = false → table.columnsOf kind = ∅) :
    (map.set table.name (table.columnsOf kind)).Lists kind (schema.put table) := by
  intro name
  by_cases hname : name = table.name
  · subst hname
    rw [lookup_set_self, Schema.lookup_put_self]
    cases hrelevant : table.isRelevant with
    | false => simp [hkind hrelevant]
    | true => by_cases hne : table.columnsOf kind = ∅ <;> simp [Option.filter_some, hne]
  · rw [lookup_set_of_ne hname, Schema.lookup_put_of_ne _ (Ne.symm hname)]
    exact h name

/-- A table is in the map just if it has columns of the kind. -/
theorem Lists.mem_iff (h : map.Lists kind schema) {name : Text} : name ∈ map.tables ↔
    ∃ table, schema.lookup name = some table ∧ table.hasKind kind := by
  rw [← Finmap.lookup_isSome, h]
  cases schema.lookup name with
  | none => simp
  | some table => simp [Option.isSome_filter, Table.columnsOf_eq_empty_iff]

/-- What is found in the map is a table's columns of the kind, and not nothing. -/
theorem Lists.exists_table (h : map.Lists kind schema) {name : Text} {columns : Finset Text}
    (hfound : map.tables.lookup name = some columns) : columns ≠ ∅ ∧
      ∃ table, schema.lookup name = some table ∧ table.columnsOf kind = columns := by
  rw [h, Option.filter_eq_some_iff, Option.map_eq_some_iff, decide_eq_true_eq] at hfound
  exact ⟨hfound.2, hfound.1⟩

theorem Lists.hasTable_eq (h : map.Lists kind schema) (name : Text) :
    map.hasTable name = schema.tableHasKind name kind := by
  rw [Bool.eq_iff_iff, hasTable, decide_eq_true_eq, h.mem_iff, Schema.tableHasKind,
    Option.any_eq_true]
  rfl

/-- A column is in the map just if it is of the kind. -/
theorem Lists.contains_eq (h : map.Lists kind schema) (name column : Text) :
    map.contains name column = schema.columnHasKind name column kind := by
  rw [contains, h, Schema.columnHasKind]
  change _ = (schema.lookup (Text.lower name)).any _
  cases schema.lookup (Text.lower name) with
  | none => rfl
  | some table =>
    have hcolumn : table.columnHasKind column kind ↔ Text.lower column ∈ table.columnsOf kind := by
      simp [Table.columnHasKind, Table.mem_columnsOf]
    rw [Bool.eq_iff_iff, Option.any_some, hcolumn]
    by_cases hne : table.columnsOf kind = ∅ <;> simp [hne]

/-- The map has as many tables as the schema has with columns of the kind. -/
theorem Lists.size_eq (h : map.Lists kind schema) (hnodup : (schema.tables.map (·.name)).Nodup) :
    map.size = schema.countKind kind := by
  have hkeys : map.tables.keys =
      ((schema.tables.filter (·.hasKind kind)).map (·.name)).toFinset := by
    ext name
    rw [Finmap.mem_keys, h.mem_iff]
    simp only [Schema.lookup_eq_some_iff hnodup, List.mem_toFinset, List.mem_map, List.mem_filter]
    constructor
    · rintro ⟨table, ⟨hmem, hname⟩, hkind⟩
      exact ⟨table, ⟨hmem, hkind⟩, hname⟩
    · rintro ⟨table, ⟨hmem, hkind⟩, hname⟩
      exact ⟨table, ⟨hmem, hname⟩, hkind⟩
  rw [size, hkeys, List.toFinset_card_of_nodup, List.length_map, Schema.countKind,
    List.countP_eq_length_filter]
  exact hnodup.sublist (List.filter_sublist.map _)

end ColumnMap

namespace SchemaMaps

variable {maps : SchemaMaps} {schema : Schema} {types : EnumCatalog}

/-- The three maps hold what the schema holds. -/
structure Represents (maps : SchemaMaps) (schema : Schema) : Prop where
  booleans : maps.booleans.Lists .boolean schema
  enums : maps.enums.Lists .enumerated schema
  layouts : ∀ name, maps.layouts.lookup name =
    (schema.lookup name).map fun table => table.columns.map (·.name)

theorem represents_empty : Represents empty .empty :=
  ⟨fun _ => rfl, fun _ => rfl, fun _ => rfl⟩

/-- **One definition** keeps maps and schema together. -/
theorem Represents.finish (h : Represents maps schema) (table : Table) :
    Represents (maps.finish (.ofTable table)) (schema.put table) := by
  refine ⟨h.booleans.set fun hrelevant => (Table.isRelevant_eq_false_iff.mp hrelevant).1,
    h.enums.set fun hrelevant => (Table.isRelevant_eq_false_iff.mp hrelevant).2, fun name => ?_⟩
  by_cases hname : name = table.name
  · subst hname
    have hself : (maps.finish (.ofTable table)).layouts.lookup table.name =
        if table.columnsOf .boolean = ∅ ∧ table.columnsOf .enumerated = ∅ then none
        else some (table.columns.map (·.name)) := lookup_finish_self maps (.ofTable table)
    rw [hself, Schema.lookup_put_self]
    simp only [← Table.isRelevant_eq_false_iff]
    cases table.isRelevant <;> rfl
  · rw [lookup_finish_of_ne hname, Schema.lookup_put_of_ne _ (Ne.symm hname)]
    exact h.layouts name

/-- A definition that may be open keeps them together too. -/
theorem Represents.close (h : Represents maps schema) (opened : Option Table) :
    Represents (maps.close (opened.map .ofTable)) (schema.close opened) := by
  cases opened with
  | none => exact h
  | some table => exact h.finish table

/-- Both readings stand in the same definition and know the same. -/
def Together (state : SchemaMaps × Option OpenTable) (other : Schema × Option Table) : Prop :=
  Represents state.1 other.1 ∧ state.2 = other.2.map .ofTable

/-- **One line** keeps both readings together. -/
theorem Together.step {state : SchemaMaps × Option OpenTable} {other : Schema × Option Table}
    (h : Together state other) (types : EnumCatalog) (line : Text) :
    Together (SchemaMaps.step types state line) (Schema.step types other line) := by
  obtain ⟨maps, _⟩ := state
  obtain ⟨schema, opened⟩ := other
  obtain ⟨hmaps, rfl⟩ := h
  unfold SchemaMaps.step Schema.step
  dsimp only
  rw [OpenTable.ofLine?_eq]
  cases Schema.opened? (Text.trim line) with
  | some table =>
    simp only [Option.map_some]
    split
    · exact ⟨(hmaps.close opened).finish table, rfl⟩
    · exact ⟨hmaps.close opened, rfl⟩
  | none =>
    cases opened with
    | none => exact ⟨hmaps, rfl⟩
    | some table =>
      simp only [Option.map_some, Option.map_none]
      split
      · exact ⟨hmaps.finish table, rfl⟩
      · rw [OpenTable.readLine_ofTable]
        cases Schema.column? types (Text.trim line) with
        | none | some column => exact ⟨hmaps, rfl⟩

/-- **Every script** gives maps that hold what its schema holds. -/
theorem represents_ofLines (types : EnumCatalog) (lines : List Text) :
    Represents (ofLines types lines) (Schema.ofLines types lines) := by
  have hfold : ∀ state other, Together state other →
      Together (lines.foldl (SchemaMaps.step types) state)
        (lines.foldl (Schema.step types) other) := by
    induction lines with
    | nil => exact fun _ _ h => h
    | cons line lines ih =>
      intro state other h
      rw [List.foldl_cons, List.foldl_cons]
      exact ih _ _ (h.step types line)
  obtain ⟨hmaps, hopened⟩ := hfold (empty, none) (.empty, none) ⟨represents_empty, rfl⟩
  change Represents (SchemaMaps.close _ _) (Schema.close _ _)
  rw [hopened]
  exact hmaps.close _

/-- Two readings of maps know the same of a table: its columns of each kind and their order. -/
structure AgreeOn (maps other : SchemaMaps) (name : Text) : Prop where
  booleans : maps.booleans.tables.lookup (Text.lower name) =
    other.booleans.tables.lookup (Text.lower name)
  enums : maps.enums.tables.lookup (Text.lower name) =
    other.enums.tables.lookup (Text.lower name)
  layout : maps.layout? name = other.layout? name

/-- Maps know the same of a table if the schemas do. -/
theorem Represents.agreeOn (h : Represents maps schema) {maps' : SchemaMaps} {schema' : Schema}
    (h' : Represents maps' schema') {name : Text}
    (hlookup : schema.lookup (Text.lower name) = schema'.lookup (Text.lower name)) :
    AgreeOn maps maps' name := by
  refine ⟨?_, ?_, ?_⟩
  · rw [h.booleans, h'.booleans, hlookup]
  · rw [h.enums, h'.enums, hlookup]
  · rw [layout?, layout?, h.layouts, h'.layouts, hlookup]

/-! ## The maps fit together -/

section Fit

variable (h : Represents maps schema) (hrelevant : ∀ table ∈ schema.tables, table.isRelevant)
include h

/-- Each column of the two kinds is in the order of its table. -/
theorem Represents.exists_layout {map : ColumnMap} {kind : ColumnKind}
    (hmap : map.Lists kind schema) {name : Text} {columns : Finset Text}
    (hfound : map.tables.lookup name = some columns) :
    ∃ layout, maps.layouts.lookup name = some layout ∧ ∀ column ∈ columns, column ∈ layout := by
  obtain ⟨-, table, htable, rfl⟩ := hmap.exists_table hfound
  refine ⟨_, (h.layouts name).trans (by rw [htable]; rfl), fun column hcolumn => ?_⟩
  obtain ⟨entry, hentry, rfl, -⟩ := Table.mem_columnsOf.mp hcolumn
  exact List.mem_map_of_mem hentry

include hrelevant

/-- **The order is known** of just the tables in the other two maps. -/
theorem Represents.mem_layouts_iff (name : Text) :
    name ∈ maps.layouts ↔ name ∈ maps.booleans.tables ∨ name ∈ maps.enums.tables := by
  rw [← Finmap.lookup_isSome, h.layouts, h.booleans.mem_iff, h.enums.mem_iff]
  cases htable : schema.lookup name with
  | none => simp
  | some table =>
    have hkinds := hrelevant table (List.mem_of_find?_eq_some htable)
    rw [Table.isRelevant, Bool.or_eq_true] at hkinds
    simpa using hkinds

/-- The maps are empty just if no order is known. -/
theorem Represents.isEmpty_iff : maps.isEmpty ↔ ∀ name, name ∉ maps.layouts := by
  rw [isEmpty, Bool.and_eq_true, ColumnMap.isEmpty_iff, ColumnMap.isEmpty_iff, ← forall_and]
  simp only [h.mem_layouts_iff hrelevant, not_or]

end Fit

/-! ## What rows need -/

/-- The same columns of a table are counted off. -/
theorem Represents.positionsFrom_eq (h : Represents maps schema) {name : Text} {table : Table}
    (htable : schema.table? name = some table) (start : Nat) (columns : List Text) :
    maps.positionsFrom name start columns = Rows.positionsFrom table start columns := by
  have hcontains : ∀ {map : ColumnMap} {kind : ColumnKind}, map.Lists kind schema →
      ∀ column, map.contains name column = table.columnHasKind column kind := by
    intro map kind hmap column
    rw [hmap.contains_eq, Schema.columnHasKind, htable, Option.any_some]
  induction columns generalizing start with
  | nil => rfl
  | cons column rest ih =>
    rw [positionsFrom, Rows.positionsFrom, Rows.columnCoercion?, hcontains h.booleans,
      hcontains h.enums, ih]
    split
    · rfl
    · split <;> rfl

/-- **Rows** are changed at the same positions with the maps as with the schema. -/
theorem Represents.positions_eq (h : Represents maps schema)
    (hrelevant : ∀ table ∈ schema.tables, table.isRelevant)
    (header : Line.InsertHeader) : maps.positions header = Rows.positions schema header := by
  have hlayout : maps.layout? header.table =
      (schema.table? header.table).map fun table => table.columns.map (·.name) :=
    h.layouts (Text.lower header.table)
  rw [positions, Rows.positions, h.booleans.hasTable_eq, h.enums.hasTable_eq,
    Schema.tableHasKind, Schema.tableHasKind, hlayout]
  cases htable : schema.table? header.table with
  | none => rfl
  | some table =>
    have hkinds := hrelevant table (List.mem_of_find?_eq_some htable)
    rw [Table.isRelevant, Bool.or_eq_true] at hkinds
    rw [Option.any_some, Option.any_some, if_neg (by rcases hkinds with h | h <;> simp [h])]
    cases header.columns with
    | none => exact h.positionsFrom_eq htable 0 _
    | some columns => exact h.positionsFrom_eq htable 0 columns

/-- The maps answer every question that is put to the schema. -/
structure Answers (maps : SchemaMaps) (schema : Schema) : Prop where
  booleanTable : ∀ name, maps.booleans.hasTable name = schema.tableHasKind name .boolean
  enumTable : ∀ name, maps.enums.hasTable name = schema.tableHasKind name .enumerated
  booleanColumn : ∀ name column,
    maps.booleans.contains name column = schema.columnHasKind name column .boolean
  enumColumn : ∀ name column,
    maps.enums.contains name column = schema.columnHasKind name column .enumerated
  layout : ∀ name, maps.layout? name = schema.layout? name
  booleanCount : maps.booleans.size = schema.countKind .boolean
  enumCount : maps.enums.size = schema.countKind .enumerated
  isEmpty : maps.isEmpty = schema.isEmpty
  positions : ∀ header, maps.positions header = Rows.positions schema header

/-- **The maps answer every question as the schema does.** -/
theorem answers_ofLines (types : EnumCatalog) (lines : List Text) :
    Answers (ofLines types lines) (Schema.ofLines types lines) := by
  have hmaps := represents_ofLines types lines
  have hschema := Schema.invariant_ofLines types lines
  have hlayout : ∀ name, (ofLines types lines).layouts.lookup name = none ↔
      (Schema.ofLines types lines).lookup name = none := by
    intro name
    rw [hmaps.layouts, Option.map_eq_none_iff]
  refine
    { booleanTable := hmaps.booleans.hasTable_eq
      enumTable := hmaps.enums.hasTable_eq
      booleanColumn := hmaps.booleans.contains_eq
      enumColumn := hmaps.enums.contains_eq
      layout := fun name => hmaps.layouts (Text.lower name)
      booleanCount := hmaps.booleans.size_eq hschema.nodup
      enumCount := hmaps.enums.size_eq hschema.nodup
      isEmpty := ?_
      positions := hmaps.positions_eq hschema.relevant }
  rw [Bool.eq_iff_iff, hmaps.isEmpty_iff hschema.relevant, Schema.isEmpty, List.isEmpty_iff,
    List.eq_nil_iff_forall_not_mem]
  simp only [← Finmap.lookup_eq_none, hlayout]
  constructor
  · intro hnone table hmem
    have hfound := (Schema.lookup_eq_some_iff hschema.nodup).mpr ⟨hmem, rfl⟩
    rw [hnone] at hfound
    cases hfound
  · intro hnone name
    exact List.find?_eq_none.mpr fun table hmem => absurd hmem (hnone table)

/-- **What the maps hold.**  No table is in a map without columns; the tables with a known
order are those with truth values or enumerations; each column of these kinds is in the
order of its table; the maps are empty just if no order is known; and they answer all that
the schema answers, down to the positions at which rows are changed. -/
theorem ofLines_holds (types : EnumCatalog) (lines : List Text) :
    let maps := ofLines types lines
    (∀ name columns, maps.booleans.tables.lookup name = some columns ∨
        maps.enums.tables.lookup name = some columns → columns ≠ ∅) ∧
      (∀ name, name ∈ maps.layouts ↔ name ∈ maps.booleans.tables ∨ name ∈ maps.enums.tables) ∧
      (∀ name columns, maps.booleans.tables.lookup name = some columns ∨
          maps.enums.tables.lookup name = some columns →
        ∃ layout, maps.layouts.lookup name = some layout ∧ ∀ column ∈ columns, column ∈ layout) ∧
      (maps.isEmpty ↔ ∀ name, name ∉ maps.layouts) ∧
      Answers maps (Schema.ofLines types lines) := by
  intro maps
  have h : Represents maps (Schema.ofLines types lines) := represents_ofLines types lines
  have hrelevant := (Schema.invariant_ofLines types lines).relevant
  refine ⟨fun name columns hfound => ?_, h.mem_layouts_iff hrelevant,
    fun name columns hfound => ?_, h.isEmpty_iff hrelevant, answers_ofLines types lines⟩
  · rcases hfound with hfound | hfound
    · exact (h.booleans.exists_table hfound).1
    · exact (h.enums.exists_table hfound).1
  · exact hfound.elim (h.exists_layout h.booleans) (h.exists_layout h.enums)

end SchemaMaps

end DumpBridge
