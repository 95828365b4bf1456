import DumpBridge.Proofs.Table.Maps

/-!
# What is known of a table

A table may be defined more than once, and its last definition counts.  Two readings
of a script are `Synced` at a name if both stand inside the same definition of the
table, or both outside and know the same of it.  Every line keeps them synced
(`synced_step`), and a line that begins a definition of the table brings any two
readings together (`synced_of_opened`).  So what comes before a definition does not
matter (`ofLines_append`), nor do other tables after it (`lookup_lastDefinition`).
The same holds of the three maps, which know what the schema knows.
-/

namespace DumpBridge.Schema

open Text (Pattern)
open Text.Pattern (Sets sets_of_isPlain)
open Line (tableName?)

/-! ## Names -/

/-- Whether a line begins the definition of a table. -/
def opens (line : Text) : Bool :=
  (tableName? (Text.trim line)).isSome

/-- Whether a line begins the definition of a table with the name, in any case. -/
def names (name line : Text) : Bool :=
  (tableName? (Text.trim line)).any fun n => Text.lower n = Text.lower name

variable {name line : Text} {catalog : EnumCatalog} {schema : Schema} {table : Table}
  {s s' : Schema × Option Table} {lines : List Text}

/-- A line opens a table just if one is read off it. -/
theorem opens_iff : opens line ↔ ∃ table, opened? (Text.trim line) = some table := by
  rw [opens, opened?_eq, Option.isSome_iff_exists]
  simp [Option.map_eq_some_iff]

theorem names_eq (name line : Text) :
    names name line = (opened? (Text.trim line)).any (·.name = Text.lower name) := by
  rw [names, opened?_eq, Option.any_map]

theorem opened?_of_names (h : names name line) :
    ∃ table, opened? (Text.trim line) = some table ∧ table.name = Text.lower name := by
  rw [names_eq, Option.any_eq_true] at h
  simpa using h

theorem table?_eq_lookup (schema : Schema) (name : Text) :
    schema.table? name = schema.lookup (Text.lower name) := rfl

/-! ## Two readings -/

/-- `Synced name s s'`: both readings stand inside the same definition of the table, or both
outside and know the same of it. -/
inductive Synced (name : Text) : Schema × Option Table → Schema × Option Table → Prop
  | inside {schema schema' : Schema} {table : Table} (hname : table.name = name) :
      Synced name (schema, some table) (schema', some table)
  | outside {s s' : Schema × Option Table} (hopen : ∀ t ∈ s.2, t.name ≠ name)
      (hopen' : ∀ t ∈ s'.2, t.name ≠ name) (hknown : s.1.lookup name = s'.1.lookup name) :
      Synced name s s'

/-- In step, two schemas have the same table of the name when they are finished. -/
theorem Synced.lookup_finished (h : Synced name s s') :
    (finished s).lookup name = (finished s').lookup name := by
  cases h with
  | @inside schema schema' table hname =>
    subst hname
    rw [finished, finished, close, close, lookup_put_self, lookup_put_self]
  | outside hopen hopen' hknown =>
    rw [finished, finished, lookup_close _ _ hopen, lookup_close _ _ hopen', hknown]

/-- **A line that begins a definition** of the table brings any two readings together. -/
theorem synced_of_opened (hopened : opened? (Text.trim line) = some table)
    (hname : table.name = name)
    (s s' : Schema × Option Table) : Synced name (step catalog s line) (step catalog s' line) := by
  rw [step_of_opened hopened, step_of_opened hopened]
  split
  · subst hname
    exact .outside (by simp) (by simp) (by rw [lookup_put_self, lookup_put_self])
  · exact .inside hname

/-- **A line that opens another table** leaves what is known of this one. -/
theorem lookup_step_of_opened (catalog : EnumCatalog)
    (hopened : opened? (Text.trim line) = some table) (hname : table.name ≠ name)
    (state : Schema × Option Table) :
    (step catalog state line).1.lookup name = (finished state).lookup name ∧
      ∀ t ∈ (step catalog state line).2, t.name ≠ name := by
  rw [step_of_opened hopened]
  split
  · exact ⟨lookup_put_of_ne _ hname, by simp⟩
  · exact ⟨rfl, by simpa using hname⟩

/-- **One line** keeps two readings synced. -/
theorem synced_step (h : Synced name s s') (line : Text) :
    Synced name (step catalog s line) (step catalog s' line) := by
  cases hopened : opened? (Text.trim line) with
  | some table =>
    by_cases hname : table.name = name
    · exact synced_of_opened hopened hname s s'
    · obtain ⟨hlookup, hopen⟩ := lookup_step_of_opened catalog hopened hname s
      obtain ⟨hlookup', hopen'⟩ := lookup_step_of_opened catalog hopened hname s'
      exact .outside hopen hopen' (by rw [hlookup, hlookup', h.lookup_finished])
  | none =>
    cases h with
    | @inside schema schema' table hname =>
      simp only [step, hopened]
      split
      · subst hname
        exact .outside (by simp) (by simp) (by rw [lookup_put_self, lookup_put_self])
      · split
        · exact .inside hname
        · exact .inside hname
    | outside hopen hopen' hknown =>
      have hline : (opened? (Text.trim line)).any (·.name = name) = false := by
        rw [hopened]; rfl
      obtain ⟨hlookup, hopen⟩ := lookup_step catalog s line hopen hline
      obtain ⟨hlookup', hopen'⟩ := lookup_step catalog s' line hopen' hline
      exact .outside hopen hopen' (by rw [hlookup, hlookup', hknown])

/-- **Two schemas in step stay in step** through the same lines. -/
theorem synced_foldl (h : Synced name s s') (lines : List Text) :
    Synced name (lines.foldl (step catalog) s) (lines.foldl (step catalog) s') := by
  induction lines generalizing s s' with
  | nil => exact h
  | cons line lines ih =>
    rw [List.foldl_cons, List.foldl_cons]
    exact ih (synced_step h line)

/-! ## Scripts put together -/

/-- Lines of other tables, the first of which begins a definition, change nothing for the
table. -/
theorem lookup_foldl_of_opens (hopens : lines.head?.all opens)
    (hnames : ∀ line ∈ lines, names name line = false) (state : Schema × Option Table) :
    (finished (lines.foldl (step catalog) state)).lookup (Text.lower name) =
      (finished state).lookup (Text.lower name) := by
  cases lines with
  | nil => rfl
  | cons line lines =>
    obtain ⟨hline, hlines⟩ := List.forall_mem_cons.mp hnames
    obtain ⟨table, hopened⟩ := opens_iff.mp (by simpa using hopens)
    have hname : table.name ≠ Text.lower name := by
      rw [names_eq, hopened] at hline
      simpa using hline
    obtain ⟨hlookup, hopen⟩ := lookup_step_of_opened catalog hopened hname state
    have hrest := lookup_foldl catalog lines (step catalog state line) hopen fun l hl => by
      rw [← names_eq]
      exact hlines l hl
    rw [List.foldl_cons, finished, hrest, hlookup]

/-- Lines that define the table give what is known of it, whatever comes before them. -/
theorem lookup_foldl_of_names (hnames : ∃ line ∈ lines, names name line)
    (s s' : Schema × Option Table) :
    (finished (lines.foldl (step catalog) s)).lookup (Text.lower name) =
      (finished (lines.foldl (step catalog) s')).lookup (Text.lower name) := by
  obtain ⟨line, hline, hname⟩ := hnames
  obtain ⟨earlier, later, rfl⟩ := List.append_of_mem hline
  obtain ⟨table, hopened, htable⟩ := opened?_of_names hname
  rw [List.foldl_append, List.foldl_append, List.foldl_cons, List.foldl_cons]
  exact (synced_foldl (synced_of_opened hopened htable _ _) later).lookup_finished

/-- The lines of the last definition of a table, up to the next definition. -/
def lastDefinition (name : Text) : List Text → List Text
  | [] => []
  | line :: rest =>
    match lastDefinition name rest with
    | [] => if names name line then line :: rest.takeWhile (!opens ·) else []
    | found => found

/-- Without a last definition no line names the table. -/
theorem lastDefinition_eq_nil (h : lastDefinition name lines = []) :
    ∀ line ∈ lines, names name line = false := by
  fun_induction lastDefinition name lines with
  | case1 => simp
  | case2 => simp at h
  | case3 line rest hrest hline ih =>
    exact List.forall_mem_cons.mpr ⟨by simpa using hline, ih hrest⟩
  | case4 line rest hfound _ => exact absurd h hfound

/-- **Only the last definition counts.** -/
theorem lookup_lastDefinition (state : Schema × Option Table)
    (hdefined : lastDefinition name lines ≠ []) :
    (finished (lines.foldl (step catalog) state)).lookup (Text.lower name) =
      (ofLines catalog (lastDefinition name lines)).lookup (Text.lower name) := by
  fun_induction lastDefinition name lines generalizing state with
  | case1 => exact absurd rfl hdefined
  | case2 line rest hrest hname ih =>
    obtain ⟨table, hopened, htable⟩ := opened?_of_names hname
    have hlater : ∀ l ∈ rest.dropWhile (!opens ·), names name l = false := fun l hl =>
      lastDefinition_eq_nil hrest l (List.dropWhile_subset _ hl)
    have hhead : (rest.dropWhile (!opens ·)).head?.all opens := by
      have hstop := List.head?_dropWhile_not (!opens ·) rest
      cases hdrop : (rest.dropWhile (!opens ·)).head? with
      | none => rfl
      | some l => simpa [hdrop] using hstop
    have hsynced : Synced (Text.lower name) (step catalog state line)
        (step catalog (empty, none) line) :=
      synced_of_opened hopened htable _ _
    have hsplit : (line :: rest).foldl (step catalog) state =
        (rest.dropWhile (!opens ·)).foldl (step catalog)
        ((rest.takeWhile (!opens ·)).foldl (step catalog) (step catalog state line)) := by
      rw [← List.foldl_append, List.takeWhile_append_dropWhile, List.foldl_cons]
    rw [hsplit, lookup_foldl_of_opens hhead hlater, ofLines_eq_finished, List.foldl_cons]
    exact (synced_foldl hsynced _).lookup_finished
  | case3 line rest hrest hline ih => exact absurd rfl hdefined
  | case4 line rest hfound ih =>
    rw [List.foldl_cons]
    exact ih _ hdefined

/-- `AgreeOn schema other name`: the two schemas know the same of a table: its layout, whether
it has columns of a kind, and which columns they are. -/
structure AgreeOn (schema other : Schema) (name : Text) : Prop where
  layout : schema.layout? name = other.layout? name
  kinds : ∀ kind, schema.tableHasKind name kind = other.tableHasKind name kind
  columns : ∀ column kind, schema.columnHasKind name column kind =
    other.columnHasKind name column kind

/-- Schemas with the same table of a name agree on it in every respect. -/
theorem agreeOn_of_lookup {other : Schema}
    (h : schema.lookup (Text.lower name) = other.lookup (Text.lower name)) :
    AgreeOn schema other name := by
  rw [← table?_eq_lookup, ← table?_eq_lookup] at h
  refine ⟨?_, fun kind => ?_, fun column kind => ?_⟩
  · rw [layout?, layout?, h]
  · rw [tableHasKind, tableHasKind, h]
  · rw [columnHasKind, columnHasKind, h]

/-- `SameTable catalog lines other name`: of a table both scripts say the same, in their
schemas and in their maps. -/
def SameTable (catalog : EnumCatalog) (lines other : List Text) (name : Text) : Prop :=
  AgreeOn (ofLines catalog lines) (ofLines catalog other) name ∧
    SchemaMaps.AgreeOn (.ofLines catalog lines) (.ofLines catalog other) name

/-- What the schemas know of the table decides what the maps know. -/
theorem sameTable_of_lookup {other : List Text}
    (h : (ofLines catalog lines).lookup (Text.lower name) =
      (ofLines catalog other).lookup (Text.lower name)) : SameTable catalog lines other name :=
  ⟨agreeOn_of_lookup h, (SchemaMaps.represents_ofLines catalog lines).agreeOn
    (SchemaMaps.represents_ofLines catalog other) h⟩

/-- **Scripts put together.**  Of a table that the second script defines, what that script
says is known, and of any other what the first one says.  Either way only the last
definition of the table counts.  This holds of the schema and of each of the three maps. -/
theorem ofLines_append (catalog : EnumCatalog) (earlier later : List Text)
    (hopens : later.head?.any opens) (name : Text) :
    ((∃ line ∈ later, names name line) → SameTable catalog (earlier ++ later) later name) ∧
      ((∀ line ∈ later, names name line = false) →
        SameTable catalog (earlier ++ later) earlier name) ∧
      ∀ lines, SameTable catalog lines (lastDefinition name lines) name := by
  have happend : ofLines catalog (earlier ++ later) =
      finished (later.foldl (step catalog) (earlier.foldl (step catalog) (empty, none))) := by
    rw [← List.foldl_append, ofLines_eq_finished]
  refine ⟨fun hnames => ?_, fun hnames => ?_, fun lines => ?_⟩
  · refine sameTable_of_lookup ?_
    rw [happend, ofLines_eq_finished catalog later]
    exact lookup_foldl_of_names hnames _ _
  · have hhead : later.head?.all opens := by
      cases hhead : later.head? with
      | none => rfl
      | some line => simpa [hhead] using hopens
    refine sameTable_of_lookup ?_
    rw [happend, ofLines_eq_finished catalog earlier]
    exact lookup_foldl_of_opens hhead hnames _
  · refine sameTable_of_lookup ?_
    by_cases hdefined : lastDefinition name lines = []
    · have hnames := lastDefinition_eq_nil hdefined
      rw [hdefined, ofLines_eq_finished]
      refine lookup_foldl catalog lines (empty, none) (by simp) fun line hline => ?_
      rw [← names_eq]
      exact hnames line hline
    · rw [ofLines_eq_finished catalog lines]
      exact lookup_lastDefinition (empty, none) hdefined

/-- The second definition of `T` has no column that matters to rows, so nothing is known of the
table; the table `u` keeps its column. -/
theorem ofLines_append_redefined :
    let earlier := ["CREATE TABLE T (".toList, "  a BOOLEAN".toList, ");".toList,
      "CREATE TABLE u (".toList, "  b BOOLEAN".toList]
    let later := ["CREATE TABLE t (".toList, "  a INTEGER".toList, ");".toList]
    later.head?.any opens ∧
      SameTable .empty (earlier ++ later) later "T".toList ∧
      SameTable .empty (earlier ++ later) earlier "U".toList ∧
      (ofLines .empty later).layout? "T".toList = none ∧
      (ofLines .empty earlier).layout? "U".toList = some ["b".toList] := by
  intro earlier later
  have hopens : later.head?.any opens := by decide +kernel
  have happend := ofLines_append .empty earlier later hopens
  refine ⟨hopens, (happend "T".toList).1 ?_, (happend "U".toList).2.1 ?_, ?_, ?_⟩
  · exact ⟨"CREATE TABLE t (".toList, by simp [later], by decide +kernel⟩
  · decide +kernel
  · decide +kernel
  · decide +kernel

end DumpBridge.Schema
