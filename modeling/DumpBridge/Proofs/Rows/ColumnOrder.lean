import DumpBridge.Proofs.Rows.ColumnNeeds
import DumpBridge.Proofs.Rows.Listing

/-!
# The order of columns

An `InsertStatement` lists its columns and has an item for each of them in every tuple.
`InsertStatement.permute` gives columns and items another order, and
`InsertStatement.coerced` says, column by column, what the statement becomes.

The two commute, and this is what a run does: `coerceLines_permute` compares the run over a
statement with the run over the same in another order.  The positions carried from line to
line differ, but each follows the columns of its own list (`follows_permute`).
-/

namespace DumpBridge.Rows

open Text (isWord)
open Line (InsertHeader)
open Line.InsertHeader (columnName parse?)

variable {schema : Schema} {targets : Positions} {n : Nat} {needs : Fin (n + 1) → Option Coercion}

/-! ## Headers -/

/-- The text of a header with a list of columns. -/
def headText (front : Text) (columns : Fin (n + 1) → Text) (back : Text) : Text :=
  front ++ '(' :: (Text.join [','] (List.ofFn columns) ++ ')' :: back)

/-- A header with a list of columns.  A list always names a column: `()` names one without
letters. -/
structure ListedHeader (n : Nat) where
  front : Text
  table : Text
  columns : Fin (n + 1) → Text
  back : Text
  front_plain : '(' ∉ front
  columns_plain : ∀ i, ',' ∉ columns i ∧ ')' ∉ columns i
  parsed : parse? (headText front columns back) =
    some { table := table
           columns := some (List.ofFn fun i => columnName (columns i))
           length := (headText front columns back).length }

namespace ListedHeader

def text (h : ListedHeader n) : Text :=
  headText h.front h.columns h.back

def header (h : ListedHeader n) : InsertHeader :=
  { table := h.table
    columns := some (List.ofFn fun i => columnName (h.columns i))
    length := h.text.length }

/-- **Any order** of the columns is read behind the same words, whatever follows the header. -/
theorem parse?_headText (h : ListedHeader n) (σ : Equiv.Perm (Fin (n + 1))) (rest : Text)
    (hedge : rest.head?.any isWord = false) :
    parse? (headText h.front (h.columns ∘ σ) h.back ++ rest) =
      some { table := h.table
             columns := some (List.ofFn fun i => columnName (h.columns (σ i)))
             length := (headText h.front (h.columns ∘ σ) h.back).length } := by
  have hparen : ∀ τ : Equiv.Perm (Fin (n + 1)),
      ')' ∉ Text.join [','] (List.ofFn (h.columns ∘ τ)) := by
    intro τ
    refine Text.not_mem_join (by decide) (List.forall_mem_ofFn_iff.mpr fun i => ?_)
    exact (h.columns_plain (τ i)).2
  have hcut : Text.cut ',' (Text.join [','] (List.ofFn (h.columns ∘ σ))) =
      List.ofFn (h.columns ∘ σ) := by
    refine Text.cut_join (by simp) (List.forall_mem_ofFn_iff.mpr fun i => ?_)
    exact (h.columns_plain (σ i)).1
  have hparse := InsertHeader.parse?_relist h.parsed (by simp) rfl h.front_plain
    (hparen (Equiv.refl _)) (hparen σ) hedge
  rw [hcut, List.map_ofFn] at hparse
  simpa [headText] using hparse

def permute (σ : Equiv.Perm (Fin (n + 1))) (h : ListedHeader n) : ListedHeader n :=
  { h with
    columns := h.columns ∘ σ
    columns_plain := fun i => h.columns_plain (σ i)
    parsed := by simpa using h.parse?_headText σ [] rfl }

end ListedHeader

/-! ## Statements -/

/-- A statement: the line with its header, and the lines on which it goes on. -/
structure InsertStatement (n : Nat) where
  head : ListedHeader n
  first : TupleLine n
  further : List (FurtherLine n)
  edge : first.tuples = [] → first.rest.head?.any isWord = false

namespace InsertStatement

/-- The line with the header. -/
def line (s : InsertStatement n) : Text :=
  s.head.text ++ s.first.text

def lines (s : InsertStatement n) : List Text :=
  s.line :: s.further.map (·.text)

theorem lines_append (s : InsertStatement n) (after : List Text) :
    s.lines ++ after = s.line :: (s.further.map (·.text) ++ after) := rfl

/-- What the columns of the list need. -/
def columnNeeds (s : InsertStatement n) (schema : Schema) : Fin (n + 1) → Option Coercion :=
  fun i => need? schema s.head.table (columnName (s.head.columns i))

/-- The statement with its columns, and the items of its tuples, in another order. -/
def permute (σ : Equiv.Perm (Fin (n + 1))) (s : InsertStatement n) : InsertStatement n :=
  { head := s.head.permute σ
    first := s.first.permute σ
    further := s.further.map (FurtherLine.permute σ)
    edge := fun hnil => s.edge (List.map_eq_nil_iff.mp hnil) }

/-- What the statement becomes: each item changes as its column needs. -/
def coerced (schema : Schema) (s : InsertStatement n) : InsertStatement n :=
  { s with
    first := s.first.coerced (s.columnNeeds schema)
    further := s.further.map (FurtherLine.coerced (s.columnNeeds schema))
    edge := fun hnil => s.edge (List.map_eq_nil_iff.mp hnil) }

theorem columnNeeds_permute (s : InsertStatement n) (σ : Equiv.Perm (Fin (n + 1)))
    (schema : Schema) : (s.permute σ).columnNeeds schema = s.columnNeeds schema ∘ σ := rfl

/-- No word goes on behind the header. -/
theorem head_first (s : InsertStatement n) : s.first.text.head?.any isWord = false := by
  cases hl : s.first.tuples with
  | nil => simpa [TupleLine.text, hl] using s.edge hl
  | cons t ts =>
    obtain ⟨lead, d, hlead, hd, hfirst⟩ := exists_first_of_gap t.gap_plain
    obtain ⟨more, hmore⟩ := hfirst _
    rw [TupleLine.text_eq hl, hmore]
    cases lead with
    | nil =>
      have hmarks : ∀ d ∈ [',', '('], isWord d = false := by decide
      exact hmarks d hd
    | cons c lead =>
      refine Bool.eq_false_iff.mpr fun hword => ?_
      simpa [Text.isBlank_eq_false_of_isWord hword] using hlead c

theorem parse?_line (s : InsertStatement n) : parse? s.line = some s.head.header :=
  s.head.parse?_headText (Equiv.refl _) s.first.text s.head_first

/-- The positions that are listed are those of the columns that need something. -/
theorem follows (s : InsertStatement n) (schema : Schema) :
    Follows (s.columnNeeds schema) (positions schema s.head.header) := by
  have hcolumns : s.head.header.columns =
      some (List.ofFn fun i => columnName (s.head.columns i)) := rfl
  have hneeds : s.columnNeeds schema =
      fun i => need? schema s.head.header.table (columnName (s.head.columns i)) := rfl
  rw [hneeds]
  exact follows_positions hcolumns

/-- **The line with the header** changes column by column. -/
theorem coerceLine_line (s : InsertStatement n) (active : Option Positions)
    (hne : positions schema s.head.header ≠ []) :
    coerceLine schema active s.line =
      { line := s.head.text ++ (s.first.coerced (s.columnNeeds schema)).text
        active := if endsStatement s.line then none else some (positions schema s.head.header)
        opens := true
        changed := s.first.changed (s.columnNeeds schema)
        unclosed := unclosed s.first.rest } := by
  have htake : s.line.take s.head.header.length = s.head.text := List.take_left
  have hdrop : s.line.drop s.head.header.length = s.first.text := List.drop_left
  rw [coerceLine_header active s.parse?_line hne, htake, hdrop,
    s.first.coerceTuples_text (s.follows schema) (nodup_positions schema s.head.header)]

/-- The head of a statement ends as what follows its list, or in the list's parenthesis. -/
theorem lastSolid?_headText (front : Text) (columns : Fin (n + 1) → Text) (back : Text) :
    lastSolid? (headText front columns back) = (lastSolid? back).or (some ')') := by
  have hparen : lastSolid? [')'] = some ')' := by decide
  have hsplit : headText front columns back =
      front ++ '(' :: Text.join [','] (List.ofFn columns) ++ ([')'] ++ back) := by
    simp [headText]
  rw [hsplit, lastSolid?_append, lastSolid?_append, hparen]
  cases lastSolid? back <;> rfl

/-- Whether the first line ends the statement does not depend on the order. -/
theorem endsStatement_permute (s : InsertStatement n) (σ : Equiv.Perm (Fin (n + 1))) :
    endsStatement (s.permute σ).line = endsStatement s.line := by
  have hlast : lastSolid? (s.permute σ).line = lastSolid? s.line := by
    rw [line, permute, s.first.lastSolid?_permute σ, line, lastSolid?_append, lastSolid?_append,
      ListedHeader.text, ListedHeader.text, lastSolid?_headText, lastSolid?_headText]
    rfl
  rw [endsStatement_eq, endsStatement_eq, hlast]

/-- **Coercing a statement and reordering it commute.** -/
theorem coerced_permute (s : InsertStatement n) (σ : Equiv.Perm (Fin (n + 1))) (schema : Schema) :
    (s.permute σ).coerced schema = (s.coerced schema).permute σ := by
  simp only [coerced, columnNeeds_permute]
  simp only [permute, List.map_map, TupleLine.coerced_permute]
  congr 1
  refine List.map_congr_left fun l _ => ?_
  exact l.coerced_permute σ

end InsertStatement

/-! ## Runs -/

/-- `EndsBefore after lines`: the lines are those of a statement up to its end, or up to where the
next header stands. -/
def EndsBefore (after : List Text) : List Text → Prop
  | [] => ∀ line ∈ after.head?, (parse? line).isSome
  | line :: lines => if endsStatement line then lines = [] else EndsBefore after lines

/-- A header does not look at what was open before it. -/
theorem coerceLines_of_header {after : List Text}
    (h : ∀ line ∈ after.head?, (parse? line).isSome) (active : Option Positions) (number : Nat) :
    coerceLines schema active number after = coerceLines schema none number after := by
  cases after with
  | nil => rfl
  | cons line after =>
    obtain ⟨header, hparse⟩ := Option.isSome_iff_exists.mp (h line rfl)
    have hline : coerceLine schema active line = coerceLine schema none line := by
      simp only [coerceLine, hparse]
    simp only [coerceLines, hline]

/-- **One line in front** of two runs that differ in their lines only, if what becomes of the two
lines differs in nothing else either. -/
theorem coerceLines_cons {active active' : Option Positions} {line line' : Text}
    {rest rest' lines : List Text} {number : Nat} {result result' : LineResult}
    (hline : coerceLine schema active line = result)
    (hline' : coerceLine schema active' line' = result')
    (hopens : result'.opens = result.opens) (hchanged : result'.changed = result.changed)
    (hunclosed : result'.unclosed = result.unclosed)
    (hrest : coerceLines schema result'.active (number + 1) rest' =
      { coerceLines schema result.active (number + 1) rest with lines := lines }) :
    coerceLines schema active' number (line' :: rest') =
      { coerceLines schema active number (line :: rest) with lines := result'.line :: lines } := by
  simp only [coerceLines, hline, hline', hrest, hopens, hchanged, hunclosed]

section Runs

variable {σ : Equiv.Perm (Fin (n + 1))} {after : List Text}

/-- **Further lines** in another order: as many values change, and the same tuples are not
closed. -/
theorem coerceLines_further {targets' : Positions} (h : Follows needs targets)
    (h' : Follows (needs ∘ σ) targets') (hnodup : (targets.map Prod.fst).Nodup)
    (hnodup' : (targets'.map Prod.fst).Nodup) {further : List (FurtherLine n)}
    (hends : EndsBefore after (further.map (·.text))) (number : Nat) :
    coerceLines schema (some targets') number ((further.map fun l => (l.permute σ).text) ++ after) =
      { coerceLines schema (some targets) number (further.map (·.text) ++ after) with
        lines := (further.map fun l => ((l.coerced needs).permute σ).text) ++
          (coerceLines schema none (number + further.length) after).lines } := by
  induction further generalizing number with
  | nil =>
    simp only [List.map_nil, List.nil_append, List.length_nil, Nat.add_zero]
    rw [coerceLines_of_header hends (some targets'), coerceLines_of_header hends (some targets)]
  | cons l further ih =>
    have hnumber : number + (further.length + 1) = number + 1 + further.length := by omega
    rw [List.length_cons, hnumber]
    refine coerceLines_cons (l.coerceLine_text h hnodup) (l.coerceLine_permute σ h' hnodup')
      rfl rfl rfl ?_
    rw [List.map_cons, EndsBefore] at hends
    split at hends
    · next hend =>
      -- The statement ends here, so the positions of both runs are given up.
      obtain rfl := List.map_eq_nil_iff.mp hends
      simp [hend]
    · next hend =>
      simp only [hend]
      exact ih hends (number + 1)

/-- Outside a statement with positions, lines without a header stay. -/
theorem coerceLines_outside (further : List (FurtherLine n)) (number : Nat) :
    coerceLines schema none number (further.map (·.text) ++ after) =
      { coerceLines schema none (number + further.length) after with
        lines := further.map (·.text) ++
          (coerceLines schema none (number + further.length) after).lines } := by
  induction further generalizing number with
  | nil => simp
  | cons l further ih =>
    have hnumber : number + (further.length + 1) = number + 1 + further.length := by omega
    simp only [List.map_cons, List.cons_append, List.length_cons, coerceLines, hnumber,
      coerceLine_outside l.parse?_text, LineResult.same, ih]
    simp

/-- If no column has a need, the statement stays. -/
theorem InsertStatement.coerced_of_none {s : InsertStatement n}
    (h : ∀ i, s.columnNeeds schema i = none) : s.coerced schema = s := by
  have htuple : Tuple.coerced (s.columnNeeds schema) = id := by
    funext t
    simp [Tuple.coerced, h, newText?]
  have hfirst : TupleLine.coerced (s.columnNeeds schema) = id := by
    funext l
    simp [TupleLine.coerced, htuple]
  have hfurther : FurtherLine.coerced (s.columnNeeds schema) = id := by
    funext l
    simp [FurtherLine.coerced, hfirst]
  simp [coerced, hfirst, hfurther]

namespace InsertStatement

theorem follows_permute (s : InsertStatement n) (σ : Equiv.Perm (Fin (n + 1))) (schema : Schema) :
    Follows (s.columnNeeds schema ∘ σ) (positions schema (s.permute σ).head.header) := by
  rw [← columnNeeds_permute]
  exact (s.permute σ).follows schema

theorem positions_permute_eq_nil_iff (s : InsertStatement n) (σ : Equiv.Perm (Fin (n + 1)))
    (schema : Schema) :
    positions schema (s.permute σ).head.header = [] ↔ positions schema s.head.header = [] := by
  rw [(s.follows_permute σ schema).eq_nil_iff, (s.follows schema).eq_nil_iff]
  exact σ.forall_congr_right (q := fun i => s.columnNeeds schema i = none)

/-- **The line with the header** in another order. -/
theorem coerceLine_permute (s : InsertStatement n) (σ : Equiv.Perm (Fin (n + 1)))
    (active : Option Positions) (hne : positions schema s.head.header ≠ []) :
    coerceLine schema active (s.permute σ).line =
      { line := ((s.coerced schema).permute σ).line
        active := if endsStatement s.line then none
          else some (positions schema (s.permute σ).head.header)
        opens := true
        changed := s.first.changed (s.columnNeeds schema)
        unclosed := unclosed s.first.rest } := by
  have hresult := (s.permute σ).coerceLine_line active
    (mt (s.positions_permute_eq_nil_iff σ schema).mp hne)
  have hline : (s.permute σ).head.text ++
      ((s.permute σ).first.coerced ((s.permute σ).columnNeeds schema)).text =
        ((s.coerced schema).permute σ).line := by
    rw [← s.coerced_permute σ schema]
    rfl
  have hchanged : (s.permute σ).first.changed ((s.permute σ).columnNeeds schema) =
      s.first.changed (s.columnNeeds schema) := by
    rw [columnNeeds_permute]
    exact s.first.changed_permute σ
  rw [hline, hchanged, s.endsStatement_permute σ] at hresult
  exact hresult

/-- **A statement** in another order becomes what it becomes, in that order. -/
theorem coerceLines_permute (s : InsertStatement n) (σ : Equiv.Perm (Fin (n + 1)))
    (hends : EndsBefore after s.lines) (active : Option Positions) (number : Nat) :
    coerceLines schema active number ((s.permute σ).lines ++ after) =
      { coerceLines schema active number (s.lines ++ after) with
        lines := ((s.coerced schema).permute σ).lines ++
          (coerceLines schema none (number + s.lines.length) after).lines } := by
  have hlength : number + s.lines.length = number + 1 + s.further.length := by
    simp only [lines, List.length_cons, List.length_map]
    omega
  rw [hlength, lines_append, lines_append, lines_append]
  by_cases hnil : positions schema s.head.header = []
  · -- No column has a need, in any order, and all lines stay.
    have hnil' := (s.positions_permute_eq_nil_iff σ schema).mpr hnil
    have hcount : (s.permute σ).further.length = s.further.length := List.length_map _
    rw [coerced_of_none ((s.follows schema).eq_nil_iff.mp hnil)]
    refine coerceLines_cons (coerceLine_header_of_nil active s.parse?_line hnil)
      (coerceLine_header_of_nil active (s.permute σ).parse?_line hnil') rfl rfl rfl ?_
    simp only [LineResult.same]
    rw [coerceLines_outside s.further, coerceLines_outside (s.permute σ).further, hcount]
  · refine coerceLines_cons (s.coerceLine_line active hnil) (s.coerceLine_permute σ active hnil)
      rfl rfl rfl ?_
    rw [lines, EndsBefore] at hends
    split at hends
    · next hend =>
      have hnone := List.map_eq_nil_iff.mp hends
      simp [hend, hnone, permute, coerced]
    · next hend =>
      simp only [hend, Bool.false_eq_true, if_false, permute, coerced, List.map_map]
      exact coerceLines_further (s.follows schema) (s.follows_permute σ schema)
        (nodup_positions schema _) (nodup_positions schema _) hends (number + 1)

end InsertStatement

theorem length_coerceLines (schema : Schema) (active : Option Positions) (number : Nat)
    (lines : List Text) : (coerceLines schema active number lines).lines.length = lines.length := by
  induction lines generalizing active number with
  | nil => rfl
  | cons line lines ih => simp [coerceLines, ih]

/-- **A script** with a statement in another order: what the lines around the statement become does
not depend on the order. -/
theorem exists_coerceLines_permute (s : InsertStatement n) (before : List Text)
    (hends : EndsBefore after s.lines) (active : Option Positions) (number : Nat) :
    ∃ head tail, head.length = before.length ∧ tail.length = after.length ∧
      ∀ σ : Equiv.Perm (Fin (n + 1)),
        coerceLines schema active number (before ++ ((s.permute σ).lines ++ after)) =
          { coerceLines schema active number (before ++ (s.lines ++ after)) with
            lines := head ++ (((s.coerced schema).permute σ).lines ++ tail) } := by
  induction before generalizing active number with
  | nil =>
    exact ⟨[], _, rfl, length_coerceLines schema none _ after, fun σ =>
      s.coerceLines_permute σ hends active number⟩
  | cons line before ih =>
    obtain ⟨head, tail, hhead, htail, hrun⟩ :=
      ih (coerceLine schema active line).active (number + 1)
    exact ⟨(coerceLine schema active line).line :: head, tail, congrArg (· + 1) hhead, htail,
      fun σ => coerceLines_cons rfl rfl rfl rfl rfl (hrun σ)⟩

end Runs

/-- **Values follow columns, not positions.**  A list of the table's columns that is put into a
header without one changes nothing else, and the names of a script's columns are such a list in
any case.  If the columns of a list change their order, and the items of the tuples with them, each
item becomes what its column needs, in the new order: as many values change, with the same
warnings. -/
theorem coerce_follows_columns (schema : Schema) (before after : List Text) :
    (∀ (line : Text) (l : Listing schema line),
      coerce schema (before ++ l.put line :: after) = { coerce schema (before ++ line :: after) with
          lines := (coerce schema (before ++ line :: after)).lines.modify before.length l.put }) ∧
    (∀ (catalog : EnumCatalog) (script : List Text) (name : Text) (layout names : List Text),
      (Schema.ofLines catalog script).layout? name = some layout →
      List.Forall₂ (fun written column => Text.sameAsciiLetters written column = true) names
        layout →
      List.Forall₂ Writes names layout) ∧
    ∀ (n : Nat) (s : InsertStatement n), EndsBefore after s.lines →
      ∃ head tail, head.length = before.length ∧ tail.length = after.length ∧
        ∀ σ : Equiv.Perm (Fin (n + 1)),
          coerce schema (before ++ ((s.permute σ).lines ++ after)) =
            { coerce schema (before ++ (s.lines ++ after)) with
              lines := head ++ (((s.coerced schema).permute σ).lines ++ tail) } := by
  refine ⟨fun line l => ?_, fun catalog script name layout names hlayout hnames =>
    forall₂_writes hlayout hnames, fun n s hends => ?_⟩
  · rw [coerce_eq_coerceLines, coerce_eq_coerceLines]
    exact l.coerceLines_put before after none 1
  · simp only [coerce_eq_coerceLines]
    exact exists_coerceLines_permute s before hends none 1

/-- A table with a column of truth values. -/
def flagSchema : Schema :=
  ⟨[⟨"t".toList, [⟨"id".toList, .other⟩, ⟨"flag".toList, .boolean⟩]⟩]⟩

/-- The list `(ID,Flag)` for a header without one. -/
def flagListing : Listing flagSchema "INSERT INTO t VALUES (7,1)".toList where
  header := ⟨"t".toList, none, 20⟩
  layout := ["id".toList, "flag".toList]
  entries := ["ID".toList, "Flag".toList]
  space := []
  gap := [' ']
  parsed := by decide +kernel
  unlisted := rfl
  known := by decide
  entries_write :=
    .cons ⟨by decide, by decide, by decide⟩ (.cons ⟨by decide, by decide, by decide⟩ .nil)
  space_blank := Text.isBlank_of_mem_nil
  gap_blank := Text.isBlank_of_mem_space

/-- A statement with that list. -/
def flagStatement : InsertStatement 1 where
  head :=
    { front := "INSERT INTO t ".toList
      table := "t".toList
      columns := ["ID".toList, "Flag".toList].get
      back := " VALUES".toList
      front_plain := by decide
      columns_plain := by decide
      parsed := by decide +kernel }
  first :=
    { tuples := [⟨[' '], ["7".toList, "1".toList].get, by decide, by decide⟩]
      rest := []
      longest := by simp [Row.text_eq] }
  further := []
  edge := by simp

/-- The list is put in, and then its columns stand the other way round. -/
theorem coerce_follows_columns_swapped :
    (coerce flagSchema ["INSERT INTO t (ID,Flag) VALUES (7,1)".toList]).lines =
        ["INSERT INTO t (ID,Flag) VALUES (7,TRUE)".toList] ∧
      (coerce flagSchema ["INSERT INTO t (Flag,ID) VALUES (1,7)".toList]).lines =
        ["INSERT INTO t (Flag,ID) VALUES (TRUE,7)".toList] := by
  obtain ⟨hput, -, hpermute⟩ := coerce_follows_columns flagSchema [] []
  constructor
  · have hkept : (coerce flagSchema ["INSERT INTO t VALUES (7,1)".toList]).lines =
        ["INSERT INTO t VALUES (7,TRUE)".toList] := by decide +kernel
    have hline : flagListing.put "INSERT INTO t VALUES (7,1)".toList =
        "INSERT INTO t (ID,Flag) VALUES (7,1)".toList := by decide
    have hresult : ["INSERT INTO t VALUES (7,TRUE)".toList].modify 0 flagListing.put =
        ["INSERT INTO t (ID,Flag) VALUES (7,TRUE)".toList] := by decide
    have hlisted := congrArg Outcome.lines (hput _ flagListing)
    rw [List.nil_append, List.nil_append, hline, hkept, List.length_nil, hresult] at hlisted
    exact hlisted
  · have hopen : endsStatement flagStatement.line = false := by decide +kernel
    have hends : EndsBefore [] flagStatement.lines := by
      rw [InsertStatement.lines, EndsBefore, if_neg (by simp [hopen])]
      exact fun _ hline => absurd hline (by simp)
    have hlines : (flagStatement.permute (Equiv.swap 0 1)).lines =
        ["INSERT INTO t (Flag,ID) VALUES (1,7)".toList] := by decide +kernel
    have hresult : ((flagStatement.coerced flagSchema).permute (Equiv.swap 0 1)).lines =
        ["INSERT INTO t (Flag,ID) VALUES (TRUE,7)".toList] := by decide +kernel
    generalize flagStatement = s at hends hlines hresult
    obtain ⟨head, tail, hhead, htail, hswapped⟩ := hpermute 1 s hends
    have hordered := congrArg Outcome.lines (hswapped (Equiv.swap 0 1))
    rw [List.length_eq_zero_iff.mp hhead, List.length_eq_zero_iff.mp htail, hlines, hresult]
      at hordered
    exact hordered

end DumpBridge.Rows
