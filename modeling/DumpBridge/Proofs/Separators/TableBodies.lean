import DumpBridge.Proofs.Separators.Clauses

/-!
# The body of a table definition

When keys of a table definition become comments, the last column that is left may
keep a comma before the closing parenthesis.  `repair_body_iff` says when the
body comes out right: the last live line without its comma, and all others as
they were.  The name of a column can stand in the way, since a line is also read
as a clause of an alteration or as rows, by its first word.
-/

namespace DumpBridge.Separators

open Text (Pattern FirstWord isBlank isWord)
open Text.Pattern
open Line (ColumnText isComment isData isEmpty commentOut tableName?)

/-- Whether a name is one of the words that begin a clause of an alteration. -/
def namesClause (name : Text) : Bool :=
  clauseWords.any fun w => spells w.toList name

/-! ## Columns -/

/-- A column on a line of its own. -/
structure BodyColumn extends ColumnText where
  /-- The blanks at the end of the line, after the comma. -/
  tail : Text
  tail_blank : ∀ d ∈ tail, isBlank d
  not_comma : Text.endsWith ',' (Text.trimEnd toColumnText.text) = false
  not_semicolon : Text.endsWith ';' (Text.trimEnd toColumnText.text) = false

namespace BodyColumn

variable (c : BodyColumn)

/-- The line of the column, with what separates it from the next. -/
def line (separator : Text) : Text :=
  c.text ++ (separator ++ c.tail)

variable {more : Text}

/-- A column is taken for a clause of an alteration just if its name begins one. -/
theorem alterClause_starts (hmore : more.head?.any isWord = false) :
    alterClause.starts (c.text ++ more) = namesClause c.name := by
  have hcolumn : ¬ (gap ++ (letters "COLUMN".toList ++ one isBlank)).Fits c.name.getLast?
      (c.space ++ (c.type ++ (c.attributes ++ more))) :=
    c.not_fits_reserved (by decide) hmore fun _ _ => fits_one.mp
  rw [Bool.eq_iff_iff, alterClause_starts_iff (c.firstWord more), namesClause, List.any_eq_true]
  exact ⟨fun h => h.resolve_right fun h' => hcolumn h'.2, Or.inl⟩

/-- It is not taken for the header of an alteration. -/
theorem alterHeader_starts (hmore : more.head?.any isWord = false) :
    alterHeader.starts (c.text ++ more) = false := by
  cases hstarts : alterHeader.starts (c.text ++ more) with
  | false => rfl
  | true =>
    obtain ⟨-, q, hfits⟩ := spells_of_alterHeader (c.firstWord more) hstarts
    exact absurd hfits (c.not_fits_reserved (by decide) hmore fun _ _ => isBlank_of_fits_gap)

/-- A column does not close the body. -/
theorem startsWith_trimStart (more : Text) :
    Text.startsWith ')' (Text.trimStart (c.text ++ more)) = false := by
  have h := c.firstWord more
  rw [h.line_eq, Text.trimStart_append h.lead_blank h.head_word]
  obtain ⟨d, name, hname⟩ := List.exists_cons_of_ne_nil c.name_ne
  have hd : d ≠ ')' := by
    rintro rfl
    exact absurd (c.name_bare ')' (by simp [hname])) (by decide)
  simp [Text.startsWith, hname, hd]

/-- Without a separator the line ends in neither a comma nor a semicolon. -/
theorem endsWith_line : Text.endsWith ',' (Text.trimEnd (c.line [])) = false ∧
    Text.endsWith ';' (Text.trimEnd (c.line [])) = false := by
  rw [line, List.nil_append, Text.trimEnd_append_blank _ c.tail_blank]
  exact ⟨c.not_comma, c.not_semicolon⟩

/-- No word goes on behind a separator. -/
theorem head_tail (separator : Text) (hseparator : separator.head?.any isWord = false) :
    (separator ++ c.tail).head?.any isWord = false := by
  cases separator with
  | cons d separator => simpa using hseparator
  | nil =>
    have htail := c.tail_blank
    cases hcons : c.tail with
    | nil => rfl
    | cons d tail => simpa using Text.isWord_eq_false_of_isBlank (htail d (by simp [hcons]))

end BodyColumn

/-! ## Lines -/

/-- A line of a table body: a column, or a key that has been commented out. -/
inductive BodyLine where
  | column (c : BodyColumn)
  | comment (key : Text)

namespace BodyLine

def column? : BodyLine → Option BodyColumn
  | column c => some c
  | comment _ => none

def isColumn (e : BodyLine) : Bool :=
  e.column?.isSome

def line (separator : Text) : BodyLine → Text
  | column c => c.line separator
  | comment key => commentOut key

theorem isEmpty_line (e : BodyLine) (separator : Text) : isEmpty (e.line separator) = false := by
  cases e with
  | column c => exact isEmpty_of_firstWord (c.firstWord _)
  | comment key => exact isEmpty_of_firstWord (firstWord_commentOut key)

/-- The comments are those that are no columns. -/
theorem isComment_line (e : BodyLine) (separator : Text) :
    isComment (e.line separator) = !e.isColumn := by
  cases e with
  | column c =>
    rw [line, BodyColumn.line, isComment_of_firstWord (c.firstWord _), c.name_dashes]
    rfl
  | comment key => rw [line, Line.isComment_commentOut]; rfl

end BodyLine

/-- What separates a line of a body from the lines after it. -/
def bodySeparator (rest : List BodyLine) : Text :=
  if rest.isEmpty then [] else [',']

theorem head?_bodySeparator (rest : List BodyLine) :
    (bodySeparator rest).head?.any isWord = false := by
  rw [bodySeparator]
  split <;> decide

/-- The lines of a body, with commas between them. -/
def bodyLines : List BodyLine → List Text
  | [] => []
  | e :: rest => e.line (bodySeparator rest) :: bodyLines rest

/-- The lines as they should become: the last column loses its comma. -/
def settledBody : List BodyLine → List Text
  | [] => []
  | e :: rest => e.line (if rest.any (·.isColumn) then [','] else []) :: settledBody rest

/-- The first column among some lines. -/
def firstColumn? (rest : List BodyLine) : Option BodyColumn :=
  rest.findSome? (·.column?)

/-- There is a first column just if there is a column. -/
theorem isSome_firstColumn? (rest : List BodyLine) :
    (firstColumn? rest).isSome = rest.any (·.isColumn) := by
  induction rest with
  | nil => rfl
  | cons e rest ih =>
    cases e with
    | column c => rfl
    | comment key => exact ih

/-- Whether a column's name is no obstacle, given the lines after the column.  If the
name is a word that begins clauses and a comment follows, then so is the name of
the next column; and if the name looks like the start of rows, the column is
followed by others or by nothing. -/
def Placed (c : BodyColumn) (rest : List BodyLine) : Prop :=
  (namesClause c.name → rest.head?.any (!·.isColumn) →
    (firstColumn? rest).any (namesClause ·.name)) ∧
  (beginsRows c.name → rest = [] ∨ rest.any (·.isColumn))

/-- What separates a column from the next line after the repair. -/
def fixedSeparator (c : BodyColumn) (rest : List BodyLine) : Text :=
  if rest.isEmpty then []
  else if beginsRows c.name then [',']
  else if namesClause c.name then
    if rest.head?.any (!·.isColumn) && !(firstColumn? rest).any (namesClause ·.name) then [';']
    else [',']
  else if rest.any (·.isColumn) then [','] else []

/-- The lines as they become. -/
def fixedBody : List BodyLine → List Text
  | [] => []
  | .column c :: rest => c.line (fixedSeparator c rest) :: fixedBody rest
  | .comment key :: rest => commentOut key :: fixedBody rest

theorem head?_fixedSeparator (c : BodyColumn) (rest : List BodyLine) :
    (fixedSeparator c rest).head?.any isWord = false := by
  rw [fixedSeparator]
  split_ifs <;> decide

theorem beginsRows_of_namesClause {name : Text} (hname : namesClause name) :
    beginsRows name = false := by
  obtain ⟨w, hw, hspells⟩ := List.any_eq_true.mp hname
  exact beginsRows_of_spells hw hspells

theorem BodyColumn.line_inj {c : BodyColumn} {s t : Text} : c.line s = c.line t ↔ s = t := by
  rw [line, line, List.append_cancel_left_eq, List.append_cancel_right_eq]

/-- A column is separated as it should be if its name is no obstacle. -/
theorem fixedSeparator_eq_iff (c : BodyColumn) (rest : List BodyLine) :
    fixedSeparator c rest = (if rest.any (·.isColumn) then [','] else []) ↔ Placed c rest := by
  cases rest with
  | nil => simp [fixedSeparator, Placed]
  | cons e rest =>
    have hempty : (e :: rest).isEmpty = false := rfl
    rw [fixedSeparator, hempty, if_neg Bool.false_ne_true, Placed, List.head?_cons, Option.any_some]
    cases hname : namesClause c.name with
    | false => cases hrows : beginsRows c.name <;> grind
    | true =>
      have hfirst : (firstColumn? (e :: rest)).any (namesClause ·.name) →
          (e :: rest).any (·.isColumn) := by
        rw [← isSome_firstColumn?]
        cases firstColumn? (e :: rest) <;> simp
      have hhead : e.isColumn → (e :: rest).any (·.isColumn) := by
        intro he
        simp [he]
      rw [beginsRows_of_namesClause hname]
      grind

/-! ## Looking ahead -/

section Ahead

variable {closing : Text} (hclosing : Text.startsWith ')' (Text.trimStart closing))
include hclosing

/-- The closing line begins with its parenthesis. -/
theorem exists_closing :
    ∃ lead t, closing = lead ++ ')' :: t ∧ ∀ d ∈ lead, isBlank d := by
  refine ⟨closing.takeWhile isBlank, (closing.dropWhile isBlank).tail, ?_,
    fun d hd => List.mem_takeWhile_imp hd⟩
  have hcons : closing.dropWhile isBlank = ')' :: (closing.dropWhile isBlank).tail := by
    rw [Text.startsWith, decide_eq_true_eq] at hclosing
    exact (List.cons_head?_tail hclosing).symm
  rw [← hcons, List.takeWhile_append_dropWhile]

/-- So it is live. -/
theorem isLive_closing : isLive closing := by
  obtain ⟨lead, t, rfl, hlead⟩ := exists_closing hclosing
  have hparen : isBlank ')' = false := by decide
  rw [isLive, Line.isEmpty_eq_false hparen (by simp), Line.isComment_append hlead hparen]
  rfl

/-- It is no clause of an alteration. -/
theorem alterClause_starts_closing : alterClause.starts closing = false := by
  obtain ⟨lead, t, rfl, hlead⟩ := exists_closing hclosing
  rw [← Bool.not_eq_true, alterClause_starts_iff_beginsClause]
  rintro ⟨lead', word, rest, h, hwords⟩
  have hparen : (')' :: t).head?.any isBlank = false := show isBlank ')' = false by decide
  obtain ⟨rfl, hword⟩ := Text.span_inj hlead h.lead_blank hparen h.head_word h.line_eq
  have hletters : ∀ d ∈ word, isWord d := by
    rcases hwords with ⟨w, hw, hspells⟩ | ⟨hspells, -⟩
    · exact (isWord_of_spells (isKeyword_clauseWords w hw) hspells).2
    · exact (isWord_of_spells (by decide) hspells).2
  obtain ⟨d, word', rfl⟩ := List.exists_cons_of_ne_nil h.word_ne
  obtain ⟨rfl, -⟩ := List.cons.inj hword
  exact absurd (hletters ')' (by simp)) (by decide)

/-- The next live line is that of the first column, or else the one that closes the
body. -/
theorem nextLive?_bodyLines {f : Text → Bool} {g : BodyColumn → Bool}
    (hf : ∀ c separator, separator.head?.any isWord = false → f (BodyColumn.line c separator) = g c)
    (rest : List BodyLine) (after : List Text) :
    (nextLive? (bodyLines rest ++ closing :: after)).any f =
      ((firstColumn? rest).map g).getD (f closing) := by
  induction rest with
  | nil =>
    rw [bodyLines, List.nil_append, nextLive?_cons, isLive_closing hclosing]
    rfl
  | cons e rest ih =>
    rw [bodyLines, List.cons_append, nextLive?_cons, isLive, e.isEmpty_line, e.isComment_line]
    cases e with
    | comment key => exact ih
    | column c => exact hf c (bodySeparator rest) (head?_bodySeparator rest)

end Ahead

/-! ## What becomes of the lines -/

/-- A comment is left alone. -/
theorem commaFix_commentOut (key : Text) (rest : List Text) :
    commaFix (commentOut key) rest = .keep := by
  simp [commaFix, Line.isComment_trimEnd_commentOut]

section Fixes

variable {closing : Text} (hclosing : Text.startsWith ')' (Text.trimStart closing))
  (c : BodyColumn)
include hclosing

/-- The fix of a column's comma, where another line of the body follows. -/
theorem commaFix_column (e : BodyLine) (rest : List BodyLine) (after : List Text) :
    commaFix (c.line [',']) (bodyLines (e :: rest) ++ closing :: after) =
      if beginsRows c.name then .keep
      else if namesClause c.name then
        if !e.isColumn && !(firstColumn? (e :: rest)).any (namesClause ·.name) then .terminate
        else .keep
      else if (e :: rest).any (·.isColumn) then .keep else .drop := by
  have htrim : Text.trimEnd (c.line [',']) = c.text ++ [','] :=
    Text.trimEnd_append_cons (by decide) c.tail_blank
  have hcomma : [','].head?.any isWord = false := by decide
  have hends : Text.endsWith ',' (c.text ++ [',']) := by simp [Text.endsWith]
  have hcomment : isComment (c.text ++ [',']) = false := by
    rw [isComment_of_firstWord (c.firstWord _), c.name_dashes]
  have hnext : nextNonBlank? (bodyLines (e :: rest) ++ closing :: after) =
      some (e.line (bodySeparator rest)) :=
    nextNonBlank?_cons (e.isEmpty_line _) _
  have hclause : (nextLive? (bodyLines (e :: rest) ++ closing :: after)).any alterClause.starts =
      (firstColumn? (e :: rest)).any (namesClause ·.name) := by
    rw [nextLive?_bodyLines hclosing (g := (namesClause ·.name))
      (fun c separator h => c.alterClause_starts (c.head_tail separator h)),
      alterClause_starts_closing hclosing]
    cases firstColumn? (e :: rest) <;> rfl
  have hparen : ((nextLive? (bodyLines (e :: rest) ++ closing :: after)).any fun live =>
      Text.startsWith ')' (Text.trimStart live)) = !(e :: rest).any (·.isColumn) := by
    rw [nextLive?_bodyLines hclosing (g := fun _ => false)
      (fun c separator _ => c.startsWith_trimStart _), hclosing]
    rw [← isSome_firstColumn?]
    cases firstColumn? (e :: rest) <;> rfl
  have htable : e.isColumn → tableName? (e.line (bodySeparator rest)) = none := by
    intro he
    cases e with
    | comment key => simp [BodyLine.isColumn, BodyLine.column?] at he
    | column d => exact d.tableName?_eq_none (d.head_tail _ (head?_bodySeparator rest))
  rw [commaFix, htrim, hnext]
  simp only [hends, hcomment, isData_eq (c.firstWord _), c.alterClause_starts hcomma, hclause,
    hparen, e.isComment_line]
  grind

/-- **What becomes of a column's comma** depends on its name and the columns after it. -/
theorem apply_commaFix_column (rest : List BodyLine) (after : List Text) :
    (commaFix (c.line (bodySeparator rest)) (bodyLines rest ++ closing :: after)).apply
        (c.line (bodySeparator rest)) =
      c.line (fixedSeparator c rest) := by
  cases rest with
  | nil =>
    exact congrArg (CommaFix.apply · _) (commaFix_eq_keep _ c.endsWith_line.1)
  | cons e rest =>
    have hreplace : ∀ new, replaceComma new (c.line [',']) = c.line new := by
      intro new
      rw [BodyColumn.line, List.singleton_append, replaceComma_append _ _ c.tail_blank,
        BodyColumn.line, List.append_assoc]
    have hseparator : bodySeparator (e :: rest) = [','] := rfl
    have hhead : (e :: rest).head?.any (!·.isColumn) = !e.isColumn := rfl
    have hempty : (e :: rest).isEmpty = false := rfl
    rw [hseparator, commaFix_column hclosing, fixedSeparator, hhead, hempty,
      if_neg Bool.false_ne_true]
    split_ifs <;> simp [CommaFix.apply, hreplace]

end Fixes

/-- Lines of a body are left alone when headers are looked for. -/
theorem headersMarked_fixedBody (lines : List BodyLine) (after : List Text) :
    headersMarked (fixedBody lines ++ after) = fixedBody lines ++ headersMarked after := by
  induction lines with
  | nil => rfl
  | cons e rest ih =>
    cases e with
    | comment key =>
      rw [fixedBody, List.cons_append, headersMarked_cons, isBareHeader,
        alterHeader_starts_commentOut, ih]
      rfl
    | column c =>
      have hheader : alterHeader.starts (c.line (fixedSeparator c rest)) = false :=
        c.alterHeader_starts (c.head_tail _ (head?_fixedSeparator c rest))
      rw [fixedBody, List.cons_append, headersMarked_cons, isBareHeader, hheader, ih]
      rfl

/-- **A body comes out settled** just if each of its columns does. -/
theorem fixedBody_eq_settledBody_iff (lines : List BodyLine) :
    fixedBody lines = settledBody lines ↔
      ∀ before c rest, lines = before ++ .column c :: rest → Placed c rest := by
  induction lines with
  | nil => simp [fixedBody, settledBody]
  | cons e lines ih =>
    have hcons : (∀ before c rest, e :: lines = before ++ .column c :: rest → Placed c rest) ↔
        (∀ c, e = .column c → Placed c lines) ∧
          ∀ before c rest, lines = before ++ .column c :: rest → Placed c rest := by
      constructor
      · intro h
        exact ⟨fun c hc => h [] c lines (by simp [hc]),
          fun before c rest hlines => h (e :: before) c rest (by simp [hlines])⟩
      · rintro ⟨hhead, htail⟩ before c rest hsplit
        cases before with
        | nil =>
          obtain ⟨he, rfl⟩ := List.cons.inj hsplit
          exact hhead c he
        | cons d before => exact htail before c rest (List.cons.inj hsplit).2
    rw [hcons, ← ih]
    cases e with
    | comment key => simp [fixedBody, settledBody, BodyLine.line]
    | column c =>
      rw [fixedBody, settledBody, List.cons.injEq, BodyLine.line, BodyColumn.line_inj,
        fixedSeparator_eq_iff]
      simp

theorem length_fixedBody (lines : List BodyLine) : (fixedBody lines).length = lines.length := by
  induction lines with
  | nil => rfl
  | cons e rest ih => cases e <;> simp [fixedBody, ih]

/-! ## Bodies -/

/-- A body with the line that closes it. -/
structure Body where
  lines : List BodyLine
  closing : Text
  closing_paren : Text.startsWith ')' (Text.trimStart closing)

/-- No column's name is an obstacle where it stands. -/
def Body.Clear (b : Body) : Prop :=
  ∀ before c rest, b.lines = before ++ .column c :: rest → Placed c rest

/-- **Fixing the commas of a body** does not look behind its closing line. -/
theorem commasFixed_bodyLines (b : Body) (after : List Text) :
    commasFixed (bodyLines b.lines ++ b.closing :: after) =
      fixedBody b.lines ++ commasFixed (b.closing :: after) := by
  induction b.lines with
  | nil => rfl
  | cons e rest ih =>
    rw [bodyLines, List.cons_append, commasFixed_cons, ih]
    cases e with
    | comment key =>
      rw [BodyLine.line, commaFix_commentOut]
      rfl
    | column c =>
      rw [BodyLine.line, apply_commaFix_column b.closing_paren]
      rfl

/-- **A table body is settled**, whatever lines stand before and after it, if and only
if no column's name is an obstacle: the last live line has lost its comma, and
all other lines are as they were. -/
theorem repair_body_iff (b : Body) (before after : List Text) :
    ((repair (before ++ (bodyLines b.lines ++ b.closing :: after))).lines.drop before.length).take
        b.lines.length =
      settledBody b.lines ↔
    b.Clear := by
  rw [drop_lines_repair, lines_repair, commasFixed_bodyLines, headersMarked_fixedBody,
    List.take_left' (length_fixedBody b.lines), fixedBody_eq_settledBody_iff, Body.Clear]

/-- A column of integers. -/
def integerColumn (name : Text) (hne : name ≠ []) (hbare : ∀ c ∈ name, Line.isBare c)
    (hdashes : ['-', '-'].isPrefixOf name = false) : ColumnText where
  indent := [' ']
  name := name
  space := [' ']
  type := "INTEGER".toList
  attributes := []
  indent_blank := Text.isBlank_of_mem_space
  name_ne := hne
  name_bare := hbare
  name_dashes := hdashes
  space_ne := Text.space_ne_nil
  space_blank := Text.isBlank_of_mem_space
  type_ne := by decide
  type_word := by decide
  type_free := by decide
  attributes_head := rfl

/-- A body with two columns and a key that has been commented out, the last column under
some name. -/
def keyedBody (name : Text) (hne : name ≠ []) (hbare : ∀ c ∈ name, Line.isBare c)
    (hdashes : ['-', '-'].isPrefixOf name = false)
    (hends : ∀ c ∈ [',', ';'], Text.endsWith c
      (Text.trimEnd (integerColumn name hne hbare hdashes).text) = false) : Body where
  lines :=
    [.column
      { toColumnText := integerColumn "id".toList (by decide) (by decide) (by decide)
        tail := []
        tail_blank := Text.isBlank_of_mem_nil
        not_comma := by decide
        not_semicolon := by decide },
     .column
      { toColumnText := integerColumn name hne hbare hdashes
        tail := []
        tail_blank := Text.isBlank_of_mem_nil
        not_comma := hends ',' (by decide)
        not_semicolon := hends ';' (by decide) },
     .comment " KEY k (id)".toList]
  closing := ");".toList
  closing_paren := by decide

/-- The body with a last column called `size`. -/
def sizeBody : Body :=
  keyedBody "size".toList (by decide) (by decide) (by decide) (by decide)

/-- The body with a last column called `change`. -/
def changeBody : Body :=
  keyedBody "change".toList (by decide) (by decide) (by decide) (by decide)

/-- A last column called `size` is no obstacle, and one called `change` is. -/
theorem repair_body_iff_keyedBody :
    bodyLines sizeBody.lines =
        [" id INTEGER,".toList, " size INTEGER,".toList, "--  KEY k (id)".toList] ∧
      settledBody sizeBody.lines =
        [" id INTEGER,".toList, " size INTEGER".toList, "--  KEY k (id)".toList] ∧
      sizeBody.Clear ∧ ¬ changeBody.Clear :=
  ⟨by decide, by decide, (repair_body_iff sizeBody [] []).mp (by decide +kernel),
    mt (repair_body_iff changeBody [] []).mpr (by decide +kernel)⟩

/-- The last column of a body ends the statement in its middle if it is called
`change`. -/
theorem repair_column_change :
    (repair ["CREATE TABLE t (".toList, "  id INTEGER,".toList, "  change INTEGER,".toList,
        "--   KEY k (id)".toList, ");".toList]).lines =
      ["CREATE TABLE t (".toList, "  id INTEGER,".toList, "  change INTEGER;".toList,
        "--   KEY k (id)".toList, ");".toList] := by
  decide +kernel

end DumpBridge.Separators
