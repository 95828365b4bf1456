import DumpBridge.Proofs.Separators.Clauses

/-!
# The clauses of an alteration

When clauses of an alteration become comments, the last one that is left may keep
a comma, and a header may be left without clauses.  The clauses are followed from
the last to the first: what the repair makes of them is `fixedLines`, what they
should be is `settledLines`, and the two agree unless the lines after them seem to
go on with a clause (`fixedLines_eq_settledLines_iff`).  Whether the header stays is
decided by its first live clause, which may read like a statement
(`marked_header_iff`).
-/

namespace DumpBridge.Separators

open Text (Pattern FirstWord isBlank isWord)
open Text.Pattern
open Line (isComment isData isEmpty commentOut tableName?)

/-! ## Clauses -/

/-- A clause of an alteration on a line of its own, which may have been commented
out. -/
structure Clause where
  indent : Text
  word : Text
  /-- What follows the word, up to the separator. -/
  body : Text
  /-- The blanks after the separator. -/
  tail : Text
  live : Bool
  indent_blank : ∀ c ∈ indent, isBlank c
  word_spelled : ∃ w ∈ clauseWords, spells w.toList word
  body_blank : body.head?.any isBlank
  tail_blank : ∀ c ∈ tail, isBlank c

namespace Clause

/-- The clause as it stands in a statement. -/
def text (c : Clause) (separator : Char) : Text :=
  c.indent ++ (c.word ++ (c.body ++ separator :: c.tail))

/-- The line of the clause. -/
def line (c : Clause) (separator : Char) : Text :=
  if c.live then c.text separator else commentOut (c.text separator)

/-- Whether the clause reads `DROP TABLE`, as one does that drops a column called
`table`. -/
def DropsTable (c : Clause) : Prop :=
  spells "DROP".toList c.word ∧
    ∃ gap table rest, c.body = gap ++ (table ++ rest) ∧ (∀ d ∈ gap, isBlank d) ∧
      spells "TABLE".toList table ∧ rest.head?.any isWord = false

variable {c : Clause} {separator : Char}

/-- A live clause stands as it is. -/
theorem line_of_live (hlive : c.live) : c.line separator = c.text separator := by
  rw [line, if_pos hlive]

theorem line_of_not_live (hlive : c.live = false) :
    c.line separator = commentOut (c.text separator) := by
  rw [line, hlive, if_neg Bool.false_ne_true]

/-- The first word of a clause is what it does. -/
theorem firstWord (c : Clause) (separator : Char) :
    FirstWord (c.text separator) c.indent c.word (c.body ++ separator :: c.tail) := by
  obtain ⟨w, hw, hspells⟩ := c.word_spelled
  obtain ⟨hne, hletters⟩ := isWord_of_spells (isKeyword_clauseWords w hw) hspells
  refine ⟨rfl, c.indent_blank, hne, fun d hd => Text.isBlank_eq_false_of_isWord (hletters d hd), ?_⟩
  have hblank := c.body_blank
  cases hbody : c.body with
  | nil => simp [hbody] at hblank
  | cons d body => simpa [hbody] using hblank

/-- A clause's word is none of the words that begin a statement. -/
theorem not_spells {v : String} (hv : v ∈ "ALTER" :: statementWords) :
    spells v.toList c.word = false := by
  obtain ⟨w, hw, hspells⟩ := c.word_spelled
  obtain ⟨hkeyword, hne⟩ := clauseWords_ne_statementWords v hv
  exact spells_eq_false hspells (isKeyword_clauseWords w hw) hkeyword (hne w hw)

/-- The line of a clause is not empty. -/
theorem isEmpty_line (c : Clause) (separator : Char) : isEmpty (c.line separator) = false := by
  cases hlive : c.live with
  | true => rw [line_of_live hlive, isEmpty_of_firstWord (c.firstWord separator)]
  | false => rw [line_of_not_live hlive, isEmpty_of_firstWord (firstWord_commentOut _)]

/-- It is a comment just if the clause is not live. -/
theorem isComment_line (c : Clause) (separator : Char) :
    isComment (c.line separator) = !c.live := by
  cases hlive : c.live with
  | true =>
    obtain ⟨w, hw, hspells⟩ := c.word_spelled
    obtain ⟨hne, hletters⟩ := isWord_of_spells (isKeyword_clauseWords w hw) hspells
    obtain ⟨d, word, hword⟩ := List.exists_cons_of_ne_nil hne
    have hd : d ≠ '-' := by
      rintro rfl
      exact absurd (hletters '-' (by simp [hword])) (by decide)
    rw [line_of_live hlive, isComment_of_firstWord (c.firstWord separator), hword]
    simp [List.isPrefixOf, hd.symm]
  | false => rw [line_of_not_live hlive, Line.isComment_commentOut]; rfl

theorem isLive_line (c : Clause) (separator : Char) : isLive (c.line separator) = c.live := by
  rw [isLive, isEmpty_line, isComment_line]
  simp

/-- No clause holds rows. -/
theorem isData_text (c : Clause) (separator : Char) : isData (c.text separator) = false := by
  obtain ⟨w, hw, hspells⟩ := c.word_spelled
  rw [isData_eq (c.firstWord separator), beginsRows_of_spells hw hspells]

/-- It starts like a clause of an alteration. -/
theorem alterClause_starts (c : Clause) (separator : Char) :
    alterClause.starts (c.text separator) :=
  (alterClause_starts_iff (c.firstWord separator)).mpr (Or.inl c.word_spelled)

/-- It opens no table. -/
theorem tableName?_text (c : Clause) (separator : Char) : tableName? (c.text separator) = none := by
  cases hname : tableName? (c.text separator) with
  | none => rfl
  | some name =>
    have hcreate := spells_of_tableName (c.firstWord separator) (by simp [hname])
    rw [c.not_spells (by decide)] at hcreate
    simp at hcreate

/-- A clause is no header, commented out or not. -/
theorem alterHeader_line (c : Clause) (separator : Char) :
    alterHeader.starts (c.line separator) = false := by
  cases hlive : c.live with
  | false => rw [line_of_not_live hlive, alterHeader_starts_commentOut]
  | true =>
    rw [line_of_live hlive]
    cases hstarts : alterHeader.starts (c.text separator) with
    | false => rfl
    | true =>
      have halter := (spells_of_alterHeader (c.firstWord separator) hstarts).1
      rw [c.not_spells (by decide)] at halter
      simp at halter

/-- The line without the separator and the blanks after it. -/
def start (c : Clause) : Text :=
  (if c.live then [] else "-- ".toList) ++ (c.indent ++ (c.word ++ c.body))

theorem line_eq_start (c : Clause) (separator : Char) :
    c.line separator = c.start ++ separator :: c.tail := by
  cases hlive : c.live with
  | true => simp [line, text, start, hlive]
  | false => simp [line, text, start, hlive, commentOut]

/-- The clause without blanks after its separator. -/
def trimmed (c : Clause) : Clause :=
  { c with tail := [], tail_blank := by simp }

/-- Trimming it takes the tail. -/
theorem trimEnd_line (c : Clause) (hsolid : isBlank separator = false) :
    Text.trimEnd (c.line separator) = c.trimmed.line separator := by
  rw [line_eq_start, line_eq_start, Text.trimEnd_append_cons hsolid c.tail_blank]
  rfl

theorem endsWith_trimEnd_line (c : Clause) (hsolid : isBlank separator = false) (d : Char) :
    Text.endsWith d (Text.trimEnd (c.line separator)) = decide (separator = d) := by
  rw [trimEnd_line c hsolid, line_eq_start, Text.endsWith]
  simp [trimmed]

/-- A clause also reads as the start of a statement if it reads `DROP TABLE`. -/
theorem statementStart_text (c : Clause) (hseparator : separator = ',' ∨ separator = ';') :
    statementStart.starts (c.text separator) ↔ c.DropsTable := by
  have hword : isWord separator = false := by
    rcases hseparator with rfl | rfl <;> decide
  have hsolid : isBlank separator = false := by
    rcases hseparator with rfl | rfl <;> decide
  rw [statementStart_starts_iff (c.firstWord separator) c.word_spelled, DropsTable,
    and_congr_right_iff]
  intro hdrop
  simp only [fits_gap_append, fits_keyword_edge (show isKeyword "TABLE".toList = true by decide)]
  constructor
  · rintro ⟨gap, _, hsplit, ⟨-, hgap, -⟩, table, m, rfl, htable, hm⟩
    have hletters := (isWord_of_spells (by decide) htable).2
    have hnot : separator ∉ gap ++ table := by
      rw [List.mem_append]
      rintro (hmem | hmem)
      · simp [hgap _ hmem] at hsolid
      · simp [hletters _ hmem] at hword
    rw [← List.append_assoc] at hsplit
    obtain ⟨rest, hbody, rfl⟩ := Text.exists_append_of_not_mem hnot hsplit
    refine ⟨gap, table, rest, by simpa using hbody, hgap, htable, ?_⟩
    cases rest with
    | nil => rfl
    | cons d rest => simpa using hm
  · rintro ⟨gap, table, rest, hbody, hgap, htable, hrest⟩
    obtain ⟨hne, hletters⟩ := isWord_of_spells (by decide) htable
    obtain ⟨d, table', rfl⟩ := List.exists_cons_of_ne_nil hne
    have hd : isBlank d = false := Text.isBlank_eq_false_of_isWord (hletters d (by simp))
    have hblank := c.body_blank
    refine ⟨gap, d :: table' ++ (rest ++ separator :: c.tail), by simp [hbody],
      ⟨?_, hgap, by simpa using hd⟩, d :: table', rest ++ separator :: c.tail, rfl, htable, ?_⟩
    · rintro rfl
      simp [hbody, hd] at hblank
    · cases rest with
      | nil => simpa using hword
      | cons e rest => simpa using hrest

end Clause

/-! ## What becomes of the clauses -/

/-- The separator of a clause, given the clauses after it. -/
def separatorBefore (rest : List Clause) : Char :=
  if rest.isEmpty then ';' else ','

/-- The lines of clauses, with commas between them and a semicolon at the end. -/
def clauseLines : List Clause → List Text
  | [] => []
  | c :: rest => c.line (separatorBefore rest) :: clauseLines rest

/-- The lines as they should become: of the live clauses all but the last end in a
comma, and the last ends in a semicolon. -/
def settledLines : List Clause → List Text
  | [] => []
  | c :: rest =>
    c.line (if c.live then (if rest.any (·.live) then ',' else ';') else separatorBefore rest) ::
      settledLines rest

/-- The lines as they become; `resumes` says whether the next live line after them
begins a clause. -/
def fixedLines (resumes : Bool) : List Clause → List Text
  | [] => []
  | c :: rest =>
    c.line (if c.live && !(rest.any (·.live) || resumes) then ';' else separatorBefore rest) ::
      fixedLines resumes rest

theorem length_clauseLines (clauses : List Clause) :
    (clauseLines clauses).length = clauses.length := by
  induction clauses with
  | nil => rfl
  | cons c rest ih => simp [clauseLines, ih]

/-- Fixing the lines keeps their number. -/
theorem length_fixedLines (resumes : Bool) (clauses : List Clause) :
    (fixedLines resumes clauses).length = clauses.length := by
  induction clauses with
  | nil => rfl
  | cons c rest ih => simp [fixedLines, ih]

/-- Whether the next live line begins a clause. -/
def resumes (lines : List Text) : Bool :=
  (nextLive? lines).any alterClause.starts

theorem resumes_cons_of_live {line : Text} (hline : isLive line) (rest : List Text) :
    resumes (line :: rest) = alterClause.starts line := by
  rw [resumes, nextLive?_cons, if_pos hline, Option.any_some]

theorem resumes_cons_of_not_live {line : Text} (hline : isLive line = false) (rest : List Text) :
    resumes (line :: rest) = resumes rest := by
  rw [resumes, nextLive?_cons, hline, if_neg Bool.false_ne_true, resumes]

/-- **An alteration goes on** if one of its clauses is live, or after them. -/
theorem resumes_clauseLines (clauses : List Clause) (after : List Text) :
    resumes (clauseLines clauses ++ after) = (clauses.any (·.live) || resumes after) := by
  induction clauses with
  | nil => rfl
  | cons c rest ih =>
    rw [clauseLines, List.cons_append, List.any_cons]
    cases hlive : c.live with
    | true =>
      rw [resumes_cons_of_live (by rw [c.isLive_line, hlive]), Clause.line_of_live hlive,
        c.alterClause_starts]
      rfl
    | false =>
      rw [resumes_cons_of_not_live (by rw [c.isLive_line, hlive]), ih, Bool.false_or]

/-- **The comma of a clause** becomes a semicolon if the clause is live and the next
live line begins no clause. -/
theorem commaFix_clause (c d : Clause) (rest : List Clause) (after : List Text) :
    commaFix (c.line ',') (clauseLines (d :: rest) ++ after) =
      if c.live && !resumes (clauseLines (d :: rest) ++ after) then .terminate else .keep := by
  have hends : Text.endsWith ',' (Text.trimEnd (c.line ',')) := by
    simp [c.endsWith_trimEnd_line (show isBlank ',' = false by decide)]
  have hnext : nextNonBlank? (clauseLines (d :: rest) ++ after) =
      some (d.line (separatorBefore rest)) :=
    nextNonBlank?_cons (d.isEmpty_line _) _
  rw [commaFix, hnext]
  simp only [hends]
  rw [c.trimEnd_line (by decide), c.trimmed.isComment_line]
  cases hlive : c.live with
  | false => simp [Clause.trimmed, hlive]
  | true =>
    have hlive' : c.trimmed.live := hlive
    rw [Clause.line_of_live hlive', c.trimmed.isData_text, c.trimmed.alterClause_starts,
      d.isComment_line]
    cases hnextLive : d.live with
    | false =>
      by_cases hresumes : (nextLive? (clauseLines (d :: rest) ++ after)).any
        alterClause.starts
      · simp [hlive', resumes, hresumes]
      · simp [hlive', resumes, hresumes]
    | true =>
      have hresumes : resumes (clauseLines (d :: rest) ++ after) := by
        rw [resumes_clauseLines, List.any_cons, hnextLive]
        rfl
      rw [Clause.line_of_live hnextLive, d.tableName?_text]
      simp [hlive', hresumes]

/-- What becomes of one clause among others. -/
theorem fixed_clause (c : Clause) (rest : List Clause) (after : List Text) :
    (commaFix (c.line (separatorBefore rest)) (clauseLines rest ++ after)).apply
        (c.line (separatorBefore rest)) =
      c.line (if c.live && !(rest.any (·.live) || resumes after) then ';'
        else separatorBefore rest) := by
  cases rest with
  | nil =>
    have hends : Text.endsWith ',' (Text.trimEnd (c.line ';')) = false := by
      simp [c.endsWith_trimEnd_line (show isBlank ';' = false by decide)]
    have hseparator : separatorBefore [] = ';' := rfl
    rw [hseparator, commaFix_eq_keep _ hends, ite_self]
    rfl
  | cons d rest =>
    have hseparator : separatorBefore (d :: rest) = ',' := rfl
    rw [hseparator, commaFix_clause, resumes_clauseLines]
    split
    · rw [CommaFix.apply, c.line_eq_start, replaceComma_append _ _ c.tail_blank, c.line_eq_start]
      simp
    · rfl

/-- **Fixing the commas of an alteration**: what follows it only says whether it goes on. -/
theorem commasFixed_clauseLines (clauses : List Clause) (after : List Text) :
    commasFixed (clauseLines clauses ++ after) =
      fixedLines (resumes after) clauses ++ commasFixed after := by
  induction clauses with
  | nil => rfl
  | cons c rest ih =>
    rw [clauseLines, List.cons_append, commasFixed_cons, ih, fixed_clause, fixedLines,
      List.cons_append]

/-! ## Whether the header is bare -/

/-- An alteration counts as live if its first live clause does not read as the
start of a statement. -/
theorem hasLiveClause_fixedLines (b : Bool) {clauses : List Clause} (hne : clauses ≠ [])
    (after : List Text) :
    hasLiveClause (fixedLines b clauses ++ after) ↔
      ∃ c, clauses.find? (·.live) = some c ∧ ¬ c.DropsTable := by
  induction clauses with
  | nil => exact absurd rfl hne
  | cons c rest ih =>
    rw [fixedLines, List.cons_append, hasLiveClause, c.isEmpty_line, c.isComment_line]
    cases hlive : c.live with
    | true =>
      obtain ⟨s, hs, hseparator⟩ : ∃ s, (if true && !(rest.any (·.live) || b) then ';'
          else separatorBefore rest) = s ∧ (s = ',' ∨ s = ';') := by
        refine ⟨_, rfl, ?_⟩
        rw [separatorBefore]
        grind
      have hstarts := c.statementStart_text hseparator
      rw [hs, Clause.line_of_live hlive]
      simp [hlive, ← hstarts]
    | false =>
      have hends : Text.endsWith ';' (Text.trimEnd (c.line (separatorBefore rest))) =
          rest.isEmpty := by
        cases rest with
        | nil => exact c.endsWith_trimEnd_line (show isBlank ';' = false by decide) ';'
        | cons d rest => exact c.endsWith_trimEnd_line (show isBlank ',' = false by decide) ';'
      simp only [Bool.false_and, Bool.false_eq_true, if_false, Bool.not_false, if_true, hends,
        List.find?_cons, hlive]
      cases rest with
      | nil => simp
      | cons d rest => simpa using ih (by simp)

/-- Lines of clauses are left alone when headers are looked for. -/
theorem headersMarked_fixedLines (b : Bool) (clauses : List Clause) (after : List Text) :
    headersMarked (fixedLines b clauses ++ after) =
      fixedLines b clauses ++ headersMarked after := by
  induction clauses with
  | nil => rfl
  | cons c rest ih =>
    have hbare : ∀ separator lines, isBareHeader (c.line separator) lines = false := by
      intro separator lines
      rw [isBareHeader, c.alterHeader_line, Bool.false_and]
    rw [fixedLines, List.cons_append, headersMarked_cons, hbare, ih]
    rfl

/-! ## Separators that settle -/

theorem Clause.line_inj {c : Clause} {s t : Char} : c.line s = c.line t ↔ s = t := by
  rw [c.line_eq_start, c.line_eq_start, List.append_cancel_left_eq]
  simp

/-- Where the alteration does not go on, the lines come out settled. -/
theorem fixedLines_false (clauses : List Clause) :
    fixedLines false clauses = settledLines clauses := by
  induction clauses with
  | nil => rfl
  | cons c rest ih =>
    rw [fixedLines, settledLines, ih]
    cases hrest : rest.any (·.live) with
    | false => cases hlive : c.live <;> simp
    | true =>
      have hseparator : separatorBefore rest = ',' := by
        cases rest with
        | nil => simp at hrest
        | cons d rest => rfl
      cases hlive : c.live <;> simp [hseparator]

/-- Where it goes on, they stay. -/
theorem fixedLines_true (clauses : List Clause) :
    fixedLines true clauses = clauseLines clauses := by
  induction clauses with
  | nil => rfl
  | cons c rest ih => simp [fixedLines, clauseLines, ih]

/-- Clauses are settled as they stand if the last of them is live or none is. -/
theorem clauseLines_eq_settledLines_iff (clauses : List Clause) :
    clauseLines clauses = settledLines clauses ↔
      (clauses.any (·.live) → clauses.getLast?.any (·.live)) := by
  induction clauses with
  | nil => simp [clauseLines, settledLines]
  | cons c rest ih =>
    rw [clauseLines, settledLines, List.cons.injEq, Clause.line_inj, ih, List.any_cons]
    cases rest with
    | nil => cases hlive : c.live <;> simp [separatorBefore, hlive]
    | cons d rest =>
      have hseparator : separatorBefore (d :: rest) = ',' := rfl
      rw [hseparator, List.getLast?_cons_cons]
      cases hrest : (d :: rest).any (·.live) with
      | true => cases hlive : c.live <;> simp
      | false =>
        have hlast : (d :: rest).getLast?.any (·.live) = false := by
          rw [List.getLast?_eq_some_getLast (List.cons_ne_nil d rest)]
          simpa using
            List.any_eq_false.mp hrest _ (List.getLast_mem (List.cons_ne_nil d rest))
        cases hlive : c.live <;> simp [hlast]

/-- **The lines come out settled** just if none is live, the last one is, or the alteration
does not go on. -/
theorem fixedLines_eq_settledLines_iff (resumes : Bool) (clauses : List Clause) :
    fixedLines resumes clauses = settledLines clauses ↔
      (clauses.any (·.live) → clauses.getLast?.any (·.live) ∨ resumes = false) := by
  cases resumes with
  | false => simp [fixedLines_false]
  | true => simp [fixedLines_true, clauseLines_eq_settledLines_iff]

/-! ## Alterations -/

/-- An alteration with its header and its clauses on lines of their own. -/
structure Alteration where
  name : Text
  clauses : List Clause
  name_ne : name ≠ []
  name_solid : ∀ c ∈ name, isBlank c = false
  name_comma : name.getLast? ≠ some ','
  clauses_ne : clauses ≠ []

namespace Alteration

def header (a : Alteration) : Text :=
  "ALTER TABLE ".toList ++ a.name

def lines (a : Alteration) : List Text :=
  a.header :: clauseLines a.clauses

/-- The lines as they should become.  The header stays if it has a live clause. -/
def settled (a : Alteration) : List Text :=
  (if a.clauses.any (·.live) then a.header else commentOut a.header) :: settledLines a.clauses

/-- Where the alteration ends can be told from its lines and those `after` it: its
first live clause does not read `DROP TABLE`, and unless its last clause is live
the next live line does not read like a clause. -/
def Clear (a : Alteration) (after : List Text) : Prop :=
  (∀ c ∈ a.clauses.find? (·.live), ¬ c.DropsTable) ∧
    (a.clauses.any (·.live) →
      a.clauses.getLast?.any (·.live) ∨ ∀ line ∈ nextLive? after, ¬ BeginsClause line)

variable (a : Alteration)

/-- The header starts an alteration. -/
theorem alterHeader_starts : alterHeader.starts a.header := by
  have hname : a.name.head?.any isBlank = false := by
    obtain ⟨c, name, hcons⟩ := List.exists_cons_of_ne_nil a.name_ne
    simpa [hcons] using a.name_solid c (by simp [hcons])
  rw [starts_iff, alterHeader]
  simp only [fits_append_assoc]
  refine fits_append.mpr ⟨[], a.header, rfl, ⟨by simp, show isBlank 'A' = false by decide⟩, ?_⟩
  refine fits_append.mpr ⟨"ALTER TABLE ".toList, a.name, rfl, ?_, ?_⟩
  · exact takes_letters_self (by decide) hname
  refine fits_append.mpr ⟨a.name, [], by simp, ?_, ?_⟩
  · exact takes_someOf.mpr ⟨a.name_ne, by simpa using a.name_solid, rfl⟩
  exact fits_append.mpr ⟨[], [], rfl, ⟨by simp, rfl⟩, fits_textEnd.mpr rfl⟩

theorem endsWith_header : Text.endsWith ',' (Text.trimEnd a.header) = false := by
  have hends := Text.endsWith_trimEnd_append "ALTER TABLE ".toList a.name_ne a.name_solid ','
  rw [decide_eq_false a.name_comma] at hends
  exact hends

/-- The header counts as bare if no live clause is found first. -/
theorem isBareHeader_header (resumes : Bool) (after : List Text) :
    isBareHeader a.header (fixedLines resumes a.clauses ++ after) ↔
      ∀ c ∈ a.clauses.find? (·.live), c.DropsTable := by
  rw [isBareHeader, a.alterHeader_starts, Bool.true_and, Bool.not_eq_true', ← Bool.not_eq_true,
    hasLiveClause_fixedLines resumes a.clauses_ne]
  simp only [not_exists, not_and, not_not, Option.mem_def]

/-- What becomes of the header and the clauses. -/
theorem take_lines_repair (after : List Text) :
    (repair (a.lines ++ after)).lines.take a.lines.length =
      (if isBareHeader a.header (fixedLines (resumes after) a.clauses ++ commasFixed after) then
        commentOut a.header else a.header) :: fixedLines (resumes after) a.clauses := by
  have hlength : a.lines.length = (fixedLines (resumes after) a.clauses).length + 1 := by
    simp [lines, length_clauseLines, length_fixedLines]
  rw [hlength, lines_repair, lines, List.cons_append, commasFixed_cons,
    commaFix_eq_keep _ a.endsWith_header, commasFixed_clauseLines, headersMarked_cons,
    headersMarked_fixedLines, List.take_succ_cons, List.take_left]
  rfl

theorem header_ne_commentOut : a.header ≠ commentOut a.header := by
  intro h
  have hhead : some 'A' = some '-' := congrArg List.head? h
  exact absurd hhead (by decide)

/-- The header is treated as it should be unless the first live clause reads like
a statement. -/
theorem marked_header_iff (resumes : Bool) (after : List Text) :
    (if isBareHeader a.header (fixedLines resumes a.clauses ++ after) then
        commentOut a.header else a.header) =
      (if a.clauses.any (·.live) then a.header else commentOut a.header) ↔
      ∀ c ∈ a.clauses.find? (·.live), ¬ c.DropsTable := by
  have hbare := a.isBareHeader_header resumes after
  have hne := a.header_ne_commentOut
  cases hfind : a.clauses.find? (·.live) with
  | none =>
    have hlive : a.clauses.any (·.live) = false := by
      rw [List.any_eq_false]
      exact List.find?_eq_none.mp hfind
    simp only [hfind] at hbare
    simp [hlive, hbare]
  | some c =>
    have hlive : a.clauses.any (·.live) :=
      List.any_eq_true.mpr ⟨c, List.mem_of_find?_eq_some hfind, List.find?_some hfind⟩
    simp only [hfind, Option.mem_some, forall_eq'] at hbare
    by_cases hdrops : c.DropsTable
    · simp [hlive, hbare, hdrops, hne.symm]
    · simp [hlive, hbare, hdrops]

end Alteration

/-- **An alteration is settled**, wherever it stands among other lines, if and only
if its end can be told: of its live clauses all but the last end in a comma and
the last in a semicolon, and the header becomes a comment if there are none. -/
theorem repair_alteration_iff (a : Alteration) (before after : List Text) :
    ((repair (before ++ (a.lines ++ after))).lines.drop before.length).take a.lines.length =
        a.settled ↔
      a.Clear after := by
  have hresumes : resumes after = false ↔ ∀ line ∈ nextLive? after, ¬ BeginsClause line := by
    simp only [resumes, ← alterClause_starts_iff_beginsClause]
    cases nextLive? after <;> simp
  rw [drop_lines_repair, a.take_lines_repair, Alteration.settled, List.cons.injEq,
    a.marked_header_iff, fixedLines_eq_settledLines_iff, hresumes, Alteration.Clear]

/-- A clause behind one blank. -/
def indentedClause (word body : Text) (live : Bool)
    (hword : ∃ w ∈ clauseWords, spells w.toList word)
    (hbody : body.head?.any isBlank) : Clause where
  indent := [' ']
  word := word
  body := body
  tail := []
  live := live
  indent_blank := Text.isBlank_of_mem_space
  word_spelled := hword
  body_blank := hbody
  tail_blank := Text.isBlank_of_mem_nil

/-- An alteration whose second clause has been commented out. -/
def keyAlteration : Alteration where
  name := ['a']
  clauses := [indentedClause "ADD".toList " PRIMARY KEY (id)".toList true
      ⟨"ADD", by decide, by decide⟩ (by decide),
    indentedClause "add".toList " KEY k (x)".toList false ⟨"ADD", by decide, by decide⟩ (by decide)]
  name_ne := by decide
  name_solid := by decide
  name_comma := by decide
  clauses_ne := by decide

/-- At the end of a script the end of an alteration can be told.  Before a statement
that drops a table it cannot. -/
theorem repair_alteration_iff_keyAlteration :
    keyAlteration.lines = ["ALTER TABLE a".toList, " ADD PRIMARY KEY (id),".toList,
        "--  add KEY k (x);".toList] ∧
      keyAlteration.settled = ["ALTER TABLE a".toList, " ADD PRIMARY KEY (id);".toList,
        "--  add KEY k (x);".toList] ∧
      keyAlteration.Clear [] ∧ ¬ keyAlteration.Clear ["DROP TABLE b;".toList] :=
  ⟨by decide, by decide, (repair_alteration_iff keyAlteration [] []).mp (by decide +kernel),
    mt (repair_alteration_iff keyAlteration [] _).mpr (by decide +kernel)⟩

/-- The comma of a last live clause stays where a statement follows that drops a
table, though the clause after it is a comment. -/
theorem repair_before_dropTable :
    (repair ["ALTER TABLE a".toList, "  ADD PRIMARY KEY (id),".toList, "--   ADD KEY k (x);".toList,
        "DROP TABLE b;".toList]).lines =
      ["ALTER TABLE a".toList, "  ADD PRIMARY KEY (id),".toList, "--   ADD KEY k (x);".toList,
        "DROP TABLE b;".toList] := by
  decide +kernel

end DumpBridge.Separators
