import DumpBridge.Separators
import DumpBridge.Proofs.Line.ColumnText

/-!
# Reading lines for their separators

The repair goes line by line (`lines_repair`), and what a line is taken for hangs
on its first word: a clause of an alteration (`alterClause_starts_iff_beginsClause`),
the start of a statement (`statementStart_starts_iff`), rows of data, or none.
-/

namespace DumpBridge.Separators

open Text (Pattern FirstWord isBlank isWord)
open Text.Pattern
open Line (isComment isData isEmpty commentOut tableName?)

/-! ## Line by line -/

/-- The lines with their commas repaired. -/
def commasFixed (lines : List Text) : List Text :=
  List.zipWith CommaFix.apply (commaFixes lines) lines

/-- The lines with the bare headers made comments. -/
def headersMarked (lines : List Text) : List Text :=
  List.zipWith (fun bare line => if bare then commentOut line else line) (bareHeaders lines) lines

theorem lines_repair (lines : List Text) :
    (repair lines).lines = headersMarked (commasFixed lines) := rfl

@[simp] theorem commasFixed_nil : commasFixed [] = [] := rfl

@[simp] theorem commasFixed_cons (line : Text) (rest : List Text) :
    commasFixed (line :: rest) = (commaFix line rest).apply line :: commasFixed rest := rfl

@[simp] theorem headersMarked_nil : headersMarked [] = [] := rfl

@[simp] theorem headersMarked_cons (line : Text) (rest : List Text) :
    headersMarked (line :: rest) =
      (if isBareHeader line rest then commentOut line else line) :: headersMarked rest := rfl

/-- What becomes of lines does not depend on the lines before them. -/
theorem drop_lines_repair (before rest : List Text) :
    (repair (before ++ rest)).lines.drop before.length = (repair rest).lines := by
  rw [lines_repair, lines_repair]
  induction before with
  | nil => rfl
  | cons line before ih => simpa using ih

/-- The next live line is the first one that is live. -/
theorem nextLive?_cons (line : Text) (rest : List Text) :
    nextLive? (line :: rest) = if isLive line then some line else nextLive? rest := by
  rw [nextLive?, List.find?_cons, nextLive?]
  cases isLive line <;> rfl

theorem nextNonBlank?_cons {line : Text} (hline : isEmpty line = false) (rest : List Text) :
    nextNonBlank? (line :: rest) = some line := by
  simp [nextNonBlank?, hline]

/-- A line that does not end in a comma is left alone. -/
theorem commaFix_eq_keep {line : Text} (rest : List Text)
    (hline : Text.endsWith ',' (Text.trimEnd line) = false) : commaFix line rest = .keep := by
  simp [commaFix, hline]

/-- The comma before the blanks that end a line is replaced. -/
theorem replaceComma_append (new t : Text) {tail : Text} (htail : ∀ c ∈ tail, isBlank c) :
    replaceComma new (t ++ ',' :: tail) = t ++ new ++ tail := by
  have htrim : Text.trimEnd (t ++ ',' :: tail) = t ++ [','] :=
    Text.trimEnd_append_cons (by decide) htail
  have hsplit : t ++ ',' :: tail = t ++ [','] ++ tail := by simp
  rw [replaceComma, htrim, List.dropLast_concat, hsplit, List.drop_left]

/-! ## The first word of a line -/

variable {line lead word rest : Text}

/-- A line with a word is not empty. -/
theorem isEmpty_of_firstWord (h : FirstWord line lead word rest) : isEmpty line = false := by
  obtain ⟨c, word', hword⟩ := List.exists_cons_of_ne_nil h.word_ne
  have hc : isBlank c = false := h.word_solid c (by simp [hword])
  exact Line.isEmpty_eq_false hc (by simp [h.line_eq, hword])

/-- Whether a line is a comment depends on its first word. -/
theorem isComment_of_firstWord (h : FirstWord line lead word rest) :
    isComment line = ['-', '-'].isPrefixOf word := by
  rw [isComment, h.line_eq, Text.trimStart_append h.lead_blank h.head_word]
  have hblank := h.rest_blank
  have hdash : isBlank '-' = false := by decide
  cases hrest : rest with
  | nil => simp [hrest] at hblank
  | cons b rest' =>
    have hb : '-' ≠ b := by
      rintro rfl
      simp [hrest, hdash] at hblank
    obtain ⟨c, word', hword⟩ := List.exists_cons_of_ne_nil h.word_ne
    rw [hword]
    cases word' with
    | nil => simp [List.isPrefixOf, hb]
    | cons d word' => rfl

/-- A comment begins with its dashes. -/
theorem firstWord_commentOut (line : Text) :
    FirstWord (commentOut line) [] ['-', '-'] (' ' :: line) :=
  ⟨rfl, by simp, by simp, by decide, by simp; decide⟩

/-- Letters that start a text and are not the blank after its first word start the
word. -/
theorem prefix_map_word (h : FirstWord line lead word rest) {letters : Text}
    (hletters : ∀ c ∈ letters, isWord c) :
    letters <+: (word ++ rest).map Char.toUpper ↔ letters <+: word.map Char.toUpper := by
  rw [List.map_append]
  constructor
  · intro hprefix
    have hword : word.map Char.toUpper <+: word.map Char.toUpper ++ rest.map Char.toUpper :=
      List.prefix_append _ _
    rcases List.prefix_or_prefix_of_prefix hprefix hword with hle | ⟨more, hmore⟩
    · exact hle
    · -- One letter more than the word would be the blank.
      rw [← hmore, List.prefix_append_right_inj] at hprefix
      cases more with
      | nil => exact ⟨[], by simp [← hmore]⟩
      | cons d more =>
        have hblank := h.rest_blank
        cases rest with
        | nil => simp at hblank
        | cons b rest =>
          obtain ⟨rfl, -⟩ := List.cons_prefix_cons.mp hprefix
          have hb : isBlank b := by simpa using hblank
          have hletter : isWord b.toUpper := hletters _ (by simp [← hmore])
          rw [Text.toUpper_eq_self_of_isBlank hb] at hletter
          simp [Text.isWord_eq_false_of_isBlank hb] at hletter
  · exact fun hprefix => hprefix.trans (List.prefix_append _ _)

/-- Whether rows could begin with the word: a parenthesis or the word of an insert
starts it. -/
def beginsRows (word : Text) : Bool :=
  Text.startsWith '(' word || "INSERT".toList.isPrefixOf (word.map Char.toUpper) ||
    "REPLACE".toList.isPrefixOf (word.map Char.toUpper)

/-- Whether a line holds rows depends on its first word. -/
theorem isData_eq (h : FirstWord line lead word rest) : isData line = beginsRows word := by
  have hstart : Text.startsWith '(' (word ++ rest) = Text.startsWith '(' word := by
    obtain ⟨c, word', rfl⟩ := List.exists_cons_of_ne_nil h.word_ne
    rfl
  have hprefix : ∀ letters : Text, letters.length ≤ 7 → (∀ c ∈ letters, isWord c) →
      letters.isPrefixOf (((word ++ rest).take 7).map Char.toUpper) =
        letters.isPrefixOf (word.map Char.toUpper) := by
    intro letters hlength hletters
    rw [Bool.eq_iff_iff, List.isPrefixOf_iff_prefix, List.isPrefixOf_iff_prefix,
      ← prefix_map_word h hletters, List.map_take, List.prefix_take_iff]
    exact and_iff_left hlength
  rw [isData, h.line_eq, Text.trimStart_append h.lead_blank h.head_word]
  simp only [hstart, hprefix "INSERT".toList (by decide) (by decide),
    hprefix "REPLACE".toList (by decide) (by decide), beginsRows]

/-- The words that begin a clause of an alteration. -/
def clauseWords : List String := ["ADD", "DROP", "MODIFY", "CHANGE", "RENAME"]

theorem isKeyword_clauseWords : ∀ w ∈ clauseWords, isKeyword w.toList := by decide

/-- No clause begins like rows. -/
theorem beginsRows_of_spells {w : String} (hw : w ∈ clauseWords)
    (hspells : spells w.toList word) : beginsRows word = false := by
  have hcapitals : ∀ w ∈ clauseWords, (∀ a ∈ w.toList, a.isUpper ∧ a ≠ 'K' ∧ a ≠ 'S') ∧
        "INSERT".toList.isPrefixOf w.toList = false ∧
          "REPLACE".toList.isPrefixOf w.toList = false := by decide
  obtain ⟨hletters, hinsert, hreplace⟩ := hcapitals w hw
  obtain ⟨hne, hword⟩ := isWord_of_spells (isKeyword_clauseWords w hw) hspells
  have hparen : Text.startsWith '(' word = false := by
    obtain ⟨d, word', rfl⟩ := List.exists_cons_of_ne_nil hne
    have hd : d ≠ '(' := by
      rintro rfl
      exact absurd (hword '(' (by simp)) (by decide)
    simp [Text.startsWith, hd]
  rw [beginsRows, hparen, map_toUpper_of_spells hletters hspells, hinsert, hreplace]
  rfl

/-- A line begins a clause if its first word is one of a clause, or if it changes
a column with `ALTER COLUMN`. -/
theorem alterClause_starts_iff (h : FirstWord line lead word rest) :
    alterClause.starts line ↔
      (∃ w ∈ clauseWords, spells w.toList word) ∨
        spells "ALTER".toList word ∧
          (gap ++ (letters "COLUMN".toList ++ .one isBlank)).Fits word.getLast? rest := by
  have hblank : ∀ before m, (one isBlank).Fits before m → m.head?.any isBlank :=
    fun _ _ => fits_one.mp
  have hone : ∀ w : String, isKeyword w.toList →
      ((phrase w ++ one isBlank).Fits lead.getLast? (word ++ rest) ↔
        spells w.toList word) := by
    intro w hw
    rw [phrase_eq_letters, h.fits_iff hw hblank, fits_one, h.rest_blank]
    exact and_iff_left rfl
  have htwo : (phrase "ALTER COLUMN" ++ one isBlank).Fits lead.getLast? (word ++ rest) ↔
      spells "ALTER".toList word ∧
        (gap ++ (letters "COLUMN".toList ++ .one isBlank)).Fits word.getLast? rest := by
    have hsplit : phrase "ALTER COLUMN" = letters ("ALTER".toList ++ ' ' :: "COLUMN".toList) := rfl
    rw [hsplit, h.fits_phrase_iff (by decide)]
  rw [starts_iff, alterClause, fits_append_assoc, h.line_eq,
    fits_blanks_append h.lead_blank h.head_word, Option.or_none, anyPhrase, fits_anyOf_append]
  simp only [List.map_cons, List.map_nil, List.mem_cons, List.not_mem_nil, or_false, clauseWords,
    exists_eq_or_imp, exists_eq_left, htwo, hone "ADD" (by decide), hone "DROP" (by decide),
    hone "MODIFY" (by decide), hone "CHANGE" (by decide), hone "RENAME" (by decide)]
  grind

/-- A line that begins a clause has a first word. -/
theorem exists_firstWord (hstarts : alterClause.starts line) :
    ∃ lead word rest, FirstWord line lead word rest := by
  have hphrase : ∀ p ∈ ["ADD", "DROP", "MODIFY", "CHANGE", "ALTER COLUMN", "RENAME"].map phrase,
      ∃ w other, isKeyword w ∧ p = letters (w ++ other) ∧ (other = [] ∨ ∃ o, other = ' ' :: o) := by
    simp only [List.map_cons, List.map_nil, List.forall_mem_cons, List.not_mem_nil, false_imp_iff,
      implies_true, and_true]
    exact ⟨⟨"ADD".toList, [], by decide, rfl, .inl rfl⟩,
      ⟨"DROP".toList, [], by decide, rfl, .inl rfl⟩,
      ⟨"MODIFY".toList, [], by decide, rfl, .inl rfl⟩,
      ⟨"CHANGE".toList, [], by decide, rfl, .inl rfl⟩,
      ⟨"ALTER".toList, " COLUMN".toList, by decide, rfl, .inr ⟨_, rfl⟩⟩,
      ⟨"RENAME".toList, [], by decide, rfl, .inl rfl⟩⟩
  rw [starts_iff, alterClause, fits_append_assoc, fits_append] at hstarts
  obtain ⟨lead, t, rfl, ⟨hlead, -⟩, hfits⟩ := hstarts
  rw [anyPhrase, fits_anyOf_append] at hfits
  obtain ⟨p, hp, hfits⟩ := hfits
  obtain ⟨w, other, hkeyword, rfl, hother⟩ := hphrase p hp
  have hspace := not_mem_of_isKeyword hkeyword
  obtain ⟨word, rest, rfl, hspells, hblank⟩ : ∃ word rest, t = word ++ rest ∧
      spells w word ∧ rest.head?.any isBlank := by
    rcases hother with rfl | ⟨o, rfl⟩
    · rw [List.append_nil, fits_word_append hspace] at hfits
      obtain ⟨word, rest, rfl, hspells, hfits⟩ := hfits
      exact ⟨word, rest, rfl, hspells, fits_one.mp hfits⟩
    · obtain ⟨word, rest, rfl, hspells, hfits⟩ := (fits_phrase_append hspace).mp hfits
      exact ⟨word, rest, rfl, hspells, isBlank_of_fits_gap hfits⟩
  obtain ⟨hne, hletters⟩ := isWord_of_spells hkeyword hspells
  exact ⟨lead, word, rest, rfl, hlead, hne,
    fun c hc => Text.isBlank_eq_false_of_isWord (hletters c hc), hblank⟩

/-- The line begins a clause: its first word is one of a clause, or its first two
are `ALTER COLUMN`. -/
def BeginsClause (line : Text) : Prop :=
  ∃ lead word rest, FirstWord line lead word rest ∧
    ((∃ w ∈ clauseWords, spells w.toList word) ∨
      spells "ALTER".toList word ∧
        ∃ gap column after, FirstWord rest gap column after ∧ spells "COLUMN".toList column)

/-- The word `COLUMN` follows just if it is the first word of the rest. -/
theorem fits_column_iff (h : FirstWord line lead word rest) :
    (gap ++ (letters "COLUMN".toList ++ .one isBlank)).Fits word.getLast? rest ↔
      ∃ gap column after, FirstWord rest gap column after ∧
        spells "COLUMN".toList column := by
  have hkeyword : isKeyword "COLUMN".toList := by decide
  simp only [fits_gap_append, fits_word_append (not_mem_of_isKeyword hkeyword), fits_one]
  constructor
  · rintro ⟨gap, _, rfl, ⟨-, hgap, -⟩, column, after, rfl, hspells, hblank⟩
    obtain ⟨hne, hletters⟩ := isWord_of_spells hkeyword hspells
    exact ⟨gap, column, after, ⟨rfl, hgap, hne,
      fun c hc => Text.isBlank_eq_false_of_isWord (hletters c hc), hblank⟩, hspells⟩
  · rintro ⟨gap, column, after, hcolumn, hspells⟩
    refine ⟨gap, column ++ after, hcolumn.line_eq, ⟨?_, hcolumn.lead_blank, hcolumn.head_word⟩,
      column, after, rfl, hspells, hcolumn.rest_blank⟩
    rintro rfl
    have hblank := h.rest_blank
    rw [hcolumn.line_eq, List.nil_append, hcolumn.head_word] at hblank
    simp at hblank

/-- **A line starts like a clause** just if it begins with the words of one. -/
theorem alterClause_starts_iff_beginsClause (line : Text) :
    alterClause.starts line ↔ BeginsClause line := by
  constructor
  · intro hstarts
    obtain ⟨lead, word, rest, h⟩ := exists_firstWord hstarts
    rw [alterClause_starts_iff h, fits_column_iff h] at hstarts
    exact ⟨lead, word, rest, h, hstarts⟩
  · rintro ⟨lead, word, rest, h, hwords⟩
    rwa [alterClause_starts_iff h, fits_column_iff h]

/-- A header begins with the words `ALTER TABLE`. -/
theorem spells_of_alterHeader (h : FirstWord line lead word rest)
    (hstarts : alterHeader.starts line) :
    spells "ALTER".toList word ∧
      ∃ q, (gap ++ (letters "TABLE".toList ++ (gap ++ q))).Fits word.getLast? rest := by
  rw [starts_iff, alterHeader] at hstarts
  simp only [fits_append_assoc] at hstarts
  exact h.spells_of_fits_table (by decide) hstarts

/-- A comment is no header. -/
theorem alterHeader_starts_commentOut (line : Text) :
    alterHeader.starts (commentOut line) = false := by
  cases hstarts : alterHeader.starts (commentOut line) with
  | false => rfl
  | true => exact absurd (spells_of_alterHeader (firstWord_commentOut line) hstarts).1 (by decide)

/-- A table definition begins with the word `CREATE`. -/
theorem spells_of_tableName (h : FirstWord line lead word rest)
    (hname : (tableName? line).isSome) : spells "CREATE".toList word := by
  obtain ⟨a, hfits⟩ := Line.fits_tableOpener hname
  exact (h.spells_of_fits_table (by decide) hfits).1

/-- The words other than `ALTER` and `DROP` that begin a statement. -/
def statementWords : List String :=
  ["CREATE", "INSERT", "REPLACE", "SET", "LOCK", "UNLOCK", "COMMIT", "START"]

/-- No word begins both a clause and, by itself, a statement. -/
theorem clauseWords_ne_statementWords : ∀ v ∈ "ALTER" :: statementWords, isKeyword v.toList ∧
      ∀ w ∈ clauseWords, w.toList.map Char.toLower ≠ v.toList.map Char.toLower := by
  decide

/-- Of the lines that begin a clause, those that drop a table also begin a
statement. -/
theorem statementStart_starts_iff (h : FirstWord line lead word rest)
    (hword : ∃ w ∈ clauseWords, spells w.toList word) :
    statementStart.starts line ↔
      spells "DROP".toList word ∧
        (gap ++ (letters "TABLE".toList ++ edge)).Fits word.getLast? rest := by
  obtain ⟨w, hw, hspells⟩ := hword
  have hkeyword := isKeyword_clauseWords w hw
  have hletters := (isWord_of_spells hkeyword hspells).2
  have hrest : rest.head?.any isWord = false := by
    have hblank := h.rest_blank
    cases rest with
    | nil => rfl
    | cons c rest => simpa using Text.isWord_eq_false_of_isBlank (by simpa using hblank)
  have hedge : ∀ last m, isWord last → edge.Fits (some last) m → m.head?.any isWord = false := by
    intro last m hlast hfits
    rw [fits_edge] at hfits
    simp_all
  have hother : ∀ v ∈ "ALTER" :: statementWords, spells v.toList word = false := by
    intro v hv
    obtain ⟨hvKeyword, hne⟩ := clauseWords_ne_statementWords v hv
    exact spells_eq_false hspells hkeyword hvKeyword (hne w hw)
  have hone : ∀ v ∈ statementWords, ¬ (phrase v ++ edge).Fits lead.getLast? (word ++ rest) := by
    intro v hv hfits
    obtain ⟨hvKeyword, -⟩ := clauseWords_ne_statementWords v (List.mem_cons_of_mem _ hv)
    rw [phrase_eq_letters, fits_keyword_append (fun _ => id) hvKeyword hedge hletters hrest,
      hother v (List.mem_cons_of_mem _ hv)] at hfits
    simp at hfits
  have htwo : ∀ v : Text, isKeyword v →
      ((letters (v ++ ' ' :: "TABLE".toList) ++ edge).Fits lead.getLast? (word ++ rest) ↔
        spells v word ∧ (gap ++ (letters "TABLE".toList ++ edge)).Fits word.getLast? rest) :=
    fun v hv => h.fits_phrase_iff hv
  rw [starts_iff, statementStart, fits_append_assoc, h.line_eq,
    fits_blanks_append h.lead_blank h.head_word, Option.or_none, anyPhrase, fits_anyOf_append]
  have halter := htwo "ALTER".toList (by decide)
  rw [hother "ALTER" (by simp)] at halter
  have hdrop := htwo "DROP".toList (by decide)
  simp only [statementWords, List.forall_mem_cons] at hone
  have halterSplit : phrase "ALTER TABLE" = letters ("ALTER".toList ++ ' ' :: "TABLE".toList) := rfl
  have hdropSplit : phrase "DROP TABLE" = letters ("DROP".toList ++ ' ' :: "TABLE".toList) := rfl
  simp only [List.map_cons, List.map_nil, List.mem_cons, List.not_mem_nil, or_false,
    exists_eq_or_imp, exists_eq_left, halterSplit, hdropSplit, halter, hdrop]
  grind

end DumpBridge.Separators
