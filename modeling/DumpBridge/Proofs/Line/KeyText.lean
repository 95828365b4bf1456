import DumpBridge.Proofs.Line.ColumnText

/-!
# What is taken for a key

A line of a table definition is taken for a key, index or constraint by its first
word and what follows it.  `IsKey word rest` says of the two when that is so, and
`keyClause_starts_iff` that the converter agrees.
-/

namespace DumpBridge.Line

open Text (Pattern isBlank isWord)
open Text.Pattern

/-- The next word begins with the letters of `w`. -/
def NextWord (w : String) (rest : Text) : Prop :=
  ∃ space y m, rest = space ++ (y ++ m) ∧ space ≠ [] ∧ (∀ c ∈ space, isBlank c) ∧
    spells w.toList y

/-- A parenthesis comes next. -/
def Opens (rest : Text) : Prop :=
  ∃ space m, rest = space ++ '(' :: m ∧ ∀ c ∈ space, isBlank c

/-- One quote mark for names, or nothing. -/
def OptionalQuote (q : Text) : Prop :=
  (∃ c, q = [c] ∧ isNameQuote c) ∨ q = []

/-- The name of a key, with the blanks after it. -/
def KeyName (name : Text) : Prop :=
  ∃ q word q' space, name = q ++ (word ++ (q' ++ space)) ∧ OptionalQuote q ∧
    (word ≠ [] ∧ ∀ c ∈ word, isWord c) ∧ OptionalQuote q' ∧ ∀ c ∈ space, isBlank c

/-- A name comes next. -/
def BeginsName (rest : Text) : Prop :=
  ∃ space q c m, rest = space ++ (q ++ c :: m) ∧ (∀ c ∈ space, isBlank c) ∧
    OptionalQuote q ∧ isFoldedNameStart c

/-- A list of columns comes next, after the name of a key if there is one. -/
def ListsColumns (rest : Text) : Prop :=
  ∃ space name more, rest = space ++ (name ++ '(' :: more) ∧ (∀ c ∈ space, isBlank c) ∧
    (KeyName name ∨ name = []) ∧ BeginsName more

/-- What is taken for a key: the first word of the line is `word`, and `rest`
follows. -/
def IsKey (word rest : Text) : Prop :=
  (∃ w ∈ ["CONSTRAINT", "FULLTEXT", "SPATIAL"], spells w.toList word) ∧
      rest.head?.any isBlank ∨
    (∃ w ∈ ["PRIMARY", "FOREIGN", "UNIQUE"], spells w.toList word) ∧ NextWord "KEY" rest ∨
    spells "UNIQUE".toList word ∧ NextWord "INDEX" rest ∨
    (∃ w ∈ ["UNIQUE", "CHECK"], spells w.toList word) ∧ Opens rest ∨
    (∃ w ∈ ["KEY", "INDEX"], spells w.toList word) ∧ ListsColumns rest

variable {before : Option Char} {t rest word : Text} {a : Pattern}

theorem isBare_eq_false_of_isBlank {c : Char} (hc : isBlank c) : isBare c = false := by
  simp [isBare, hc]

theorem isBlank_of_isNameQuote {c : Char} (hc : isNameQuote c) : isBlank c = false := by
  rw [isNameQuote, Bool.or_eq_true, decide_eq_true_eq, decide_eq_true_eq] at hc
  rcases hc with rfl | rfl <;> decide

theorem isWord_of_isNameQuote {c : Char} (hc : isNameQuote c) : isWord c = false := by
  rw [isNameQuote, Bool.or_eq_true, decide_eq_true_eq, decide_eq_true_eq] at hc
  rcases hc with rfl | rfl <;> decide

theorem isBare_of_isNameQuote {c : Char} (hc : isNameQuote c) : isBare c = false := by
  rw [isNameQuote, Bool.or_eq_true, decide_eq_true_eq, decide_eq_true_eq] at hc
  rcases hc with rfl | rfl <;> decide

/-- The first character of a name is no blank. -/
theorem isBlank_of_isFoldedNameStart {c : Char} (hc : isFoldedNameStart c) :
    isBlank c = false := by
  simp only [isFoldedNameStart, Bool.or_eq_true, decide_eq_true_eq] at hc
  rcases hc with (hc | rfl) | rfl
  · exact Text.isBlank_eq_false_of_isWord (Text.isWord_of_isNameStart hc)
  · decide
  · decide

/-! ## The parts of the patterns -/

/-- No blank comes next, if a solid character follows the quote mark. -/
theorem OptionalQuote.head {q : Text} (hq : OptionalQuote q) {m : Text}
    (hm : m.head?.any isBlank = false) : (q ++ m).head?.any isBlank = false := by
  rcases hq with ⟨c, rfl, hc⟩ | rfl
  · simpa using isBlank_of_isNameQuote hc
  · exact hm

/-- The columns of a key begin with a parenthesis and a name. -/
theorem fits_keyColumns : keyColumns.Fits before t ↔ ∃ more, t = '(' :: more ∧ BeginsName more := by
  rw [keyColumns, fits_append_assoc, fits_append_assoc, fits_append]
  constructor
  · rintro ⟨_, _, rfl, hparen, hfits⟩
    obtain ⟨space, _, rfl, ⟨hspace, -⟩, hfits⟩ := fits_append.mp hfits
    obtain ⟨q, m, rfl, hq, hfits⟩ := fits_append.mp hfits
    obtain rfl := takes_char.mp hparen
    cases m with
    | nil => simp [fits_one] at hfits
    | cons c m => exact ⟨_, rfl, space, q, c, m, rfl, hspace, hq, by simpa [fits_one] using hfits⟩
  · rintro ⟨_, rfl, space, q, c, m, rfl, hspace, hq, hc⟩
    have hhead : (q ++ c :: m).head?.any isBlank = false :=
      hq.head (by simpa using isBlank_of_isFoldedNameStart hc)
    refine ⟨['('], space ++ (q ++ c :: m), rfl, takes_char.mpr rfl, ?_⟩
    refine fits_append.mpr ⟨space, q ++ c :: m, rfl, ⟨hspace, hhead⟩, ?_⟩
    exact fits_append.mpr ⟨q, c :: m, rfl, hq, fits_one.mpr (by simpa using hc)⟩

/-- Before a parenthesis, what may be the name of a key is a word, perhaps between quotes. -/
theorem takes_keyName {x : Text} (hrest : rest.head? = some '(') :
    (nameQuote ++ wordChars ++ nameQuote ++ blanks).Takes before x rest ↔ KeyName x := by
  obtain ⟨rest, rfl⟩ := List.head?_eq_some_iff.mp hrest
  have hparen : isBlank '(' = false := by decide
  constructor
  · rintro ⟨_, space, rfl, ⟨_, q', rfl, ⟨q, word, rfl, hq, hword⟩, hq'⟩, hspace, -⟩
    obtain ⟨hne, hword, -⟩ := takes_someOf.mp hword
    exact ⟨q, word, q', space, by simp, hq, ⟨hne, hword⟩, hq', hspace⟩
  · rintro ⟨q, word, q', space, rfl, hq, ⟨hne, hword⟩, hq', hspace⟩
    refine ⟨q ++ word ++ q', space, by simp, ⟨q ++ word, q', rfl, ⟨q, word, rfl, hq, ?_⟩, hq'⟩,
      hspace, by simpa using hparen⟩
    refine takes_someOf.mpr ⟨hne, hword, ?_⟩
    -- After the word there is a quote mark, a blank or the parenthesis.
    rcases hq' with ⟨c, rfl, hc⟩ | rfl
    · simpa using isWord_of_isNameQuote hc
    · cases space with
      | nil => exact show isWord '(' = false by decide
      | cons c space => simpa using Text.isWord_eq_false_of_isBlank (hspace c (by simp))

/-- The name of a key does not begin with a blank. -/
theorem KeyName.head {name : Text} (hname : KeyName name) (m : Text) :
    (name ++ m).head?.any isBlank = false := by
  obtain ⟨q, word, q', space, rfl, hq, ⟨hne, hword⟩, -, -⟩ := hname
  rw [List.append_assoc, List.append_assoc]
  exact hq.head (head_append_of_isWord hne hword _)

/-- The pattern of what follows the words `KEY` and `INDEX`. -/
def columnList : Pattern :=
  edge ++ (blanks ++ (optional (nameQuote ++ wordChars ++ nameQuote ++ blanks) ++ keyColumns))

/-- After a letter, a list of columns follows just if the word ends and columns are listed. -/
theorem fits_columnList {last : Char} (hlast : isWord last) :
    columnList.Fits (some last) rest ↔ rest.head?.any isWord = false ∧ ListsColumns rest := by
  rw [columnList, fits_edge_append]
  have hedge : (some last).any isWord ≠ rest.head?.any isWord ↔ rest.head?.any isWord = false := by
    simp [hlast]
  rw [hedge, and_congr_right_iff]
  intro _
  rw [fits_append]
  constructor
  · rintro ⟨space, _, rfl, ⟨hspace, -⟩, hfits⟩
    obtain ⟨name, m, rfl, hname, hfits⟩ := fits_append.mp hfits
    obtain ⟨more, rfl, hmore⟩ := fits_keyColumns.mp hfits
    exact ⟨space, name, more, rfl, hspace, hname.imp_left (takes_keyName rfl).mp, hmore⟩
  · rintro ⟨space, name, more, rfl, hspace, hname, hmore⟩
    have hhead : (name ++ '(' :: more).head?.any isBlank = false := by
      rcases hname with hname | rfl
      · exact hname.head _
      · exact show isBlank '(' = false by decide
    refine ⟨space, name ++ '(' :: more, rfl, ⟨hspace, hhead⟩, ?_⟩
    exact fits_append.mpr ⟨name, '(' :: more, rfl, hname.imp_left (takes_keyName rfl).mpr,
      fits_keyColumns.mpr ⟨more, rfl, hmore⟩⟩

/-- What follows the words begins with a character of no name. -/
theorem ListsColumns.head (h : ListsColumns rest) (hrest : rest.head?.any isWord = false) :
    rest.head?.any isBare = false := by
  have hparen : isBare '(' = false := by decide
  obtain ⟨space, name, more, rfl, hspace, hname, -⟩ := h
  cases space with
  | cons c space => simpa using isBare_eq_false_of_isBlank (hspace c (by simp))
  | nil =>
    rcases hname with ⟨q, word, q', space, rfl, hq, ⟨hne, hword⟩, -, -⟩ | rfl
    · rcases hq with ⟨c, rfl, hc⟩ | rfl
      · simpa using isBare_of_isNameQuote hc
      · obtain ⟨c, word, rfl⟩ := List.exists_cons_of_ne_nil hne
        simp [hword c (by simp)] at hrest
    · simpa using hparen

/-- A gap and a keyword fit where the keyword is the next word. -/
theorem fits_nextWord {w : String} (hw : isKeyword w.toList) :
    (gap ++ letters w.toList).Fits before rest ↔ NextWord w rest := by
  simp only [fits_gap_append, fits_letters (not_mem_of_isKeyword hw)]
  constructor
  · rintro ⟨space, _, rfl, ⟨hne, hspace, -⟩, y, m, rfl, hy⟩
    exact ⟨space, y, m, rfl, hne, hspace, hy⟩
  · rintro ⟨space, y, m, rfl, hne, hspace, hy⟩
    exact ⟨space, y ++ m, rfl, ⟨hne, hspace, head_append_of_spells hw hy m⟩, y, m, rfl, hy⟩

/-- Blanks and a parenthesis fit where a parenthesis opens. -/
theorem fits_opens : (blanks ++ char '(').Fits before rest ↔ Opens rest := by
  rw [fits_append]
  constructor
  · rintro ⟨space, _, rfl, ⟨hspace, -⟩, x, m, rfl, hparen⟩
    obtain rfl := takes_char.mp hparen
    exact ⟨space, m, rfl, hspace⟩
  · rintro ⟨space, m, rfl, hspace⟩
    exact ⟨space, '(' :: m, rfl, ⟨hspace, show isBlank '(' = false by decide⟩, ['('], m, rfl,
      takes_char.mpr rfl⟩

/-- Where one opens, no bare character stands. -/
theorem Opens.head (h : Opens rest) : rest.head?.any isBare = false := by
  obtain ⟨space, m, rfl, hspace⟩ := h
  cases space with
  | nil => exact show isBare '(' = false by decide
  | cons c space => simpa using isBare_eq_false_of_isBlank (hspace c (by simp))

/-! ## The first word decides -/

/-- Characters of words are bare. -/
theorem isBare_of_isWord {c : Char} (hc : isWord c) : isBare c := by
  have hmarks : ∀ d ∈ "\x60\"'()".toList, isWord d = false := by decide
  have hnot : c ∉ "\x60\"'()".toList := by
    intro hmem
    simp [hmarks c hmem] at hc
  rw [isBare, Text.isBlank_eq_false_of_isWord hc]
  simpa using hnot

/-- A text that begins with a word of bare characters begins with a keyword if the
word is the keyword. -/
theorem fits_firstWord (hword : ∀ c ∈ word, isBare c)
    (hrest : rest.head?.any isBare = false) {w : String} (hw : isKeyword w.toList)
    (ha : ∀ last m, isWord last → a.Fits (some last) m → m.head?.any isBare = false) :
    (letters w.toList ++ a).Fits none (word ++ rest) ↔
      spells w.toList word ∧ a.Fits word.getLast? rest :=
  fits_keyword_append (fun _ => isBare_of_isWord) hw ha hword hrest

theorem head_of_isBlank {m : Text} (hm : m.head?.any isBlank) :
    m.head?.any isBare = false := by
  cases m with
  | nil => rfl
  | cons c m => simpa using isBare_eq_false_of_isBlank (by simpa using hm)

/-- **What is taken for a key** is told by the first word and what follows it. -/
theorem keyClause_starts_iff (hword : ∀ c ∈ word, isBare c)
    (hrest : rest.head?.any isBare = false) :
    keyClause.starts (word ++ rest) ↔ IsKey word rest := by
  -- The four kinds of patterns that follow a first word.
  have hpair : ∀ s w v : String, s.toList = w.toList ++ ' ' :: v.toList →
      isKeyword w.toList → isKeyword v.toList →
      ((phrase s).Fits none (word ++ rest) ↔ spells w.toList word ∧ NextWord v rest) := by
    intro s w v hs hw hv
    rw [phrase_eq_letters, hs, fits_letters_pair, fits_firstWord hword hrest hw, fits_nextWord hv]
    exact fun _ _ _ hfits => head_of_isBlank (isBlank_of_fits_gap hfits)
  have hopen : ∀ w : String, isKeyword w.toList →
      ((phrase w ++ blanks ++ char '(').Fits none (word ++ rest) ↔
        spells w.toList word ∧ Opens rest) := by
    intro w hw
    rw [fits_append_assoc, phrase_eq_letters, fits_firstWord hword hrest hw, fits_opens]
    exact fun _ _ _ hfits => (fits_opens.mp hfits).head
  have hblank : ∀ w : String, isKeyword w.toList →
      ((phrase w ++ one isBlank).Fits none (word ++ rest) ↔
        spells w.toList word ∧ rest.head?.any isBlank) := by
    intro w hw
    rw [phrase_eq_letters, fits_firstWord hword hrest hw, fits_one]
    exact fun _ _ _ hfits => head_of_isBlank (fits_one.mp hfits)
  have hlist : ∀ w : String, isKeyword w.toList →
      ((phrase w ++ columnList).Fits none (word ++ rest) ↔
        spells w.toList word ∧ ListsColumns rest) := by
    intro w hw
    rw [phrase_eq_letters, fits_firstWord hword hrest hw]
    · have hrest' : rest.head?.any isWord = false := by
        cases rest with
        | nil => rfl
        | cons c rest =>
          have hc : isBare c = false := by simpa using hrest
          rw [List.head?_cons, Option.any_some, ← Bool.not_eq_true]
          exact fun hword => by simp [isBare_of_isWord hword] at hc
      refine and_congr_right fun hspells => ?_
      obtain ⟨hne, hletters⟩ := isWord_of_spells hw hspells
      rw [List.getLast?_eq_some_getLast hne, fits_columnList (hletters _ (List.getLast_mem hne))]
      exact and_iff_right hrest'
    · intro last m hlast hfits
      obtain ⟨hm, hlists⟩ := (fits_columnList hlast).mp hfits
      exact hlists.head hm
  have hkeys : (anyPhrase ["KEY", "INDEX"] ++ edge ++ blanks
        ++ optional (nameQuote ++ wordChars ++ nameQuote ++ blanks) ++ keyColumns).Fits none
        (word ++ rest) ↔
      (∃ w ∈ ["KEY", "INDEX"], spells w.toList word) ∧ ListsColumns rest := by
    have hassoc : (anyPhrase ["KEY", "INDEX"] ++ edge ++ blanks
        ++ optional (nameQuote ++ wordChars ++ nameQuote ++ blanks) ++ keyColumns).Fits none
        (word ++ rest) ↔ (anyPhrase ["KEY", "INDEX"] ++ columnList).Fits none (word ++ rest) := by
      simp only [fits_append_assoc, columnList]
    rw [hassoc, anyPhrase, fits_anyOf_append]
    simp only [List.map_cons, List.map_nil, List.mem_cons, List.not_mem_nil, or_false,
      exists_eq_or_imp, exists_eq_left, hlist "KEY" (by decide), hlist "INDEX" (by decide)]
    rw [or_and_right]
  rw [starts_iff, keyClause, fits_anyOf]
  simp only [List.mem_cons, List.not_mem_nil, or_false, exists_eq_or_imp, exists_eq_left, hkeys,
    hopen "UNIQUE" (by decide), hopen "CHECK" (by decide), hblank "CONSTRAINT" (by decide),
    hblank "FULLTEXT" (by decide), hblank "SPATIAL" (by decide), IsKey]
  rw [hpair "PRIMARY KEY" "PRIMARY" "KEY" rfl (by decide) (by decide),
    hpair "UNIQUE KEY" "UNIQUE" "KEY" rfl (by decide) (by decide),
    hpair "UNIQUE INDEX" "UNIQUE" "INDEX" rfl (by decide) (by decide),
    hpair "FOREIGN KEY" "FOREIGN" "KEY" rfl (by decide) (by decide)]
  clear hpair hopen hblank hlist hkeys
  grind

end DumpBridge.Line
