import DumpBridge.Line.InsertHeader
import DumpBridge.Proofs.Table.Reading
import DumpBridge.Proofs.Text.Reach

/-!
# The text of an insert header

`Reading line` cuts a line into what its header is made of: the words before the
name, the name of the table, and a `Closing`, which is a column list, if there is
one, and the word `VALUES`.  A line has a header exactly if it has a reading, and
the reading says what the header holds (`exists_reading`, `Reading.parse?_eq`).

A name takes what it can: a word `VALUES` in its own text ends it only where no
later one does (`IsLongest`).  After a column list there is no later one, so
there the list can be any other (`Reading.parse?_of_list`).  Two results are
built on this: a list can be put into a header that has none
(`parse?_insertAt`), and a list can take the place of a list (`parse?_relist`).
-/

namespace DumpBridge.Text.Pattern

variable {before : Option Char} {x rest : Text}

/-- Texts that start with words apart from each other are different. -/
theorem append_ne_of_apart {word other y m n : Text} (hword : isKeyword word)
    (hother : isKeyword other) (hapart : apart word other)
    (hx : spells word x) (hy : spells other y) : x ++ m ≠ y ++ n := by
  intro hsplit
  have hnot : ¬ (letters other ++ nothing).Fits none (x ++ m) :=
    not_fits_of_apart hword hother hapart hx
  rw [hsplit, fits_word_append (not_mem_of_isKeyword hother)] at hnot
  exact hnot ⟨y, n, rfl, hy, [], n, rfl, rfl⟩

/-- Of words that are apart, only one can be taken. -/
theorem takesOnly_anyPhrase {phrases : List String} (hkeywords : ∀ w ∈ phrases, isKeyword w.toList)
    (hapart : ∀ w ∈ phrases, ∀ v ∈ phrases, w = v ∨ apart w.toList v.toList)
    (h : (anyPhrase phrases).Takes before x rest) :
    (anyPhrase phrases).TakesOnly before x rest := by
  refine ⟨h, fun y m hsplit hy => ?_⟩
  obtain ⟨_, hmem, hx⟩ := takes_anyOf.mp h
  obtain ⟨w, hw, rfl⟩ := List.mem_map.mp hmem
  obtain ⟨_, hmem', hy⟩ := takes_anyOf.mp hy
  obtain ⟨v, hv, rfl⟩ := List.mem_map.mp hmem'
  rw [phrase_eq_letters] at hx hy
  rcases hapart w hw v hv with rfl | hwv
  · exact (takesOnly_letters hx).only y m hsplit hy
  · rw [takes_letters (not_mem_of_isKeyword (hkeywords w hw))] at hx
    rw [takes_letters (not_mem_of_isKeyword (hkeywords v hv))] at hy
    exact absurd hsplit (append_ne_of_apart (hkeywords w hw) (hkeywords v hv) hwv hx hy)

end DumpBridge.Text.Pattern

namespace DumpBridge.Line.InsertHeader

open Text (Pattern Cursor isBlank isWord)
open Text.Pattern
open Schema (isNameChar)

/-- What a header has before the name of the table. -/
def opening : Pattern :=
  blanks ++ anyPhrase ["INSERT", "REPLACE"] ++ optional (phrase " IGNORE") ++ phrase " INTO "

/-- A list of columns; slot 2 is the text between its parentheses. -/
def columnList : Pattern :=
  char '(' ++ capture 2 (run (· != ')')) ++ char ')'

/-- The word before the rows, after blanks. -/
def valuesWord : Pattern :=
  blanks ++ (phrase "VALUES" ++ edge)

/-- What a header has behind the name of the table. -/
def closing : Pattern :=
  nameQuote ++ (blanks ++ (optional columnList ++ valuesWord))

/-- The pattern of a header in four parts: its words, a mark, the name, and what closes it. -/
theorem ends_pattern (c : Cursor) :
    pattern.ends c = (opening ++ (nameQuote ++ (capture 1 nameChars ++ closing))).ends c := by
  have hpattern : pattern = opening ++ nameQuote ++ capture 1 nameChars ++ nameQuote ++ blanks
      ++ optional columnList ++ blanks ++ phrase "VALUES" ++ edge := rfl
  rw [hpattern, ends_append_assoc, ends_append_assoc, ends_append_assoc, ends_append_assoc,
    ends_append_assoc, ends_append_assoc, ends_append_assoc]
  rfl

variable {before : Option Char} {x t rest : Text}

/-! ## Before the name -/

/-- The words after the first are taken in one way: `INTO` does not begin as `IGNORE` does. -/
theorem takesOnly_into (h : (optional (phrase " IGNORE") ++ phrase " INTO ").Takes before x rest) :
    (optional (phrase " IGNORE") ++ phrase " INTO ").TakesOnly before x rest := by
  -- Behind a gap, one text cannot start with both words.
  have hclash : ∀ u m y n, (phrase " IGNORE").Takes before u m →
      (phrase " INTO ").Takes before y n →
      u ++ m ≠ y ++ n := by
    rintro _ m _ n ⟨g, i, rfl, hg, hi⟩ ⟨g', k, rfl, hg', hk⟩ hsplit
    have hi' : spells "IGNORE".toList i := (takes_letters (by decide)).mp hi
    have hparts : (letters "INTO".toList ++ letters [' ']).Takes (g'.getLast?.or before) k n :=
      takes_letters_append.mp hk
    obtain ⟨into, _, rfl, hinto, -⟩ := hparts
    have hinto' : spells "INTO".toList into := (takes_letters (by decide)).mp hinto
    obtain ⟨-, hblank, hstop⟩ := takes_gap.mp hg
    obtain ⟨-, hblank', hstop'⟩ := takes_gap.mp hg'
    rw [List.append_assoc, List.append_assoc] at hsplit
    obtain ⟨-, hwords⟩ := Text.span_inj hblank hblank' hstop hstop' hsplit
    rw [List.append_assoc] at hwords
    exact append_ne_of_apart (by decide) (by decide) (by decide) hi' hinto' hwords
  refine ⟨h, ?_⟩
  rintro _ m hsplit ⟨u', y', rfl, hu', hy'⟩
  obtain ⟨u, y, rfl, hu, hy⟩ := h
  rw [List.append_assoc, List.append_assoc] at hsplit
  rcases hu with hu | rfl <;> rcases hu' with hu' | rfl
  · obtain rfl := (takesOnly_letters hu).only u' _ hsplit hu'
    rw [(takesOnly_letters hy).only y' m (List.append_cancel_left hsplit) hy']
  · exact absurd hsplit (hclash u _ y' m hu hy')
  · exact absurd hsplit.symm (hclash u' _ y rest hu' hy)
  · rw [(takesOnly_letters hy).only y' m hsplit hy']

/-- **What stands before the name** is taken in one way. -/
theorem takesOnly_opening (h : opening.Takes before x rest) : opening.TakesOnly before x rest := by
  have hassoc : ∀ before y m, opening.Takes before y m ↔
      (blanks ++ (anyPhrase ["INSERT", "REPLACE"] ++
        (optional (phrase " IGNORE") ++ phrase " INTO "))).Takes before y m := by
    intro before y m
    rw [opening, takes_append_assoc, takes_append_assoc]
  obtain ⟨lead, _, rfl, hlead, word, into, rfl, hword, hinto⟩ := (hassoc _ _ _).mp h
  have honly := takesOnly_append (takesOnly_run hlead.1 hlead.2)
    (takesOnly_append (takesOnly_anyPhrase (by decide) (by decide) hword) (takesOnly_into hinto))
  exact ⟨h, fun y m hsplit hy => honly.only y m hsplit ((hassoc _ _ _).mp hy)⟩

/-! ## Behind the name -/

/-- What stands behind the name, up to the word `VALUES`. -/
structure Closing where
  mark : Option Char
  space : Text
  /-- The text between the parentheses of the column list, and the blanks behind it. -/
  list : Option (Text × Text)
  word : Text
  mark_quote : ∀ c ∈ mark, isNameQuote c
  space_blank : ∀ c ∈ space, isBlank c
  list_plain : ∀ l ∈ list, ')' ∉ l.1 ∧ ∀ c ∈ l.2, isBlank c
  word_spells : spells "VALUES".toList word

namespace Closing

/-- The column list and the blanks behind it. -/
def listText (closing : Closing) : Text :=
  match closing.list with
  | none => []
  | some l => '(' :: (l.1 ++ ')' :: l.2)

def text (closing : Closing) : Text :=
  closing.mark.toList ++ (closing.space ++ (closing.listText ++ closing.word))

theorem exists_word (closing : Closing) :
    ∃ c word, closing.word = c :: word ∧ isWord c := by
  obtain ⟨hne, hletters⟩ := isWord_of_spells (by decide) closing.word_spells
  obtain ⟨c, word, hword⟩ := List.exists_cons_of_ne_nil hne
  exact ⟨c, word, hword, hletters c (by simp [hword])⟩

/-- A letter is neither a blank nor a mark nor a parenthesis. -/
theorem head_word (closing : Closing) (t : Text) :
    (closing.word ++ t).head?.any isBlank = false ∧
    (closing.word ++ t).head?.any isNameQuote = false ∧
      (closing.word ++ t).head?.any (· = '(') = false := by
  obtain ⟨c, word, hword, hc⟩ := closing.exists_word
  simp only [hword, List.cons_append, List.head?_cons, Option.any_some]
  refine ⟨Text.isBlank_eq_false_of_isWord hc, ?_, ?_⟩
  · rw [← Bool.not_eq_true]
    exact fun hquote => by simp [isWord_of_isNameQuote hquote] at hc
  · rw [decide_eq_false_iff_not]
    rintro rfl
    exact absurd hc (by decide)

/-- The list and the word do not start with a blank or a mark. -/
theorem head_listText (closing : Closing) (t : Text) :
    (closing.listText ++ (closing.word ++ t)).head?.any isBlank = false ∧
      (closing.listText ++ (closing.word ++ t)).head?.any isNameQuote = false := by
  unfold listText
  split
  · exact ⟨(closing.head_word t).1, (closing.head_word t).2.1⟩
  · exact ⟨rfl, rfl⟩

/-- Behind the mark there is no other mark. -/
theorem head_space (closing : Closing) (t : Text) :
    (closing.space ++ (closing.listText ++ (closing.word ++ t))).head?.any isNameQuote = false := by
  cases hspace : closing.space with
  | nil => exact (closing.head_listText t).2
  | cons b space =>
    have hb := closing.space_blank b (by simp [hspace])
    rw [List.cons_append, List.head?_cons, Option.any_some, ← Bool.not_eq_true]
    exact fun hquote => by simp [isBlank_of_isNameQuote hquote] at hb

end Closing

/-- A mark around a name is there or not. -/
theorem takes_nameQuote : nameQuote.Takes before x rest ↔
    ∃ mark : Option Char, (∀ q ∈ mark, isNameQuote q) ∧ x = mark.toList := by
  constructor
  · rintro (⟨q, rfl, hq⟩ | rfl)
    · exact ⟨some q, by simpa using hq, rfl⟩
    · exact ⟨none, by simp, rfl⟩
  · rintro ⟨mark, hmark, rfl⟩
    cases mark with
    | none => exact Or.inr rfl
    | some q => exact Or.inl ⟨q, rfl, hmark q rfl⟩

/-- A list of columns goes from its parenthesis to the next closing one. -/
theorem takes_columnList :
    columnList.Takes before x rest ↔ ∃ l, ')' ∉ l ∧ x = '(' :: (l ++ [')']) := by
  constructor
  · rintro ⟨_, _, rfl, ⟨_, l, rfl, ⟨_, rfl, hopen⟩, hl, -⟩, _, rfl, hclose⟩
    obtain rfl : _ = '(' := by simpa using hopen
    obtain rfl : _ = ')' := by simpa using hclose
    exact ⟨l, fun hmem => by simpa using hl _ hmem, rfl⟩
  · rintro ⟨l, hl, rfl⟩
    refine ⟨'(' :: l, [')'], rfl, ⟨['('], l, rfl, takes_char.mpr rfl, ?_, by simp⟩,
      takes_char.mpr rfl⟩
    intro c hc
    rw [bne_iff_ne]
    rintro rfl
    exact hl hc

theorem not_fits_columnList (h : rest.head?.any (· = '(') = false) :
    ¬ columnList.Fits before rest := by
  rintro ⟨_, m, rfl, hl⟩
  obtain ⟨l, -, rfl⟩ := takes_columnList.mp hl
  simp at h

/-- The word `VALUES` may have blanks before it, and no word goes on behind it. -/
theorem fits_valuesWord : valuesWord.Fits before t ↔ ∃ gap word v, t = gap ++ (word ++ v) ∧
    (∀ c ∈ gap, isBlank c) ∧ spells "VALUES".toList word ∧
    v.head?.any isWord = false := by
  constructor
  · rintro ⟨_, v, rfl, gap, _, rfl, hgap, word, _, rfl, hword, rfl, hedge⟩
    have hspells : spells "VALUES".toList word := (takes_letters (by decide)).mp hword
    exact ⟨gap, word, v, by simp, hgap.1, hspells,
      (takes_word_edge (by decide) hspells).mp ⟨rfl, hedge⟩⟩
  · rintro ⟨gap, word, v, rfl, hgap, hword, hedge⟩
    exact ⟨gap ++ word, v, by simp, gap, word, rfl,
      ⟨hgap, head_append_of_spells (by decide) hword v⟩, word, [], by simp,
      (takes_letters (by decide)).mpr hword, (takes_word_edge (by decide) hword).mpr hedge⟩

/-- **What stands behind the name** is a mark, blanks, a list and the word. -/
theorem takes_closing :
    closing.Takes before x rest ↔ ∃ c : Closing, x = c.text ∧ rest.head?.any isWord = false := by
  constructor
  · rintro ⟨mark, _, rfl, hmark, space, _, rfl, hspace, list, _, rfl, hlist, gap, _, rfl, hgap,
      word, _, rfl, hword, rfl, hedge⟩
    have hspells : spells "VALUES".toList word := (takes_letters (by decide)).mp hword
    have hrest := (takes_word_edge (by decide) hspells).mp ⟨rfl, hedge⟩
    obtain ⟨m, hm, rfl⟩ := takes_nameQuote.mp hmark
    rcases hlist with hlist | rfl
    · obtain ⟨l, hl, rfl⟩ := takes_columnList.mp hlist
      refine ⟨⟨m, space, some (l, gap), word, hm, hspace.1, ?_, hspells⟩, ?_, hrest⟩
      · rintro _ ⟨⟩
        exact ⟨hl, hgap.1⟩
      · simp [Closing.text, Closing.listText]
    · -- Without a list, the blanks before the word all stand before the list.
      obtain rfl : gap = [] := by
        cases gap with
        | nil => rfl
        | cons c gap =>
          have hc : isBlank c := hgap.1 c (by simp)
          have hsolid := hspace.2
          simp [hc] at hsolid
      refine ⟨⟨m, space, none, word, hm, hspace.1, by simp, hspells⟩, ?_, hrest⟩
      simp [Closing.text, Closing.listText]
  · rintro ⟨c, rfl, hrest⟩
    refine ⟨c.mark.toList, _, rfl, takes_nameQuote.mpr ⟨c.mark, c.mark_quote, rfl⟩, c.space, _, rfl,
      ⟨c.space_blank, ?_⟩, ?_⟩
    · rw [List.append_assoc]
      exact (c.head_listText rest).1
    · have hword : ∀ before, (phrase "VALUES" ++ edge).Takes before c.word rest := fun before =>
        ⟨c.word, [], by simp, (takes_letters (by decide)).mpr c.word_spells,
          (takes_word_edge (by decide) c.word_spells).mpr hrest⟩
      have hsolid := (c.head_word rest).1
      unfold Closing.listText
      split
      · exact ⟨[], c.word, rfl, Or.inr rfl, [], c.word, rfl, ⟨by simp, hsolid⟩, hword _⟩
      · next l hl =>
        obtain ⟨hplain, hblank⟩ := c.list_plain l hl
        exact ⟨'(' :: (l.1 ++ [')']), l.2 ++ c.word, by simp,
          Or.inl (takes_columnList.mpr ⟨l.1, hplain, rfl⟩), l.2, c.word, rfl, ⟨hblank, hsolid⟩,
          hword _⟩

/-- A column list is taken up to the first closing parenthesis, and its inside is set aside. -/
theorem head?_ends_columnList {l : Text} {c : Cursor} (hl : ')' ∉ l)
    (hrest : c.rest = '(' :: (l ++ ')' :: t)) :
    (columnList.ends c).head? = some (((c.advance ['(']).setAside 2 l).advance [')']) := by
  have hopened : (c.advance ['(']).rest = l ++ ')' :: t := Cursor.rest_advance hrest
  have hinner : ∀ d ∈ l, (d != ')') := by
    intro d hd
    rw [bne_iff_ne]
    rintro rfl
    exact hl hd
  have hopen : ((char '(').ends c).head? = some (c.advance ['(']) :=
    (takesOnly_one (by simp)).head?_ends rfl hrest
  have hrun : ((capture 2 (run (· != ')'))).ends (c.advance ['('])).head? =
      some ((c.advance ['(']).setAside 2 l) :=
    head?_ends_capture 2 ((takesOnly_run hinner (by simp)).head?_ends rfl hopened)
  have hclose : ((char ')').ends ((c.advance ['(']).setAside 2 l)).head? =
      some (((c.advance ['(']).setAside 2 l).advance [')']) :=
    (takesOnly_one (by simp)).head?_ends rfl (Cursor.rest_setAside 2 hopened)
  exact head?_ends_append (head?_ends_append hopen hrun) hclose

/-- A mark is taken if there is one. -/
theorem head?_ends_nameQuote {mark : Option Char} {c : Cursor}
    (hmark : ∀ q ∈ mark, isNameQuote q) (hrest : c.rest = mark.toList ++ t)
    (ht : t.head?.any isNameQuote = false) :
    (nameQuote.ends c).head? = some (c.advance mark.toList) := by
  cases mark with
  | none =>
    have hstay : c.advance [] = c := by simp [Cursor.advance]
    rw [Option.toList_none, hstay]
    refine head?_ends_optional ?_
    rw [fits_one, hrest, Option.toList_none, List.nil_append, ht]
    exact Bool.false_ne_true
  | some q =>
    exact head?_ends_optional_of_some ((takesOnly_one (hmark q rfl)).head?_ends rfl hrest)

/-- The word behind blanks is taken in one way. -/
theorem head?_ends_word {gap : Text} {e : Cursor} (c : Closing) (hgap : ∀ d ∈ gap, isBlank d)
    (hedge : rest.head?.any isWord = false) (hrest : e.rest = gap ++ (c.word ++ rest)) :
    (valuesWord.ends e).head? = some (e.advance (gap ++ c.word)) := by
  have hletters : ∀ before t, (phrase "VALUES").Takes before c.word t := fun before t =>
    (takes_letters (by decide)).mpr c.word_spells
  have honly : valuesWord.TakesOnly e.before (gap ++ (c.word ++ [])) rest := by
    refine takesOnly_append (takesOnly_run hgap ?_)
      (takesOnly_append (takesOnly_letters (hletters _ _))
      ⟨(takes_word_edge (by decide) c.word_spells).mpr hedge, fun y m _ hy => hy.1⟩)
    rw [List.append_nil]
    exact (c.head_word rest).1
  rw [List.append_nil] at honly
  exact honly.head?_ends (by decide) (by rw [hrest, List.append_assoc])

/-- **The match behind the name** sets aside the list, if there is one. -/
theorem head?_ends_closing (cl : Closing) {c : Cursor} (hedge : rest.head?.any isWord = false)
    (hrest : c.rest = cl.text ++ rest) :
    ∃ d, (closing.ends c).head? = some d ∧ d.taken = c.taken + cl.text.length ∧
      d.captured 1 = c.captured 1 ∧ d.capture? 2 = (cl.list.map Prod.fst).or (c.capture? 2) := by
  have hsplit : c.rest = cl.mark.toList ++ (cl.space ++ (cl.listText ++ (cl.word ++ rest))) := by
    rw [hrest, Closing.text]
    simp only [List.append_assoc]
  have hmark := head?_ends_nameQuote cl.mark_quote hsplit (cl.head_space rest)
  have hmarked := Cursor.rest_advance hsplit
  have hspace : (blanks.ends (c.advance cl.mark.toList)).head? =
      some ((c.advance cl.mark.toList).advance cl.space) :=
    (takesOnly_run cl.space_blank (cl.head_listText rest).1).head?_ends rfl hmarked
  have hspaced := Cursor.rest_advance hmarked
  rw [Closing.listText] at hspaced
  cases hlist : cl.list with
  | none =>
    rw [hlist] at hspaced
    have hskip :
        ((optional columnList).ends ((c.advance cl.mark.toList).advance cl.space)).head? =
        some ((c.advance cl.mark.toList).advance cl.space) := by
      refine head?_ends_optional ?_
      rw [hspaced, List.nil_append]
      exact not_fits_columnList (cl.head_word rest).2.2
    refine ⟨_, head?_ends_append hmark (head?_ends_append hspace (head?_ends_append hskip
      (head?_ends_word cl (List.forall_mem_nil _) hedge hspaced))), ?_, rfl, ?_⟩
    · simp [Cursor.advance, Closing.text, Closing.listText, hlist, Nat.add_assoc]
    · rfl
  | some l =>
    obtain ⟨hplain, hblank⟩ := cl.list_plain l hlist
    rw [hlist, List.cons_append, List.append_assoc, List.cons_append] at hspaced
    have hopened := Cursor.rest_advance (x := ['(']) hspaced
    have hlisted := Cursor.rest_advance (x := [')']) (Cursor.rest_setAside 2 hopened)
    refine ⟨_, head?_ends_append hmark (head?_ends_append hspace (head?_ends_append
      (head?_ends_optional_of_some (head?_ends_columnList hplain hspaced))
      (head?_ends_word cl hblank hedge hlisted))), ?_, ?_, ?_⟩
    · simp [Cursor.advance, Cursor.setAside, Closing.text, Closing.listText, hlist]
      omega
    · simp only [Cursor.captured_advance]
      exact Cursor.captured_setAside_of_ne (by decide) _ _
    · exact Cursor.capture?_setAside 2 hopened

/-! ## The whole header -/

/-- No name that goes on into the text has a closing behind it. -/
def IsLongest (t : Text) : Prop :=
  ∀ (u v : Text) (cl : Closing), t = u ++ (cl.text ++ v) → u ≠ [] → (∀ c ∈ u, isNameChar c) →
    v.head?.any isWord

/-- How a header is read off a line. -/
structure Reading (line : Text) where
  front : Text
  mark : Option Char
  name : Text
  closing : Closing
  rest : Text
  line_eq : line = front ++ (mark.toList ++ (name ++ (closing.text ++ rest)))
  front_takes : opening.Takes none front (mark.toList ++ (name ++ (closing.text ++ rest)))
  mark_quote : ∀ q ∈ mark, isNameQuote q
  name_ne : name ≠ []
  name_chars : ∀ c ∈ name, isNameChar c
  rest_edge : rest.head?.any isWord = false
  longest : IsLongest (closing.text ++ rest)

namespace Reading

variable {line : Text}

/-- The text of the header. -/
def text (r : Reading line) : Text :=
  r.front ++ (r.mark.toList ++ (r.name ++ r.closing.text))

def header (r : Reading line) : InsertHeader :=
  { table := r.name
    columns := r.closing.list.map fun l => (Text.cut ',' l.1).map columnName
    length := r.text.length }

theorem line_eq_text (r : Reading line) : line = r.text ++ r.rest := by
  conv => lhs; rw [r.line_eq]
  simp [text]

/-- The header's text is as long as it says. -/
theorem take_header (r : Reading line) : line.take r.header.length = r.text := by
  have htake : (r.text ++ r.rest).take r.text.length = r.text := List.take_left
  rwa [← r.line_eq_text] at htake

theorem drop_header (r : Reading line) : line.drop r.header.length = r.rest := by
  have hdrop : (r.text ++ r.rest).drop r.text.length = r.rest := List.drop_left
  rwa [← r.line_eq_text] at hdrop

/-- **A header that can be read is read**, with the longest name. -/
theorem parse?_eq (r : Reading line) : parse? line = some r.header := by
  have hopening : (opening.ends (.start none line)).head? =
      some ((Cursor.start none line).advance r.front) :=
    (takesOnly_opening r.front_takes).head?_ends (by decide) r.line_eq
  have hopened : ((Cursor.start none line).advance r.front).rest =
      r.mark.toList ++ (r.name ++ (r.closing.text ++ r.rest)) := Cursor.rest_advance r.line_eq
  have hhead : (r.name ++ (r.closing.text ++ r.rest)).head?.any isNameQuote = false := by
    obtain ⟨c, name, hname⟩ := List.exists_cons_of_ne_nil r.name_ne
    have hc := r.name_chars c (by simp [hname])
    rw [isNameChar, Bool.and_eq_true, Bool.and_eq_true] at hc
    simpa [hname] using hc.1.2
  have hmark := head?_ends_nameQuote r.mark_quote hopened hhead
  have hmarked := Cursor.rest_advance hopened
  obtain ⟨d, hclosing, htaken, hname, hlist⟩ :=
    head?_ends_closing r.closing r.rest_edge (Cursor.rest_setAside 1 hmarked)
  have hlate : ∀ u v, r.closing.text ++ r.rest = u ++ v → u ≠ [] → (∀ c ∈ u, isNameChar c) →
      ¬ InsertHeader.closing.Fits u.getLast? v := by
    rintro u _ hsplit hu hchars ⟨_, m, rfl, htakes⟩
    obtain ⟨cl, rfl, hedge⟩ := takes_closing.mp htakes
    simp [r.longest u m cl hsplit hu hchars] at hedge
  have hmatch : pattern.matchStart line = some d := by
    rw [matchStart, matchAfter, ends_pattern]
    exact head?_ends_append hopening (head?_ends_append hmark
      (head?_ends_greedy 1 r.name_ne r.name_chars hmarked hlate hclosing))
  have hcolumns : d.capture? 2 = r.closing.list.map Prod.fst := hlist.trans Option.or_none
  have hlength : d.taken = r.text.length := by
    rw [htaken]
    simp [Cursor.setAside, Cursor.advance, Cursor.start, text, Nat.add_assoc]
  rw [Cursor.captured_setAside 1 hmarked] at hname
  rw [parse?, hmatch, Option.map_some, hname, hcolumns, hlength, header, Option.map_map]
  rfl

end Reading

/-- Of the names with a closing behind them there is a longest. -/
theorem exists_isLongest (cl : Closing) {v : Text} (hedge : v.head?.any isWord = false) :
    ∃ (u v' : Text) (cl' : Closing), cl.text ++ v = u ++ (cl'.text ++ v') ∧
      (∀ c ∈ u, isNameChar c) ∧ v'.head?.any isWord = false ∧
      IsLongest (cl'.text ++ v') := by
  induction hlen : (cl.text ++ v).length using Nat.strongRecOn generalizing cl v with
  | ind n ih =>
    by_cases hlongest : IsLongest (cl.text ++ v)
    · exact ⟨[], v, cl, rfl, by simp, hedge, hlongest⟩
    · simp only [IsLongest, not_forall] at hlongest
      obtain ⟨u, v', cl', hsplit, hu, hchars, hedge'⟩ := hlongest
      rw [Bool.not_eq_true] at hedge'
      have hshorter : (cl'.text ++ v').length < n := by
        have hpos := List.length_pos_iff.mpr hu
        simp only [← hlen, hsplit, List.length_append]
        omega
      obtain ⟨w, v'', cl'', hsplit', hchars', hedge'', hlongest⟩ := ih _ hshorter cl' hedge' rfl
      refine ⟨u ++ w, v'', cl'', ?_, List.forall_mem_append.mpr ⟨hchars, hchars'⟩, hedge'',
        hlongest⟩
      rw [hsplit, hsplit', List.append_assoc]

/-- **Every header that is parsed is read off the line** in some reading. -/
theorem exists_reading {line : Text} {header : InsertHeader} (h : parse? line = some header) :
    ∃ r : Reading line, r.header = header := by
  obtain ⟨found, hfound, rfl⟩ := Option.map_eq_some_iff.mp h
  rw [matchStart, matchAfter, ends_pattern] at hfound
  obtain ⟨_, hreach, front, _, rfl, hfront, mark, _, rfl, hmark, name, _, rfl, hname, hclose⟩ :=
    reaches_of_mem_ends _ (List.mem_of_head? hfound)
  obtain ⟨mark, hquote, rfl⟩ := takes_nameQuote.mp hmark
  obtain ⟨cl, rfl, hedge⟩ := takes_closing.mp hclose
  have hchars : ∀ c ∈ name, isNameChar c := by
    have hwithin : nameChars.Within (isNameChar ·) := ⟨fun _ hc => hc, fun _ hc => hc⟩
    exact hwithin.of_takes hname
  have hne : name ≠ [] := by
    obtain ⟨_, z, rfl, ⟨c, rfl, -⟩, -⟩ := hname
    simp
  have hline : line = front ++ (mark.toList ++ (name ++ (cl.text ++ found.rest))) := by
    simpa [Cursor.start] using hreach.rest
  obtain ⟨u, rest, cl', hsplit, hmore, hedge', hlongest⟩ := exists_isLongest cl hedge
  let r : Reading line :=
    { front := front
      mark := mark
      name := name ++ u
      closing := cl'
      rest := rest
      line_eq := by rw [hline, hsplit, List.append_assoc]
      front_takes := by
        rw [List.append_assoc, ← hsplit]
        simpa [Cursor.start] using hfront
      mark_quote := hquote
      name_ne := by simp [hne]
      name_chars := List.forall_mem_append.mpr ⟨hchars, hmore⟩
      rest_edge := hedge'
      longest := hlongest }
  have hparse := r.parse?_eq
  rw [h] at hparse
  exact ⟨r, (Option.some.inj hparse).symm⟩

/-! ## Other texts behind a header -/

/-- Behind a character that cannot be in a name, no name goes on. -/
theorem isLongest_of_head (ht : t.head?.any isNameChar = false) : IsLongest t := by
  rintro u v cl rfl hu hchars
  obtain ⟨c, u, rfl⟩ := List.exists_cons_of_ne_nil hu
  simp [hchars c (by simp)] at ht

theorem not_mem_of_isNameChar {u : Text} (hu : ∀ c ∈ u, isNameChar c) : '(' ∉ u := by
  intro hmem
  exact absurd (hu _ hmem) (by decide)

namespace Closing

/-- What stands before a list has no parenthesis. -/
theorem not_mem_front (cl : Closing) : '(' ∉ cl.mark.toList ++ cl.space := by
  rw [List.mem_append, not_or]
  refine ⟨fun hmem => ?_, fun hmem => ?_⟩
  · exact absurd (cl.mark_quote _ (Option.mem_toList.mp hmem)) (by decide)
  · exact absurd (cl.space_blank _ hmem) (by decide)

/-- Without a list, neither has what closes the header. -/
theorem not_mem_text {cl : Closing} (hlist : cl.list = none) : '(' ∉ cl.text := by
  have hfront := cl.not_mem_front
  have hword : '(' ∉ cl.word := fun hmem =>
    absurd ((isWord_of_spells (by decide) cl.word_spells).2 _ hmem) (by decide)
  simp only [text, listText, hlist, List.mem_append, not_or] at hfront ⊢
  exact ⟨hfront.1, hfront.2, by simp, hword⟩

end Closing

/-- **What the inside of the first parentheses is does not matter** for how long a name is, if the
word `VALUES` does not come in behind them. -/
theorem IsLongest.congr {p l l' w w' : Text} (hp : '(' ∉ p) (hl : ')' ∉ l) (hl' : ')' ∉ l')
    (hw : valuesWord.Fits none w' → valuesWord.Fits none w)
    (h : IsLongest (p ++ '(' :: (l ++ ')' :: w))) : IsLongest (p ++ '(' :: (l' ++ ')' :: w')) := by
  intro u v cl hsplit hu hchars
  by_contra hedge
  rw [Bool.not_eq_true] at hedge
  have hu' := not_mem_of_isNameChar hchars
  cases hlist : cl.list with
  | none =>
    have hpiece : '(' ∉ u ++ cl.text := by
      rw [List.mem_append, not_or]
      exact ⟨hu', Closing.not_mem_text hlist⟩
    rw [← List.append_assoc] at hsplit
    obtain ⟨r, rfl, rfl⟩ := Text.exists_append_of_not_mem hpiece hsplit
    have hmore := h u (r ++ '(' :: (l ++ ')' :: w)) cl (by simp) hu hchars
    cases r <;> simp_all
  | some list =>
    have hfront : '(' ∉ u ++ (cl.mark.toList ++ cl.space) := by
      rw [List.mem_append, not_or]
      exact ⟨hu', cl.not_mem_front⟩
    have hparts : p ++ '(' :: (l' ++ ')' :: w') = u ++ (cl.mark.toList ++ cl.space) ++
        '(' :: (list.1 ++ ')' :: (list.2 ++ (cl.word ++ v))) := by
      rw [hsplit]
      simp [Closing.text, Closing.listText, hlist]
    obtain ⟨hplain, hblank⟩ := cl.list_plain list hlist
    obtain ⟨rfl, hinner⟩ := Text.append_cons_inj hp hfront hparts
    obtain ⟨rfl, rfl⟩ := Text.append_cons_inj hl' hplain hinner
    -- With the other inside, the same name is followed by a closing too.
    obtain ⟨gap, word, v', rfl, hgap, hword, hedge'⟩ := fits_valuesWord.mp
      (hw (fits_valuesWord.mpr ⟨_, _, v, rfl, hblank, cl.word_spells, hedge⟩))
    let other : Closing :=
      { cl with
        list := some (l, gap)
        word := word
        list_plain := by
          rintro _ ⟨⟩
          exact ⟨hl, hgap⟩
        word_spells := hword }
    have hmore := h u v' other (by simp [Closing.text, Closing.listText, other]) hu hchars
    simp [hmore] at hedge'

/-- A closing with a list does not begin as a name goes on. -/
theorem Closing.head_of_list {cl : Closing} (hlist : cl.list ≠ none) (t : Text) :
    (cl.text ++ t).head?.any isNameChar = false := by
  obtain ⟨l, hl⟩ := Option.ne_none_iff_exists'.mp hlist
  cases hmark : cl.mark with
  | some q =>
    have hq := cl.mark_quote q hmark
    simp [text, hmark, isNameChar, hq]
  | none =>
    cases hspace : cl.space with
    | cons c space =>
      have hc := cl.space_blank c (by simp [hspace])
      simp [text, hmark, hspace, isNameChar, hc]
    | nil => simp [text, hmark, hspace, listText, hl, isNameChar]

/-- Where a separator comes next, what follows it does not matter. -/
theorem fits_valuesWord_congr {y m m' : Text} {c : Char} (hblank : isBlank c = false)
    (hword : isWord c = false) (h : valuesWord.Fits none (y ++ c :: m)) :
    valuesWord.Fits none (y ++ c :: m') := by
  obtain ⟨gap, word, v, hsplit, hgap, hspells, hedge⟩ := fits_valuesWord.mp h
  have hpiece : c ∉ gap ++ word := by
    rw [List.mem_append, not_or]
    refine ⟨fun hmem => ?_, fun hmem => ?_⟩
    · simp [hgap c hmem] at hblank
    · simp [(isWord_of_spells (by decide) hspells).2 c hmem] at hword
  rw [← List.append_assoc] at hsplit
  obtain ⟨r, rfl, rfl⟩ := Text.exists_append_of_not_mem hpiece hsplit
  refine fits_valuesWord.mpr ⟨gap, word, r ++ c :: m', by simp, hgap, hspells, ?_⟩
  cases r <;> simpa using hedge

/-- **The same header is read** before another text that begins alike, if no name goes on
into it. -/
theorem Reading.parse?_append {line rest' : Text} (r : Reading line)
    (hhead : rest'.head? = r.rest.head?) (hlongest : IsLongest (r.closing.text ++ rest')) :
    parse? (r.text ++ rest') = some r.header := by
  have hfront : (r.mark.toList ++ (r.name ++ (r.closing.text ++ r.rest))).head? =
      (r.mark.toList ++ (r.name ++ (r.closing.text ++ rest'))).head? :=
    head?_append_congr (head?_append_congr (head?_append_congr hhead.symm _) _) _
  let other : Reading (r.text ++ rest') :=
    { r with
      rest := rest'
      line_eq := by simp [Reading.text]
      front_takes := r.front_takes.congr rfl hfront
      rest_edge := by rw [hhead, r.rest_edge]
      longest := hlongest }
  exact other.parse?_eq

/-! ## Other column lists -/

/-- **With a column list** the name is as long as without, whatever follows. -/
theorem Reading.parse?_of_list {line rest' : Text} (r : Reading line) {cl : Closing}
    (hlist : cl.list ≠ none) (hedge : rest'.head?.any isWord = false) :
    parse? (r.front ++ (r.mark.toList ++ (r.name ++ (cl.text ++ rest')))) =
      some { table := r.name
             columns := cl.list.map fun l => (Text.cut ',' l.1).map columnName
             length := (r.front ++ (r.mark.toList ++ (r.name ++ cl.text))).length } := by
  have hfront : (r.mark.toList ++ (r.name ++ (r.closing.text ++ r.rest))).head? =
      (r.mark.toList ++ (r.name ++ (cl.text ++ rest'))).head? := by
    refine head?_append_congr ?_ _
    obtain ⟨c, name, hname⟩ := List.exists_cons_of_ne_nil r.name_ne
    simp [hname]
  let other : Reading (r.front ++ (r.mark.toList ++ (r.name ++ (cl.text ++ rest')))) :=
    { r with
      closing := cl
      rest := rest'
      line_eq := rfl
      front_takes := r.front_takes.congr rfl hfront
      rest_edge := hedge
      longest := isLongest_of_head (Closing.head_of_list hlist _) }
  exact other.parse?_eq

/-- Puts a text into a line, before the character with a given number. -/
def insertAt (n : Nat) (t line : Text) : Text :=
  line.take n ++ (t ++ line.drop n)

/-- Where the word `VALUES` of a header starts. -/
def wordStart (header : InsertHeader) : Nat :=
  header.length - "VALUES".length

theorem Closing.length_word (cl : Closing) : cl.word.length = "VALUES".length :=
  length_eq_of_spells cl.word_spells

theorem insertAt_append {n : Nat} {line : Text} (hn : n ≤ line.length) (t rest : Text) :
    insertAt n t (line ++ rest) = insertAt n t line ++ rest := by
  rw [insertAt, insertAt, List.take_append_of_le_length hn, List.drop_append_of_le_length hn]
  simp

theorem length_insertAt (n : Nat) (t line : Text) :
    (insertAt n t line).length = line.length + t.length := by
  simp only [insertAt, List.length_append, List.length_take, List.length_drop]
  omega

/-- What a header has before the word `VALUES`. -/
def Reading.beforeWord {line : Text} (r : Reading line) : Text :=
  r.front ++ (r.mark.toList ++ (r.name ++ (r.closing.mark.toList ++
    (r.closing.space ++ r.closing.listText))))

/-- The header's text ends in the word `VALUES`. -/
theorem Reading.text_eq_word {line : Text} (r : Reading line) :
    r.text = r.beforeWord ++ r.closing.word := by
  simp [text, beforeWord, Closing.text]

theorem Reading.wordStart_header {line : Text} (r : Reading line) :
    wordStart r.header = r.beforeWord.length := by
  simp [wordStart, header, r.text_eq_word, r.closing.length_word]

theorem Reading.insertAt_text {line : Text} (r : Reading line) (t : Text) :
    insertAt (wordStart r.header) t r.text = r.beforeWord ++ (t ++ r.closing.word) := by
  rw [insertAt, r.wordStart_header, r.text_eq_word, List.take_left, List.drop_left]

theorem wordStart_le (header : InsertHeader) : wordStart header ≤ header.length :=
  Nat.sub_le _ _

/-- **A list that is put in** before the word `VALUES` is read as the list of the header. -/
theorem parse?_insertAt {line list space gap : Text} {header : InsertHeader}
    (h : parse? line = some header) (hnone : header.columns = none) (hlist : ')' ∉ list)
    (hspace : ∀ c ∈ space, isBlank c) (hgap : ∀ c ∈ gap, isBlank c) :
    parse? (insertAt (wordStart header) (space ++ '(' :: (list ++ ')' :: gap)) line) =
      some { table := header.table
             columns := some ((Text.cut ',' list).map columnName)
             length := header.length + (space ++ '(' :: (list ++ ')' :: gap)).length } := by
  obtain ⟨r, rfl⟩ := exists_reading h
  have hclosing : r.closing.list = none := by simpa [Reading.header] using hnone
  let cl : Closing :=
    { r.closing with
      space := r.closing.space ++ space
      list := some (list, gap)
      space_blank := List.forall_mem_append.mpr ⟨r.closing.space_blank, hspace⟩
      list_plain := by
        rintro _ ⟨⟩
        exact ⟨hlist, hgap⟩ }
  have hlisted : cl.list ≠ none := by simp [cl]
  have htext : insertAt (wordStart r.header) (space ++ '(' :: (list ++ ')' :: gap)) r.text =
      r.front ++ (r.mark.toList ++ (r.name ++ cl.text)) := by
    rw [r.insertAt_text]
    simp [Reading.beforeWord, cl, Closing.text, Closing.listText, hclosing]
  have hline : insertAt (wordStart r.header) (space ++ '(' :: (list ++ ')' :: gap))
      (r.text ++ r.rest) = r.front ++ (r.mark.toList ++ (r.name ++ (cl.text ++ r.rest))) := by
    rw [insertAt_append (wordStart_le r.header), htext]
    simp only [List.append_assoc]
  rw [← r.line_eq_text] at hline
  rw [hline, r.parse?_of_list hlisted r.rest_edge, ← htext, length_insertAt]
  rfl

/-- The first parenthesis of a header is that of its list. -/
theorem Reading.not_mem_front {line : Text} (r : Reading line) :
    '(' ∉ r.front ++ (r.mark.toList ++ (r.name ++ (r.closing.mark.toList ++ r.closing.space))) := by
  have hopening : opening.Within (· ∉ ['(']) := within_of_uses (by decide)
  simp only [List.mem_append, not_or]
  refine ⟨fun hmem => hopening.of_takes r.front_takes _ hmem (by simp), fun hmem => ?_,
    not_mem_of_isNameChar r.name_chars, by simpa using r.closing.not_mem_front⟩
  exact absurd (r.mark_quote _ (Option.mem_toList.mp hmem)) (by decide)

/-- **A list in place of a list** is read as the list of the header. -/
theorem parse?_relist {front list back list' rest' : Text} {header : InsertHeader}
    (h : parse? (front ++ '(' :: (list ++ ')' :: back)) = some header)
    (hcolumns : header.columns ≠ none)
    (hlength : header.length = (front ++ '(' :: (list ++ ')' :: back)).length)
    (hfront : '(' ∉ front) (hlist : ')' ∉ list) (hlist' : ')' ∉ list')
    (hedge : rest'.head?.any isWord = false) :
    parse? (front ++ '(' :: (list' ++ ')' :: (back ++ rest'))) =
      some { table := header.table
             columns := some ((Text.cut ',' list').map columnName)
             length := (front ++ '(' :: (list' ++ ')' :: back)).length } := by
  generalize hline : front ++ '(' :: (list ++ ')' :: back) = line at h hlength
  obtain ⟨r, rfl⟩ := exists_reading h
  obtain ⟨l, hl⟩ : ∃ l, r.closing.list = some l := by
    refine Option.ne_none_iff_exists'.mp fun hnone => hcolumns ?_
    simp [Reading.header, hnone]
  have hrest : r.rest = [] := by
    have hlen := congrArg List.length r.line_eq_text
    rw [← hlength, List.length_append] at hlen
    have htext : r.header.length = r.text.length := rfl
    exact List.length_eq_zero_iff.mp (by omega)
  have hsplit : front ++ '(' :: (list ++ ')' :: back) =
      r.front ++ (r.mark.toList ++ (r.name ++ (r.closing.mark.toList ++ r.closing.space))) ++
        '(' :: (l.1 ++ ')' :: (l.2 ++ r.closing.word)) := by
    refine hline.trans (r.line_eq.trans ?_)
    simp [hrest, Closing.text, Closing.listText, hl]
  obtain ⟨hplain, hblank⟩ := r.closing.list_plain l hl
  obtain ⟨rfl, hinner⟩ := Text.append_cons_inj hfront r.not_mem_front hsplit
  obtain ⟨-, rfl⟩ := Text.append_cons_inj hlist hplain hinner
  let cl : Closing :=
    { r.closing with
      list := some (list', l.2)
      list_plain := by
        rintro _ ⟨⟩
        exact ⟨hlist', hblank⟩ }
  have hlisted : cl.list ≠ none := by simp [cl]
  have hparse := r.parse?_of_list hlisted hedge
  simpa [cl, Closing.text, Closing.listText, Reading.header] using hparse

end DumpBridge.Line.InsertHeader
