import DumpBridge.Proofs.Line.HeaderText
import DumpBridge.Proofs.Line.IntegerTypes
import DumpBridge.Proofs.Rows.NestedValues

/-!
# The columns of a key

A `KeyClause` is the text of a primary or unique key: the words before its list of
columns, the columns, each with the length of a prefix or without one, and whatever
follows the list.  Written plainly, a unique key has no name, and no column a length.
`plainKeys_text` says that this is what `plainKeys` makes of the clause.

The two patterns that look for the list take the words before it in one way.  The
parentheses of the lengths match each other, so the list ends where it should, and
inside the list every length, and nothing else, is a match (`shortens_columns`).
-/

namespace DumpBridge.Text.Pattern

variable {a : Pattern} {c e : Cursor} {before : Option Char} {x t rest : Text}

/-- Blanks and a parenthesis are taken. -/
theorem head?_ends_paren {space : Text} (ha : (a.ends c).head? = some (e.advance x))
    (hspace : ∀ c ∈ space, isBlank c) (hrest : e.rest = x ++ (space ++ '(' :: t)) :
    ((a ++ blanks ++ char '(').ends c).head? = some (e.advance (x ++ space ++ ['('])) := by
  have hblanks := head?_ends_takesOnly ha hrest (fun _ => takesOnly_run hspace rfl) rfl
  have hnext : e.rest = x ++ space ++ (['('] ++ t) := by
    rw [hrest, List.append_assoc, List.singleton_append]
  exact head?_ends_takesOnly hblanks hnext (fun _ => takesOnly_one (by decide)) rfl

/-- A text that spells a word does not begin with a phrase that has a word apart from it first. -/
theorem not_fits_phrase_of_apart {word : Text} (other more : Text) (hword : isKeyword word)
    (hother : isKeyword other) (hapart : apart word other) (hx : spells word x) :
    ¬ (letters (other ++ ' ' :: more) ++ a).Fits before (x ++ rest) := by
  rw [fits_phrase_split (not_mem_of_isKeyword hother)]
  exact not_fits_of_apart hword hother hapart hx

end DumpBridge.Text.Pattern

namespace DumpBridge.Line

open Text (Pattern Cursor isBlank isWord)
open Text.Pattern
open ColumnType (Width)
open Literal (Balanced Lexeme lexemes isQuote isQuote_eq_false)
open Rows (IsLevel)

/-! ## The text of a key -/

/-- A word in any case, and the blanks behind it. -/
structure WordGap (word : String) where
  name : Text
  space : Text
  spells_name : spells word.toList name
  space_ne : space ≠ []
  space_blank : ∀ c ∈ space, isBlank c

def WordGap.text {word : String} (gap : WordGap word) : Text :=
  gap.name ++ gap.space

/-- The name of a key, and the blanks before it. -/
structure SpacedName where
  space : Text
  name : Text
  space_ne : space ≠ []
  space_blank : ∀ c ∈ space, isBlank c
  name_ne : name ≠ []
  name_word : ∀ c ∈ name, isWord c

def SpacedName.text (name : SpacedName) : Text :=
  name.space ++ name.name

/-- `UNIQUE KEY` or `UNIQUE INDEX`, with or without a name. -/
structure UniqueHead where
  unique : WordGap "UNIQUE"
  key : Text
  name : Option SpacedName
  space : Text
  key_spells : spells "KEY".toList key ∨ spells "INDEX".toList key
  space_blank : ∀ c ∈ space, isBlank c

/-- `PRIMARY KEY`. -/
structure PrimaryHead where
  primary : WordGap "PRIMARY"
  key : Text
  space : Text
  key_spells : spells "KEY".toList key
  space_blank : ∀ c ∈ space, isBlank c

/-- The words before the list of columns. -/
inductive KeyHead
  | unique (head : UniqueHead)
  | primary (head : PrimaryHead)

/-- A column of a key: its name, and the length of its prefix, if there is one. -/
structure KeyColumn where
  lead : Text
  name : Text
  length : Option Width
  trail : Text
  lead_blank : ∀ c ∈ lead, isBlank c
  name_ne : name ≠ []
  name_word : ∀ c ∈ name, isWord c
  trail_blank : ∀ c ∈ trail, isBlank c

/-- A key with its columns, and what follows them. -/
structure KeyClause where
  indent : Text
  add : Option (WordGap "ADD")
  head : KeyHead
  columns : List KeyColumn
  tail : Text
  indent_blank : ∀ c ∈ indent, isBlank c

def UniqueHead.text (head : UniqueHead) : Text :=
  head.unique.text ++ (head.key ++ (head.name.elim [] SpacedName.text ++ head.space))

def PrimaryHead.text (head : PrimaryHead) : Text :=
  head.primary.text ++ (head.key ++ head.space)

def KeyHead.text : KeyHead → Text
  | unique head => head.text
  | primary head => head.text

/-- The words before the list, without a name. -/
def KeyHead.plain : KeyHead → Text
  | unique _ => "UNIQUE ".toList
  | primary head => head.text

def KeyColumn.text (column : KeyColumn) : Text :=
  column.lead ++ (column.name ++ (column.length.elim [] Width.text ++ column.trail))

/-- The column without a length. -/
def KeyColumn.plain (column : KeyColumn) : Text :=
  column.lead ++ (column.name ++ column.trail)

/-- What stands before the first word of a key, with the word `ADD`. -/
def KeyClause.front (clause : KeyClause) : Text :=
  clause.indent ++ clause.add.elim [] WordGap.text

def KeyClause.text (clause : KeyClause) : Text :=
  clause.front ++ (clause.head.text ++
    '(' :: (Text.join [','] (clause.columns.map KeyColumn.text) ++ ')' :: clause.tail))

/-- The key without its name and without the lengths of its columns. -/
def KeyClause.plainText (clause : KeyClause) : Text :=
  clause.front ++ (clause.head.plain ++
    '(' :: (Text.join [','] (clause.columns.map KeyColumn.plain) ++ ')' :: clause.tail))

variable {before : Option Char} {x t rest : Text}

/-! ## The list of columns -/

/-- A length stands behind a character of a word, and begins with a parenthesis. -/
theorem paren_of_fits_prefixLength (h : prefixLength.Fits before t) :
    ∃ c m, t = c :: m ∧ isWord c ∧ (m.dropWhile isBlank).head? = some '(' := by
  obtain ⟨y, m, rfl, hy, hm⟩ := fits_append.mp (fits_append_assoc.mp h)
  obtain ⟨c, rfl, hc⟩ := hy
  obtain ⟨space, m, rfl, ⟨hspace, -⟩, hm⟩ := fits_append.mp hm
  have hparen : m.head? = some '(' := head?_of_fits_char rfl hm
  refine ⟨c, space ++ m, rfl, hc, ?_⟩
  rw [Text.dropWhile_blank_append hspace]
  obtain ⟨m, rfl⟩ := List.head?_eq_some_iff.mp hparen
  rfl

theorem head?_dropWhile_ne {c : Char} (hblank : isBlank c = false) (hc : c ≠ '(') :
    ((c :: t).dropWhile isBlank).head? ≠ some '(' := by
  rw [List.dropWhile_cons_of_neg (by simp [hblank]), List.head?_cons]
  exact fun heq => hc (Option.some.inj heq)

/-- Without its lengths `t` is `s`, whatever stands in front of it. -/
def Shortens (t s : Text) : Prop :=
  ∀ before, prefixLength.replaceFrom (·.captured 1) before 0 t = s

variable {s : Text}

theorem Shortens.passing (hx : ∀ before, prefixLength.Passes before x t) (h : Shortens t s) :
    Shortens (x ++ t) (x ++ s) := by
  intro before
  rw [replaceFrom_of_passes (hx before), h]

theorem Shortens.blanks (hx : ∀ c ∈ x, isBlank c) (h : Shortens t s) :
    Shortens (x ++ t) (x ++ s) := by
  refine h.passing fun before => passes_of_head hx fun before t hfits => ?_
  obtain ⟨c, m, rfl, hc, -⟩ := paren_of_fits_prefixLength hfits
  simpa using Text.isBlank_eq_false_of_isWord hc

/-- A character that is not a word's is no column. -/
theorem Shortens.cons {c : Char} (hc : isWord c = false) (h : Shortens t s) :
    Shortens (c :: t) (c :: s) := by
  refine h.passing (x := [c]) fun before => ⟨fun hfits => ?_, trivial⟩
  obtain ⟨d, m, heq, hd, -⟩ := paren_of_fits_prefixLength hfits
  obtain ⟨rfl, -⟩ := List.cons.inj heq
  rw [hc] at hd
  exact absurd hd (by simp)

/-- A character that no parenthesis follows stays. -/
theorem Shortens.cons_of_ne {c : Char} (ht : (t.dropWhile isBlank).head? ≠ some '(')
    (h : Shortens t s) : Shortens (c :: t) (c :: s) := by
  refine h.passing (x := [c]) fun before => ⟨fun hfits => ?_, trivial⟩
  obtain ⟨_, m, heq, -, hparen⟩ := paren_of_fits_prefixLength hfits
  obtain ⟨-, rfl⟩ := List.cons.inj heq
  exact ht hparen

/-- The characters of a name before its last have no length behind them. -/
theorem Shortens.name {d : Char} (hx : ∀ c ∈ x, isWord c) (hd : isWord d)
    (h : Shortens (d :: t) s) : Shortens (x ++ d :: t) (x ++ s) := by
  have hword : ∀ c m, isWord c → ((c :: m).dropWhile isBlank).head? ≠ some '(' := by
    intro c m hc
    refine head?_dropWhile_ne (Text.isBlank_eq_false_of_isWord hc) fun heq => ?_
    rw [heq] at hc
    exact absurd hc (by decide)
  induction x with
  | nil => exact h
  | cons c x ih =>
    obtain ⟨-, hx⟩ := List.forall_mem_cons.mp hx
    refine (ih hx).cons_of_ne ?_
    cases x with
    | nil => exact hword d t hd
    | cons c' x => exact hword c' _ (hx c' List.mem_cons_self)

/-- A length gives way to the character before it. -/
theorem Shortens.length {d : Char} (hd : isWord d) (width : Width) (h : Shortens t s) :
    Shortens (d :: (width.text ++ t)) (d :: s) := by
  intro before
  have hstart : (Cursor.start before (d :: (width.text ++ t))).rest = [d] ++ (width.text ++ t) :=
    rfl
  have hone := (takesOnly_one hd).head?_ends rfl hstart
  have hwidth := (ColumnType.takesOnly_width width).head?_ends rfl (Cursor.rest_setAside 1 hstart)
  have hmatch := head?_ends_append (head?_ends_capture 1 hone) hwidth
  rw [← ends_append_assoc] at hmatch
  have htaken : (((Cursor.start before (d :: (width.text ++ t))).setAside 1 [d]).advance
      width.text).taken = (d :: width.text).length := by
    simp [Cursor.advance, Cursor.setAside, Cursor.start, Nat.add_comm]
  have hreplace : prefixLength.replaceFrom (·.captured 1) before 0 (d :: width.text ++ t) = _ :=
    replaceFrom_match hmatch htaken (List.cons_ne_nil _ _)
  rw [← List.cons_append, hreplace, Cursor.captured_advance, Cursor.captured_setAside 1 hstart, h]
  rfl

/-- **One column** loses its length and nothing else. -/
theorem Shortens.column (column : KeyColumn) (ht : (t.dropWhile isBlank).head? ≠ some '(')
    (h : Shortens t s) : Shortens (column.text ++ t) (column.plain ++ s) := by
  obtain ⟨name, d, hname⟩ : ∃ name d, column.name = name ++ [d] :=
    ⟨_, _, (List.dropLast_append_getLast column.name_ne).symm⟩
  have hword := column.name_word
  rw [hname] at hword
  obtain ⟨hinit, hends⟩ := List.forall_mem_append.mp hword
  have hd : isWord d := hends d List.mem_cons_self
  have hlast : Shortens (d :: (column.length.elim [] Width.text ++ (column.trail ++ t)))
      (d :: (column.trail ++ s)) := by
    have htrail := h.blanks column.trail_blank
    cases column.length with
    | none =>
      refine htrail.cons_of_ne ?_
      rwa [Text.dropWhile_blank_append column.trail_blank]
    | some width => exact htrail.length hd width
  have hall := (hlast.name hinit hd).blanks column.lead_blank
  simpa [KeyColumn.text, KeyColumn.plain, hname] using hall

/-- **The columns** lose their lengths. -/
theorem shortens_columns (columns : List KeyColumn) :
    Shortens (Text.join [','] (columns.map KeyColumn.text) ++ [')'])
      (Text.join [','] (columns.map KeyColumn.plain) ++ [')']) := by
  have hclose : Shortens [')'] [')'] := Shortens.cons (by decide) fun _ => rfl
  induction columns with
  | nil => exact hclose
  | cons column columns ih =>
    cases columns with
    | nil => exact hclose.column column (by decide)
    | cons next columns =>
      have hcomma := Shortens.cons (c := ',') (by decide) ih
      simpa [Text.join] using hcomma.column column (head?_dropWhile_ne (by decide) (by decide))

/-! ## The parentheses of the list -/

/-- Parentheses around lexemes whose parentheses match each other. -/
theorem isLevel_parens {ls : List Lexeme} (h : IsLevel ls) :
    IsLevel (.code '(' :: (ls ++ [Lexeme.code ')'])) := by
  have hlevel := h.level
  simp only [Literal.opened, Literal.closed] at hlevel
  refine ⟨fun p hp => ?_, ?_⟩
  · rcases List.prefix_cons_iff.mp hp with rfl | ⟨p, rfl, hinner⟩
    · exact Nat.zero_le _
    rcases List.prefix_concat_iff.mp hinner with rfl | hp
    · simp [Literal.opened, Literal.closed, hlevel]
    · have hbelow := h.never_below p hp
      simp only [Literal.opened, Literal.closed, List.count_cons_self] at hbelow ⊢
      rw [List.count_cons_of_ne (by simp)]
      omega
  · simp [Literal.opened, Literal.closed, hlevel]

/-- Text outside literals, with parentheses that match each other. -/
structure LevelCode (t : Text) : Prop where
  code : ∀ c ∈ t, isQuote c = false
  level : IsLevel (t.map Lexeme.code)

theorem LevelCode.append (hx : LevelCode x) (ht : LevelCode t) : LevelCode (x ++ t) := by
  refine ⟨List.forall_mem_append.mpr ⟨hx.code, ht.code⟩, ?_⟩
  rw [List.map_append]
  exact hx.level.append ht.level

theorem LevelCode.parens (hx : LevelCode x) : LevelCode ('(' :: (x ++ [')'])) := by
  refine ⟨List.forall_mem_cons.mpr ⟨by decide, List.forall_mem_append.mpr ⟨hx.code, by decide⟩⟩, ?_⟩
  rw [List.map_cons, List.map_append]
  exact isLevel_parens hx.level

/-- Blanks and characters of words have no parentheses. -/
theorem levelCode_of_chars (hx : ∀ c ∈ x, isBlank c ∨ isWord c) : LevelCode x := by
  have hcount : ∀ c, isBlank c = false → isWord c = false →
      (x.map Lexeme.code).count (.code c) = 0 := by
    intro c hblank hword
    refine List.count_eq_zero.mpr fun hmem => ?_
    obtain ⟨d, hd, heq⟩ := List.mem_map.mp hmem
    obtain rfl := Lexeme.code.inj heq
    simpa [hblank, hword] using hx d hd
  have hclose := hcount ')' (by decide) (by decide)
  refine ⟨fun c hc => isQuote_eq_false (hx c hc), fun p hp => ?_,
    (hcount '(' (by decide) (by decide)).trans hclose.symm⟩
  have hle : Literal.closed p ≤ (x.map Lexeme.code).count (.code ')') := hp.sublist.count_le _
  omega

/-- Level code is balanced. -/
theorem LevelCode.balanced (h : LevelCode t) : Balanced .standard t := by
  have hcode : lexemes .standard (t ++ []) = t.map Lexeme.code ++ [] :=
    Literal.lexemes_code_append h.code []
  rw [List.append_nil, List.append_nil] at hcode
  refine ⟨?_, ?_, ?_⟩
  · rw [hcode, Literal.markAfter_code]
  · rw [hcode]
    exact h.level.never_below
  · rw [hcode, h.level.level]

/-- A width is level code. -/
theorem levelCode_width (width : Width) : LevelCode width.text := by
  have hblank : ∀ x : Text, (∀ c ∈ x, isBlank c) → LevelCode x :=
    fun x hx => levelCode_of_chars fun c hc => Or.inl (hx c hc)
  have hnumber : LevelCode width.number := by
    refine levelCode_of_chars fun c hc => Or.inr (Text.isWord_of_isKeyChar ?_)
    simp [Text.isKeyChar, width.number_digit c hc]
  have hinside := (hblank _ width.inner_blank).append (hnumber.append (hblank _ width.outer_blank))
  simpa [Width.text] using (hblank _ width.lead_blank).append hinside.parens

/-- The parentheses of a column match each other. -/
theorem levelCode_column (column : KeyColumn) : LevelCode column.text := by
  have hlength : LevelCode (column.length.elim [] Width.text) := by
    cases column.length with
    | none => exact levelCode_of_chars (by simp)
    | some width => exact levelCode_width width
  refine (levelCode_of_chars fun c hc => Or.inl (column.lead_blank c hc)).append ?_
  refine (levelCode_of_chars fun c hc => Or.inr (column.name_word c hc)).append ?_
  exact hlength.append (levelCode_of_chars fun c hc => Or.inl (column.trail_blank c hc))

/-- **The list** is closed by the parenthesis behind its last column, and all its columns lose
their lengths. -/
theorem dropPrefixLengths_eq {stop : Cursor} (columns : List KeyColumn) (x tail : Text)
    (hstop : keyList.matchStart
      (x ++ '(' :: (Text.join [','] (columns.map KeyColumn.text) ++ ')' :: tail)) = some stop)
    (htaken : stop.taken = x.length + 1) :
    dropPrefixLengths (x ++ '(' :: (Text.join [','] (columns.map KeyColumn.text) ++ ')' :: tail)) =
      x ++ '(' :: (Text.join [','] (columns.map KeyColumn.plain) ++ ')' :: tail) := by
  have hbalanced : Balanced .standard (Text.join [','] (columns.map KeyColumn.text)) :=
    Rows.balanced_join (List.forall_mem_map.mpr fun column _ => (levelCode_column column).balanced)
  have hshort := Shortens.cons (c := '(') (by decide) (shortens_columns columns)
  have hlist := hshort none
  generalize Text.join [','] (columns.map KeyColumn.text) = inner at hstop hbalanced hlist ⊢
  have hcut : '(' :: (inner ++ ')' :: tail) = '(' :: (inner ++ [')']) ++ tail := by simp
  have hlength : ('(' :: (inner ++ [')'])).length = inner.length + 1 + 1 := by simp
  have htail : (x ++ '(' :: (inner ++ ')' :: tail)).drop (x.length + (inner.length + 1) + 1) =
      tail := by
    rw [Nat.add_assoc, ← List.drop_drop, List.drop_left, hcut, List.drop_left' hlength]
  unfold dropPrefixLengths
  rw [hstop]
  simp only [htaken, Nat.add_sub_cancel, List.drop_left, List.take_left,
    Literal.closing?_parenthesised hbalanced]
  rw [htail, hcut, List.take_left' hlength, replaceWith, hlist]
  simp

/-! ## The words before the list -/

variable {word name : Text} {c : Cursor}

/-- A word and the blanks behind it have one way to match. -/
theorem WordGap.takesOnly {word : String} (gap : WordGap word)
    (hword : isKeyword word.toList) (ht : t.head?.any isBlank = false) :
    (letters (word.toList ++ [' '])).TakesOnly before gap.text t := by
  refine takesOnly_letters (takes_letters_append.mpr ⟨gap.name, gap.space, rfl, ?_, ?_⟩)
  · exact (takes_letters (not_mem_of_isKeyword hword)).mpr gap.spells_name
  · refine ⟨gap.space, [], by simp, ?_, rfl⟩
    exact takes_gap.mpr ⟨gap.space_ne, gap.space_blank, by simpa using ht⟩

/-- **What stands before the first word** of a key is taken, with the word `ADD`. -/
theorem head?_ends_front (clause : KeyClause) (hword : isKeyword word)
    (hapart : apart word "ADD".toList) (hname : spells word name)
    (hrest : c.rest = clause.front ++ (name ++ t)) :
    ((blanks ++ optional (phrase "ADD ")).ends c).head? = some (c.advance clause.front) := by
  have hsolid := head_append_of_spells hword hname t
  rw [KeyClause.front, List.append_assoc] at hrest
  rw [KeyClause.front]
  refine head?_ends_then ?_ ?_
  · refine (takesOnly_run clause.indent_blank ?_).head?_ends rfl hrest
    cases clause.add with
    | none => exact hsolid
    | some add =>
      rw [Option.elim_some, WordGap.text, List.append_assoc]
      exact head_append_of_spells (by decide) add.spells_name _
  · have hnext := Cursor.rest_advance hrest
    cases hadd : clause.add with
    | none =>
      rw [hadd, Option.elim_none, List.nil_append] at hnext
      have hnot : ¬ (letters ("ADD".toList ++ ' ' :: [])).Fits (c.advance clause.indent).before
          (c.advance clause.indent).rest := by
        rw [hnext, fits_letters_pair]
        exact not_fits_of_apart hword (by decide) hapart hname
      rw [Option.elim_none, Cursor.advance_nil]
      exact head?_ends_optional hnot
    | some add =>
      rw [hadd] at hnext
      exact head?_ends_optional_of_some ((add.takesOnly (by decide) hsolid).head?_ends
        (isPlain_letters _) hnext)

/-- The word `UNIQUE` before a list of columns. -/
theorem head?_ends_unique (hname : spells "UNIQUE".toList name) (hrest : c.rest = name ++ t) :
    ((anyPhrase ["PRIMARY KEY", "UNIQUE"]).ends c).head? = some (c.advance name) := by
  have hnot : ¬ (letters ("PRIMARY".toList ++ ' ' :: "KEY".toList)).Fits c.before c.rest := by
    rw [hrest, fits_letters_pair]
    exact not_fits_of_apart (by decide) (by decide) (by decide) hname
  have htakes : (letters "UNIQUE".toList).Takes c.before name t :=
    (takes_letters (by decide)).mpr hname
  exact head?_ends_alt_right hnot ((takesOnly_letters htakes).head?_ends (isPlain_letters _) hrest)

/-- The words `PRIMARY KEY` before a list of columns. -/
theorem head?_ends_primary (head : PrimaryHead)
    (hrest : c.rest = head.primary.text ++ head.key ++ t) :
    ((anyPhrase ["PRIMARY KEY", "UNIQUE"]).ends c).head? =
      some (c.advance (head.primary.text ++ head.key)) := by
  have htakes : (letters (("PRIMARY".toList ++ [' ']) ++ "KEY".toList)).Takes c.before
      (head.primary.text ++ head.key) t := by
    refine takes_letters_append.mpr ⟨_, _, rfl, ?_, (takes_letters (by decide)).mpr head.key_spells⟩
    exact (head.primary.takesOnly (by decide)
      (head_append_of_spells (by decide) head.key_spells t)).takes
  exact head?_ends_alt_left ((takesOnly_letters htakes).head?_ends (isPlain_letters _) hrest)

/-- **The start of a list** is found behind its words. -/
theorem matchStart_keyList (clause : KeyClause) {words space more : Text}
    (hword : isKeyword word) (hapart : apart word "ADD".toList)
    (hname : spells word name) (hwords : words = name ++ more)
    (hspace : ∀ c ∈ space, isBlank c) (htakes : ∀ c : Cursor, ∀ t, c.rest = words ++ t →
      ((anyPhrase ["PRIMARY KEY", "UNIQUE"]).ends c).head? = some (c.advance words)) (t : Text) :
    ∃ stop, keyList.matchStart (clause.front ++ (words ++ space) ++ '(' :: t) = some stop ∧
      stop.taken = (clause.front ++ (words ++ space)).length + 1 := by
  generalize hstart : Cursor.start none (clause.front ++ (words ++ space) ++ '(' :: t) = start
  have hrest : start.rest = clause.front ++ (words ++ (space ++ '(' :: t)) := by
    simp [← hstart, Cursor.start]
  have hfront := head?_ends_front (t := more ++ (space ++ '(' :: t)) clause hword hapart hname
    (by rw [hrest, hwords, List.append_assoc])
  have hlist := head?_ends_then hfront (htakes _ _ (Cursor.rest_advance hrest))
  have hparen := head?_ends_paren hlist hspace (by rw [hrest, List.append_assoc])
  refine ⟨_, by rw [matchStart, matchAfter, hstart]; exact hparen, ?_⟩
  simp only [← hstart, Cursor.advance, Cursor.start, List.length_append, List.length_singleton]
  omega

/-- The name of a key is taken, if there is one. -/
theorem head?_ends_name (head : UniqueHead)
    (hrest : c.rest = head.name.elim [] SpacedName.text ++ (head.space ++ '(' :: t)) :
    ((optional (gap ++ wordChars)).ends c).head? =
      some (c.advance (head.name.elim [] SpacedName.text)) := by
  have hparen : (head.space ++ '(' :: t).head?.any isWord = false := by
    cases hspace : head.space with
    | nil => rfl
    | cons d space =>
      simpa using Text.isWord_eq_false_of_isBlank (head.space_blank d (by simp [hspace]))
  cases hname : head.name with
  | none =>
    rw [hname, Option.elim_none, List.nil_append] at hrest
    rw [Option.elim_none, Cursor.advance_nil]
    refine head?_ends_optional fun hfits => ?_
    rw [hrest] at hfits
    obtain ⟨_, hword⟩ := exists_fits_of_fits_gap head.space_blank rfl hfits
    exact absurd (fits_one.mp (fits_first hword)) (by simp; decide)
  | some name =>
    rw [hname] at hrest
    have hsolid := head_append_of_isWord name.name_ne name.name_word (head.space ++ '(' :: t)
    refine head?_ends_optional_of_some (TakesOnly.head?_ends ?_ rfl hrest)
    exact takesOnly_append (takesOnly_someOf name.space_ne name.space_blank hsolid)
      (takesOnly_someOf name.name_ne name.name_word hparen)

theorem UniqueHead.takes_key (head : UniqueHead) :
    (anyPhrase ["KEY", "INDEX"]).Takes before head.key t := by
  obtain hkey | hindex := head.key_spells
  · exact takes_anyOf.mpr ⟨phrase "KEY", by simp, (takes_letters (by decide)).mpr hkey⟩
  · exact takes_anyOf.mpr ⟨phrase "INDEX", by simp, (takes_letters (by decide)).mpr hindex⟩

/-- **The start of a unique key** is found; what stands before the word `UNIQUE` is set aside. -/
theorem matchStart_uniqueKey (clause : KeyClause) (head : UniqueHead) (t : Text) :
    ∃ stop, uniqueKey.matchStart (clause.front ++ (head.text ++ '(' :: t)) = some stop ∧
      stop.captured 1 = clause.front ∧ stop.rest = t := by
  generalize hstart : Cursor.start none (clause.front ++ (head.text ++ '(' :: t)) = start
  have hrest : start.rest = clause.front ++ (head.text ++ '(' :: t) := by
    rw [← hstart]
    rfl
  have hword : head.text ++ '(' :: t = head.unique.name ++ (head.unique.space ++ (head.key ++
      (head.name.elim [] SpacedName.text ++ (head.space ++ '(' :: t)))) := by
    simp [UniqueHead.text, WordGap.text]
  have hset := head?_ends_capture 1 (head?_ends_front clause (by decide) (by decide)
    head.unique.spells_name (hrest.trans (by rw [hword])))
  have hbehind := Cursor.rest_setAside 1 hrest
  have haside := Cursor.captured_setAside 1 hrest
  generalize start.setAside 1 clause.front = e at hset hbehind haside
  have hparts : e.rest = head.unique.text ++ (head.key ++ (head.name.elim [] SpacedName.text ++
      (head.space ++ '(' :: t))) := by
    rw [hbehind]
    simp [UniqueHead.text]
  -- Each part is taken behind those before it.
  have hsolid :
      (head.key ++ (head.name.elim [] SpacedName.text ++ (head.space ++ '(' :: t))).head?.any
      isBlank = false :=
    head.key_spells.elim (head_append_of_spells (by decide) · _)
      (head_append_of_spells (by decide) · _)
  have hunique := head?_ends_append hset
    ((head.unique.takesOnly (by decide) hsolid).head?_ends (isPlain_letters _) hparts)
  have hkey := head?_ends_takesOnly hunique hparts
    (fun _ => takesOnly_anyPhrase (by decide) (by decide) head.takes_key) rfl
  have hname := head?_ends_then hkey (head?_ends_name head (Cursor.rest_advance (by
    rw [hparts, List.append_assoc])))
  have hparen := head?_ends_paren hname head.space_blank (by
    rw [hparts, List.append_assoc, List.append_assoc])
  refine ⟨_, by rw [matchStart, matchAfter, hstart]; exact hparen, ?_, ?_⟩
  · rw [Cursor.captured_advance, haside]
  · refine Cursor.rest_advance ?_
    rw [hparts]
    simp

/-- A pattern that goes on behind the word `ADD`, if there is one, goes on at the first word of a
key or at the word `ADD`. -/
theorem fits_front (clause : KeyClause) {p : Pattern} (hword : isKeyword word)
    (hapart : apart word "ADD".toList) (hname : spells word name)
    (h : (blanks ++ (optional (phrase "ADD ") ++ p)).Fits before (clause.front ++ (name ++ t))) :
    ∃ before x rest, (spells word x ∨ spells "ADD".toList x) ∧
      p.Fits before (x ++ rest) := by
  have hsolid := head_append_of_spells hword hname t
  cases hadd : clause.add with
  | none =>
    rw [KeyClause.front, hadd, Option.elim_none, List.append_nil,
      fits_blanks_append clause.indent_blank hsolid] at h
    obtain h | h := fits_optional_append.mp h
    · exact absurd h (not_fits_phrase_of_apart "ADD".toList [] hword (by decide) hapart hname)
    · exact ⟨_, name, t, .inl hname, h⟩
  | some add =>
    rw [KeyClause.front, hadd, Option.elim_some, List.append_assoc, WordGap.text,
      List.append_assoc,
      fits_blanks_append clause.indent_blank
        (head_append_of_spells (by decide) add.spells_name _)] at h
    obtain h | h := fits_optional_append.mp h
    · obtain ⟨y, m, hsplit, hy, hm⟩ := fits_append.mp h
      rw [← List.append_assoc] at hsplit
      obtain rfl := (add.takesOnly (by decide) hsolid).only y m hsplit hy
      rw [← List.append_cancel_left hsplit] at hm
      exact ⟨_, name, t, .inl hname, hm⟩
    · exact ⟨_, add.name, _, .inr add.spells_name, h⟩

/-- A primary key is no unique one. -/
theorem dropUniqueKeyName_primary (clause : KeyClause) (head : PrimaryHead) (t : Text) :
    dropUniqueKeyName (clause.front ++ (head.text ++ t)) = clause.front ++ (head.text ++ t) := by
  have hnone : uniqueKey.matchStart (clause.front ++ (head.text ++ t)) = none := by
    apply matchAfter_eq_none_iff.mpr
    intro hfits
    rw [PrimaryHead.text, WordGap.text, List.append_assoc, List.append_assoc] at hfits
    simp only [uniqueKey, fits_append_assoc, fits_capture_append] at hfits
    obtain ⟨_, x, rest, hx, hfits⟩ :=
      fits_front clause (by decide) (by decide) head.primary.spells_name hfits
    obtain hx | hx := hx
    · exact not_fits_phrase_of_apart "UNIQUE".toList [] (by decide) (by decide) (by decide) hx hfits
    · exact not_fits_phrase_of_apart "UNIQUE".toList [] (by decide) (by decide) (by decide) hx hfits
  unfold dropUniqueKeyName
  rw [hnone]

/-- **A unique key loses its name**, and keeps what stands before and after. -/
theorem dropUniqueKeyName_unique (clause : KeyClause) (head : UniqueHead) (t : Text) :
    dropUniqueKeyName (clause.front ++ (head.text ++ '(' :: t)) =
      clause.front ++ ("UNIQUE".toList ++ [' ']) ++ '(' :: t := by
  obtain ⟨found, hfound, hcaptured, hrest⟩ := matchStart_uniqueKey clause head t
  unfold dropUniqueKeyName
  rw [hfound]
  change found.captured 1 ++ ("UNIQUE".toList ++ [' '] ++ ['(']) ++ found.rest = _
  rw [hcaptured, hrest, List.append_assoc, List.append_assoc, List.append_assoc, List.append_assoc]
  rfl

/-- **Plain keys.**  A unique key becomes `UNIQUE (` and its columns, the words of a primary key
stay, and in both every column of the list loses the length of its prefix.  What stands before
the key, the names and the commas of the list and what follows it are left as they are. -/
theorem plainKeys_text (clause : KeyClause) : plainKeys clause.text = clause.plainText := by
  rw [plainKeys, KeyClause.text, KeyClause.plainText]
  cases clause.head with
  | unique head =>
    have hname : spells "UNIQUE".toList "UNIQUE".toList := by decide
    obtain ⟨stop, hstop, htaken⟩ := matchStart_keyList clause (by decide) (by decide) hname
      (List.append_nil _).symm Text.isBlank_of_mem_space (fun c t => head?_ends_unique hname) _
    rw [KeyHead.text, dropUniqueKeyName_unique,
      dropPrefixLengths_eq clause.columns _ clause.tail hstop htaken, List.append_assoc]
    rfl
  | primary head =>
    obtain ⟨stop, hstop, htaken⟩ := matchStart_keyList clause (by decide) (by decide)
      head.primary.spells_name (by rw [WordGap.text, List.append_assoc]) head.space_blank
      (fun c t => head?_ends_primary head) _
    have hlist := dropPrefixLengths_eq clause.columns _ clause.tail hstop htaken
    have hplain : (KeyHead.primary head).plain = head.text := rfl
    rw [KeyHead.text, hplain, dropUniqueKeyName_primary]
    simpa [PrimaryHead.text] using hlist

/-- A column of one letter, with a length of its prefix or without. -/
def letterColumn (letter : Char) (length : Option Width) (hletter : isWord letter) :
    KeyColumn where
  lead := []
  name := [letter]
  length := length
  trail := []
  lead_blank := Text.isBlank_of_mem_nil
  name_ne := List.cons_ne_nil letter []
  name_word := List.forall_mem_singleton.mpr hletter
  trail_blank := Text.isBlank_of_mem_nil

/-- A word with one space behind it. -/
def wordSpace (word : String) (name : Text) (hname : spells word.toList name) :
    WordGap word where
  name := name
  space := [' ']
  spells_name := hname
  space_ne := Text.space_ne_nil
  space_blank := Text.isBlank_of_mem_space

/-- A unique key with a name.  One of its columns has a length, and what follows the list
looks like another. -/
def namedKey : KeyClause where
  indent := [' ']
  add := some (wordSpace "ADD" "ADD".toList (by decide))
  head := .unique
    { unique := wordSpace "UNIQUE" "unique".toList (by decide)
      key := "key".toList
      name := some
        { space := [' '], name := ['k']
          space_ne := Text.space_ne_nil
          space_blank := Text.isBlank_of_mem_space
          name_ne := List.cons_ne_nil 'k' []
          name_word := List.forall_mem_singleton.mpr (by decide) }
      space := [' ']
      key_spells := .inl (by decide)
      space_blank := Text.isBlank_of_mem_space }
  columns :=
    [letterColumn 'a' (some
      { lead := [' '], inner := [], number := "10".toList, outer := [], trail := []
        lead_blank := Text.isBlank_of_mem_space
        inner_blank := Text.isBlank_of_mem_nil
        number_ne := by decide
        number_digit := by decide
        outer_blank := Text.isBlank_of_mem_nil
        trail_blank := Text.isBlank_of_mem_nil }) (by decide),
     letterColumn 'b' none (by decide)]
  tail := " f(3)".toList
  indent_blank := Text.isBlank_of_mem_space

/-- The name and the length go, and what looks like a length behind the list stays. -/
theorem plainKeys_text_namedKey :
    namedKey.text = " ADD unique key k (a (10),b) f(3)".toList ∧
      plainKeys namedKey.text = " ADD UNIQUE (a,b) f(3)".toList :=
  ⟨by decide, (plainKeys_text namedKey).trans (by decide)⟩

end DumpBridge.Line
