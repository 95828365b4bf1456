import DumpBridge.Proofs.Line.TypeWords

/-!
# Integer types

An integer type of the dump's dialect is written as a name, perhaps a width in
parentheses, perhaps `UNSIGNED` and perhaps `ZEROFILL`.  `IntegerColumn` holds all
ways to write one, with what follows it in a column.  Although the changes of types
run one after the other, and the result of one is read by the next, together they
follow one table (`IntegerType.target`): `mapTypes_integerColumn`.

A change that does not find its words leaves the text, the first that finds its form
decides, and a type that is settled stays (`apply_settled`), since no modifier follows
it that would make it wider.
-/

namespace DumpBridge.ColumnType

open Text (Pattern Cursor HasWord SpacedWord StartsWord isBlank isDigit isWord)
open Text.Pattern

variable {a p : Pattern} {before : Option Char} {s t r x y rest : Text} {words : List String}
  {new : Cursor → Text} {w : String}

/-! ## How integer types are written -/

/-- The names of integer types. -/
inductive IntegerType where
  | tinyint | smallint | mediumint | int | integer | bigint
  deriving DecidableEq

def IntegerType.word : IntegerType → String
  | tinyint => "TINYINT"
  | smallint => "SMALLINT"
  | mediumint => "MEDIUMINT"
  | int => "INT"
  | integer => "INTEGER"
  | bigint => "BIGINT"

/-- **The table**: what becomes of a type, by whether its width is one and whether it has a sign. -/
def IntegerType.target (isFlag isUnsigned : Bool) : IntegerType → String
  | tinyint => if isFlag then "BOOLEAN" else "SMALLINT"
  | smallint => if isUnsigned then "INTEGER" else "SMALLINT"
  | mediumint => "INTEGER"
  | int | integer => if isUnsigned then "BIGINT" else "INTEGER"
  | bigint => "BIGINT"

/-- A width in parentheses, with blanks anywhere. -/
structure Width where
  lead : Text
  inner : Text
  number : Text
  outer : Text
  trail : Text
  lead_blank : ∀ c ∈ lead, isBlank c
  inner_blank : ∀ c ∈ inner, isBlank c
  number_ne : number ≠ []
  number_digit : ∀ c ∈ number, c.isDigit
  outer_blank : ∀ c ∈ outer, isBlank c
  trail_blank : ∀ c ∈ trail, isBlank c

/-- The width up to its closing parenthesis. -/
def Width.text (width : Width) : Text :=
  width.lead ++ '(' :: (width.inner ++ (width.number ++ (width.outer ++ [')'])))

/-- What follows an integer type in a column. -/
def columnTails : List Text :=
  ["", ",", " NOT NULL", " NOT NULL,", " NULL", " NULL,", " DEFAULT NULL", " DEFAULT NULL,"].map
    String.toList

/-- An integer type with its modifiers, and what follows it. -/
structure IntegerColumn where
  type : IntegerType
  name : Text
  width : Option Width
  unsigned : Option (SpacedWord "UNSIGNED")
  zerofill : Option (SpacedWord "ZEROFILL")
  tail : Text
  spells_name : spells type.word.toList name
  tail_mem : tail ∈ columnTails

namespace IntegerColumn

/-- The blanks behind the width. -/
def trail (c : IntegerColumn) : Text :=
  c.width.elim [] Width.trail

/-- What follows the sign. -/
def closing (c : IntegerColumn) : Text :=
  c.zerofill.elim [] SpacedWord.text ++ c.tail

/-- What follows the width. -/
def ending (c : IntegerColumn) : Text :=
  c.trail ++ (c.unsigned.elim [] SpacedWord.text ++ c.closing)

def text (c : IntegerColumn) : Text :=
  c.name ++ (c.width.elim [] Width.text ++ c.ending)

/-- Whether the width is exactly one. -/
def isFlag (c : IntegerColumn) : Bool :=
  c.width.any fun width => width.number = ['1']

def target (c : IntegerColumn) : String :=
  c.type.target c.isFlag c.unsigned.isSome

/-- The blanks behind the width go with a modifier that follows them, and stay if none does. -/
def kept (c : IntegerColumn) : Text :=
  if c.unsigned.isSome || c.zerofill.isSome then [] else c.trail

end IntegerColumn

/-! ## What may follow a type -/

/-- No width and none of the words of the changes. -/
structure Ending (t : Text) : Prop where
  head : t.head?.any isWord = false
  solid : (t.dropWhile isBlank).head? ≠ some '('
  words : ∀ words ∈ openingWords, ∀ w ∈ words, ¬ HasWord w.toList t

theorem isKeyword_of_mem_openingWords : ∀ words ∈ openingWords, ∀ w ∈ words,
    isKeyword w.toList := by
  decide

/-- Blanks before an ending make an ending. -/
theorem Ending.blanks (h : Ending t) (hs : ∀ c ∈ s, isBlank c) : Ending (s ++ t) where
  head := by
    cases s with
    | nil => exact h.head
    | cons c s => simpa using Text.isWord_eq_false_of_isBlank (hs c List.mem_cons_self)
  solid := by
    rw [Text.dropWhile_blank_append hs]
    exact h.solid
  words words hwords w hw := by
    rw [Text.hasWord_append_iff (isKeyword_of_mem_openingWords words hwords w hw)
      fun c hc => Text.isWord_eq_false_of_isBlank (hs c hc)]
    exact h.words words hwords w hw

/-- The words of a text behind a modifier. -/
theorem hasWord_modifier_append (modifier : Option (SpacedWord w)) {v : Text}
    (hw : w ∈ vendorModifiers)
    (hv : isKeyword v) (hne : w.toList.map Char.toLower ≠ v.map Char.toLower)
    (ht : t.head?.any isWord = false) :
    HasWord v (modifier.elim [] SpacedWord.text ++ t) ↔ HasWord v t := by
  cases modifier with
  | none => rfl
  | some modifier =>
    have hkeyword := isKeyword_of_mem_vendorModifiers w hw
    obtain ⟨hsome, hletters⟩ := isWord_of_spells hkeyword modifier.spells_name
    have hspace : ∀ c ∈ modifier.space, isWord c = false :=
      fun c hc => Text.isWord_eq_false_of_isBlank (modifier.space_blank c hc)
    rw [Option.elim_some, SpacedWord.text, List.append_assoc, Text.hasWord_append_iff hv hspace,
      Text.hasWord_word_append_iff hv hsome hletters ht,
      spells_eq_false modifier.spells_name hkeyword hv hne]
    simp

/-- So does a modifier, if there is one. -/
theorem Ending.modifier (h : Ending t) (modifier : Option (SpacedWord w))
    (hw : w ∈ vendorModifiers) :
    Ending (modifier.elim [] SpacedWord.text ++ t) where
  head := by
    cases modifier with
    | none => exact h.head
    | some modifier => exact modifier.head_text_append
  solid := by
    cases modifier with
    | none => exact h.solid
    | some modifier => exact modifier.solid_text_append (isKeyword_of_mem_vendorModifiers w hw)
  words words hwords v hv := by
    have hne : ∀ w ∈ vendorModifiers, ∀ words ∈ openingWords, ∀ v ∈ words,
        w.toList.map Char.toLower ≠ v.toList.map Char.toLower := by decide
    rw [hasWord_modifier_append modifier hw (isKeyword_of_mem_openingWords words hwords v hv)
      (hne w hw words hwords v hv) h.head]
    exact h.words words hwords v hv

/-- A text that brings a word nowhere does not have it. -/
theorem not_hasWord_of_spares {w : Text} (hw : isKeyword w) (h : Spares w t) :
    ¬ HasWord w t := by
  intro hword
  obtain ⟨a, b, rfl, ha, hb⟩ := hword
  have hne : b ≠ [] := by
    intro hnil
    have hhead := hb.head hw
    simp [hnil] at hhead
  refine h a b [] rfl hne ha ?_
  rwa [List.append_nil]

/-- No tail of a column has a word of a type or a modifier. -/
theorem not_hasWord_tail (ht : t ∈ columnTails) : ∀ w ∈ openingWords.flatten ++ vendorModifiers,
    ¬ HasWord w.toList t := by
  have hcheck : ∀ t ∈ columnTails, ∀ w ∈ openingWords.flatten ++ vendorModifiers,
      isKeyword w.toList ∧ spares w.toList none t := by decide
  intro w hw
  obtain ⟨hword, hspares⟩ := hcheck t ht w hw
  exact not_hasWord_of_spares hword (spares_of_check hword hspares)

/-- The tails of columns are endings. -/
theorem ending_of_mem_columnTails (ht : t ∈ columnTails) : Ending t where
  head := by
    have hall : ∀ t ∈ columnTails, t.head?.any isWord = false := by decide
    exact hall t ht
  solid := by
    have hall : ∀ t ∈ columnTails, (t.dropWhile isBlank).head? ≠ some '(' := by decide
    exact hall t ht
  words words hwords w hw :=
    not_hasWord_tail ht w (List.mem_append_left _ (List.mem_flatten.mpr ⟨words, hwords, hw⟩))

/-! ## What the changes of integers find -/

theorem isPlain_typeWord (words : List String) : (typeWord words).isPlain := by
  have hany : ∀ ps : List Pattern, (∀ p ∈ ps, p.isPlain) → (anyOf ps).isPlain := by
    intro ps
    induction ps with
    | nil => exact fun _ => rfl
    | cons p ps ih =>
      intro hall
      obtain ⟨hp, hps⟩ := List.forall_mem_cons.mp hall
      cases ps with
      | nil => exact hp
      | cons q ps => exact Bool.and_eq_true_iff.mpr ⟨hp, ih hps⟩
  have hphrases : (anyPhrase words).isPlain := by
    refine hany _ fun p hp => ?_
    obtain ⟨w, -, rfl⟩ := List.mem_map.mp hp
    exact isPlain_letters w.toList
  exact Bool.and_eq_true_iff.mpr ⟨Bool.and_eq_true_iff.mpr ⟨rfl, hphrases⟩, rfl⟩

/-- A whole word has one way to match. -/
theorem takesOnly_typeWord (hwords : ∀ w ∈ words, isKeyword w.toList)
    (hbefore : before.any isWord = false) (hy : ∃ w ∈ words, spells w.toList y)
    (hrest : rest.head?.any isWord = false) : (typeWord words).TakesOnly before y rest := by
  refine ⟨(takes_typeWord hwords).mpr ⟨hbefore, hy, hrest⟩, fun y' m hsplit htakes => ?_⟩
  obtain ⟨-, ⟨w', hw', hspells'⟩, hm⟩ := (takes_typeWord hwords).mp htakes
  obtain ⟨w, hw, hspells⟩ := hy
  exact (Text.span_inj (isWord_of_spells (hwords w hw) hspells).2
    (isWord_of_spells (hwords w' hw') hspells').2 hrest hm hsplit).1.symm

/-- A width in parentheses has one way to match, if its inside has. -/
theorem takesOnly_inParens {inner : Pattern} (width : Width)
    (hinner : ∀ before, inner.TakesOnly before width.number (width.outer ++ ([')'] ++ rest))) :
    (blanks ++ inParens inner).TakesOnly before width.text rest := by
  have htext : width.text =
      width.lead ++ (['('] ++ width.inner ++ width.number ++ width.outer ++ [')']) := by
    simp [Width.text]
  have hsolid : (width.number ++ (width.outer ++ ([')'] ++ rest))).head?.any isBlank = false := by
    obtain ⟨c, number, hnumber⟩ := List.exists_cons_of_ne_nil width.number_ne
    have hc : c.isDigit := width.number_digit c (by simp [hnumber])
    have hword : isWord c := Text.isWord_of_isKeyChar (by simp [Text.isKeyChar, hc])
    simpa [hnumber] using Text.isBlank_eq_false_of_isWord hword
  rw [htext]
  refine takesOnly_append (takesOnly_run width.lead_blank rfl) ?_
  refine takesOnly_append (takesOnly_append (takesOnly_append (takesOnly_append
    (takesOnly_one (by decide)) (takesOnly_run width.inner_blank ?_)) ?_)
    (takesOnly_run width.outer_blank rfl)) (takesOnly_one (by decide))
  · simpa using hsolid
  · exact hinner _

/-- A width is taken in one way. -/
theorem takesOnly_width (width : Width) :
    (blanks ++ inParens digits).TakesOnly before width.text rest := by
  refine takesOnly_inParens width fun before => takesOnly_someOf width.number_ne ?_ ?_
  · intro c hc
    have hdigit := width.number_digit c hc
    have hlow : c.toNat < 0x80 := by
      have hkey : Text.isKeyChar c := by simp [Text.isKeyChar, hdigit]
      rw [Text.isKeyChar_iff] at hkey
      omega
    rw [isDigit, if_pos hlow, hdigit]
  · cases houter : width.outer with
    | nil => rfl
    | cons c outer =>
      simpa using Text.isDigit_eq_false_of_isBlank (width.outer_blank c (by simp [houter]))

/-- No width starts an ending. -/
theorem not_fits_width (inner : Pattern) (hr : Ending r) :
    ¬ (blanks ++ inParens inner).Fits before r := by
  intro hfits
  obtain ⟨space, m, rfl, ⟨hspace, -⟩, hm⟩ := fits_append.mp hfits
  have hparen : m.head? = some '(' := head?_of_fits_char (a := inParens inner) rfl hm
  have hsolid := hr.solid
  rw [Text.dropWhile_blank_append hspace] at hsolid
  cases m with
  | nil => simp at hparen
  | cons c m =>
    obtain rfl := Option.some.inj hparen
    exact hsolid rfl

/-- The width of a type is taken whole, if there is one. -/
theorem head?_ends_width (width : Option Width) (hr : Ending r) {c : Cursor}
    (hrest : c.rest = width.elim [] Width.text ++ r) :
    (ColumnType.width.ends c).head? = some (c.advance (width.elim [] Width.text)) := by
  cases width with
  | none =>
    have hrest' : c.rest = r := hrest
    have hnot : ¬ (blanks ++ inParens digits).Fits c.before c.rest := by
      rw [hrest']
      exact not_fits_width digits hr
    exact head?_ends_optional hnot
  | some width =>
    exact head?_ends_optional_of_some ((takesOnly_width width).head?_ends rfl hrest)

/-- A word with blanks before it and an edge behind it is taken in one way. -/
theorem takesOnly_phrase_edge {word : Text} (h : (letters word ++ edge).Takes before x rest) :
    (letters word ++ edge).TakesOnly before x rest := by
  obtain ⟨u, v, rfl, hu, hv⟩ := h
  refine takesOnly_append (takesOnly_letters hu) ⟨hv, fun y m _ hy => ?_⟩
  rw [hy.1, hv.1]

/-- A match that is a whole front of the text gives way to its type. -/
theorem apply_into_front (target : String) (hp : OpensWith words p) (hne : x ≠ [])
    (hends : (p.ends (.start none (x ++ r))).head? = some ((Cursor.start none (x ++ r)).advance x))
    (hnone : ∀ w ∈ words, ¬ HasWord w.toList r) :
    (Change.into target p).apply (x ++ r) = target.toList ++ r := by
  have htaken : ((Cursor.start none (x ++ r)).advance x).taken = x.length := by
    simp [Cursor.advance, Cursor.start]
  change p.replaceFrom (fun _ => target.toList) none 0 (x ++ r) = target.toList ++ r
  rw [replaceFrom_match hends htaken hne, hp.replaceFrom_eq_self hnone]

/-- No word goes on after a type and its width. -/
theorem head_width_append (width : Option Width) (hr : Ending r) :
    (width.elim [] Width.text ++ r).head?.any isWord = false := by
  cases width with
  | none => exact hr.head
  | some width =>
    cases hlead : width.lead with
    | nil =>
      simp only [Option.elim_some, Width.text, hlead]
      rfl
    | cons c lead =>
      have hc := Text.isWord_eq_false_of_isBlank (width.lead_blank c (by simp [hlead]))
      simpa [Width.text, hlead] using hc

/-- A type and its width are taken whole. -/
theorem head?_ends_typeWidth (hwords : words ∈ openingWords) (hy : ∃ w ∈ words, spells w.toList y)
    (width : Option Width) (hr : Ending r) {c : Cursor} (hbefore : c.before.any isWord = false)
    (hrest : c.rest = y ++ (width.elim [] Width.text ++ r)) :
    ((typeWord words ++ ColumnType.width).ends c).head? =
      some (c.advance (y ++ width.elim [] Width.text)) := by
  have hword := (takesOnly_typeWord (isKeyword_of_mem_openingWords words hwords) hbefore hy
    (head_width_append width hr)).head?_ends (isPlain_typeWord words) hrest
  rw [← Cursor.advance_advance]
  exact head?_ends_append hword (head?_ends_width width hr (Cursor.rest_advance hrest))

theorem ne_nil_of_spells (hwords : words ∈ openingWords) (hy : ∃ w ∈ words, spells w.toList y) :
    y ≠ [] := by
  obtain ⟨w, hw, hspells⟩ := hy
  exact (isWord_of_spells (isKeyword_of_mem_openingWords words hwords w hw) hspells).1

/-- **A type with its width** becomes another type, whatever follows. -/
theorem apply_typeWidth (target : String) (hwords : words ∈ openingWords)
    (hy : ∃ w ∈ words, spells w.toList y) (width : Option Width) (hr : Ending r) :
    (Change.into target (typeWord words ++ ColumnType.width)).apply
      (y ++ (width.elim [] Width.text ++ r)) = target.toList ++ r := by
  have hends := head?_ends_typeWidth hwords hy width hr
    (c := .start none (y ++ (width.elim [] Width.text ++ r))) rfl rfl
  rw [← List.append_assoc] at hends ⊢
  exact apply_into_front target
    (opensWith_typeWord (isKeyword_of_mem_openingWords words hwords)).append
    (List.append_ne_nil_of_left_ne_nil (ne_nil_of_spells hwords hy) _) hends (hr.words words hwords)

/-- A type with its width and a sign becomes another type. -/
theorem apply_typeSign (target : String) {sign : Pattern} {u : Text} (hwords : words ∈ openingWords)
    (hy : ∃ w ∈ words, spells w.toList y) (width : Option Width) (hu : Ending (u ++ r))
    (hr : Ending r)
    (hsign : ∀ c : Cursor, c.rest = u ++ r → (sign.ends c).head? = some (c.advance u)) :
    (Change.into target (typeWord words ++ ColumnType.width ++ sign)).apply
      (y ++ (width.elim [] Width.text ++ (u ++ r))) = target.toList ++ r := by
  have hends := head?_ends_typeWidth hwords hy width hu
    (c := .start none (y ++ (width.elim [] Width.text ++ (u ++ r)))) rfl rfl
  have hmore := head?_ends_append hends (hsign _ (Cursor.rest_advance (by simp [Cursor.start])))
  rw [Cursor.advance_advance] at hmore
  have hshape : y ++ (width.elim [] Width.text ++ (u ++ r)) =
      y ++ width.elim [] Width.text ++ u ++ r := by
    simp
  rw [hshape] at hmore ⊢
  refine apply_into_front target
    (opensWith_typeWord (isKeyword_of_mem_openingWords words hwords)).append.append ?_ hmore
    (hr.words words hwords)
  rw [List.append_assoc]
  exact List.append_ne_nil_of_left_ne_nil (ne_nil_of_spells hwords hy) _

/-! ## Changes that leave a type -/

theorem not_fits_unsigned (hnone : ¬ HasWord "UNSIGNED".toList t) : ¬ unsigned.Fits before t :=
  fun hfits => hnone (hasWordAfterBlank_of_fits (by decide) hfits []).hasWord

/-- No change that needs the modifier finds it where it is not. -/
theorem apply_unsigned_eq_self (target : String) (hnone : ¬ HasWord "UNSIGNED".toList t) :
    (Change.into target (a ++ unsigned)).apply t = t := by
  refine Pattern.replaceFrom_eq_self (fun _ => target.toList) ?_
  intro front b hsplit hfits
  obtain ⟨u, m, rfl, -, hm⟩ := fits_append.mp hfits
  have hword : HasWord "UNSIGNED".toList (front ++ u ++ m) :=
    (hasWordAfterBlank_of_fits (by decide) hm (front ++ u)).hasWord
  rw [hsplit, ← List.append_assoc] at hnone
  exact hnone hword

/-- A change that does not find the first word leaves it. -/
theorem OpensWith.replaceFrom_word_append (h : OpensWith words p) (hy : ∀ c ∈ y, isWord c)
    (hfirst : ¬ p.Fits none (y ++ t)) (hnone : ∀ w ∈ words, ¬ HasWord w.toList t) :
    p.replaceFrom new none 0 (y ++ t) = y ++ t := by
  have hinside : ∀ before t, before.any isWord → t.head?.any isWord → ¬ p.Fits before t := by
    intro before t hbefore _ hfits
    obtain ⟨x, rest, rfl, hx⟩ := hfits
    have hout := (h before x rest hx).1
    simp [hbefore] at hout
  have hpasses : p.Passes none y t := by
    cases y with
    | nil => trivial
    | cons c y =>
      obtain ⟨hc, hy⟩ := List.forall_mem_cons.mp hy
      exact ⟨hfirst, passes_inside hinside (by simpa using hc) hy⟩
  rw [replaceFrom_of_passes hpasses, h.replaceFrom_eq_self hnone]

theorem apply_row_eq_self {row : List String × Change} (hrow : row ∈ wordTable)
    (hnone : ∀ w ∈ row.1, ¬ HasWord w.toList t) : row.2.apply t = t :=
  (opensWith_of_mem_wordTable row hrow).replaceFrom_eq_self hnone

/-- A number spells no word. -/
theorem spells_number {v : Text} {first : Char} (hfirst : Text.isNameStart first)
    (ht : ∀ c ∈ t, c.isDigit) : spells (first :: v) t = false := by
  cases t with
  | nil => rfl
  | cons c t =>
    have hc : c.isDigit := ht c List.mem_cons_self
    have hkey : Text.isKeyChar c := by simp [Text.isKeyChar, hc]
    rw [spells, Bool.and_eq_false_iff]
    refine Or.inl (Bool.eq_false_iff.mpr fun hsame => ?_)
    have hlower := toLower_eq_of_sameLetter (by simp [Text.isKeyChar, hfirst]) hkey hsame
      (sameLetter_self c)
    have hnat := congrArg Char.toNat hlower
    have hdigit : 48 ≤ c.toNat ∧ c.toNat ≤ 57 := by
      simpa [Char.isDigit, UInt32.le_iff_toNat_le] using hc
    rw [Text.toNat_toLower, Text.toNat_toLower] at hnat
    rw [Text.isNameStart_iff] at hfirst
    grind

/-- A width has no words. -/
theorem hasWord_width_append {v : Text} {first : Char} (hfirst : Text.isNameStart first)
    (hv : isKeyword (first :: v)) (width : Option Width) :
    HasWord (first :: v) (width.elim [] Width.text ++ r) ↔ HasWord (first :: v) r := by
  cases width with
  | none => rfl
  | some width =>
    have hnumber : ∀ c ∈ width.number, isWord c := by
      intro c hc
      exact Text.isWord_of_isKeyChar (by simp [Text.isKeyChar, width.number_digit c hc])
    have hblank : ∀ s : Text, (∀ c ∈ s, isBlank c) → ∀ c ∈ s, isWord c = false :=
      fun s hs c hc => Text.isWord_eq_false_of_isBlank (hs c hc)
    have hend : (width.outer ++ (')' :: r)).head?.any isWord = false := by
      cases houter : width.outer with
      | nil => rfl
      | cons c outer => simpa using hblank _ width.outer_blank c (by simp [houter])
    have hshape : Option.elim (some width) [] Width.text ++ r =
        width.lead ++ '(' :: (width.inner ++ (width.number ++ (width.outer ++ (')' :: r)))) := by
      simp [Width.text]
    rw [hshape, Text.hasWord_append_iff hv (hblank _ width.lead_blank),
      Text.hasWord_cons_iff hv (by decide),
      Text.hasWord_append_iff hv (hblank _ width.inner_blank),
      Text.hasWord_word_append_iff hv width.number_ne hnumber hend,
      spells_number hfirst width.number_digit,
      Text.hasWord_append_iff hv (hblank _ width.outer_blank),
      Text.hasWord_cons_iff hv (by decide)]
    simp

/-- A type has no word but its own. -/
theorem not_hasWord_typed {name other : String} (hname : isKeyword name.toList)
    (hother : isKeyword other.toList) (hfirst : other.toList.head?.any Text.isNameStart)
    (hne : name.toList.map Char.toLower ≠ other.toList.map Char.toLower)
    (hy : spells name.toList y) (width : Option Width) (hr : Ending r)
    (hnone : ¬ HasWord other.toList r) :
    ¬ HasWord other.toList (y ++ (width.elim [] Width.text ++ r)) := by
  obtain ⟨hsome, hletters⟩ := isWord_of_spells hname hy
  rw [Text.hasWord_word_append_iff hother hsome hletters (head_width_append width hr),
    spells_eq_false hy hname hother hne]
  cases hword : other.toList with
  | nil => simp [hword] at hfirst
  | cons first v =>
    rw [hword] at hfirst hother hnone
    rw [hasWord_width_append (by simpa using hfirst) hother]
    simpa using hnone

/-! ## Widths of one -/

/-- The digits of a width are its number. -/
theorem Width.filter_text (width : Width) : width.text.filter Char.isDigit = width.number := by
  have hblank : ∀ s : Text, (∀ c ∈ s, isBlank c) → s.filter Char.isDigit = [] := by
    intro s hs
    refine List.filter_eq_nil_iff.mpr fun c hc hdigit => ?_
    have hword : isWord c := Text.isWord_of_isKeyChar (by simp [Text.isKeyChar, hdigit])
    exact absurd (hs c hc) (by simp [Text.isBlank_eq_false_of_isWord hword])
  have hnumber : width.number.filter Char.isDigit = width.number :=
    List.filter_eq_self.mpr width.number_digit
  have hopen : Char.isDigit '(' = false := by decide
  have hclose : Char.isDigit ')' = false := by decide
  simp [Width.text, hblank _ width.lead_blank, hblank _ width.inner_blank,
    hblank _ width.outer_blank, hnumber, hopen, hclose]

/-- What is found as a width of one is a width, of one. -/
theorem exists_width_of_takes (h : (blanks ++ inParens (char '1')).Takes before x rest) :
    ∃ one : Width, x = one.text ∧ one.number = ['1'] := by
  obtain ⟨lead, _, rfl, ⟨hlead, -⟩, _, _, rfl, ⟨_, outer, rfl, ⟨_, _, rfl, ⟨_, inner, rfl,
    hopen, hinner, -⟩, hone⟩, houter, -⟩, hclose⟩ := h
  obtain rfl := takes_char.mp hopen
  obtain rfl := takes_char.mp hone
  obtain rfl := takes_char.mp hclose
  refine ⟨⟨lead, inner, ['1'], outer, [], hlead, hinner, by simp, by simp, houter,
    Text.isBlank_of_mem_nil⟩, ?_, rfl⟩
  simp [Width.text]

/-- A width that is read as one is one. -/
theorem number_of_fits (width : Width)
    (h : (blanks ++ inParens (char '1')).Fits before (width.text ++ r)) : width.number = ['1'] := by
  obtain ⟨x, m, hsplit, hx⟩ := h
  obtain ⟨one, rfl, hone⟩ := exists_width_of_takes hx
  -- The two widths are read from one text, so they have the same digits.
  have honly : (blanks ++ inParens digits).TakesOnly before width.text r := takesOnly_width width
  have hsame : one.text = width.text := honly.only one.text m hsplit (takesOnly_width one).takes
  rw [← width.filter_text, ← hsame, one.filter_text, hone]

/-- The name before a width. -/
theorem takesOnly_tinyint (hy : spells "TINYINT".toList y) :
    (edge ++ phrase "TINYINT").TakesOnly none y rest := by
  have hkeyword : isKeyword "TINYINT".toList := by decide
  refine takesOnly_append (x := []) ⟨?_, fun _ _ _ h => h.1⟩ (takesOnly_letters ?_)
  · exact (takes_edge_word (w := "TINYINT") hkeyword hy).mpr rfl
  · exact (takes_letters (not_mem_of_isKeyword hkeyword)).mpr hy

/-- **A width of one** makes a truth value. -/
theorem apply_flag (hy : spells "TINYINT".toList y) (width : Width)
    (hone : width.number = ['1']) (hr : Ending r) :
    (Change.into "BOOLEAN" (edge ++ phrase "TINYINT" ++ blanks ++ inParens (char '1'))).apply
      (y ++ (width.text ++ r)) = "BOOLEAN".toList ++ r := by
  have hname : ((edge ++ phrase "TINYINT").ends (.start none (y ++ (width.text ++ r)))).head? =
      some ((Cursor.start none (y ++ (width.text ++ r))).advance y) :=
    (takesOnly_tinyint hy).head?_ends rfl rfl
  have hwidth : ∀ before, (blanks ++ inParens (char '1')).TakesOnly before width.text r := by
    refine fun before => takesOnly_inParens width fun before => ?_
    rw [hone]
    exact takesOnly_one (by decide)
  have hends := head?_ends_append hname ((hwidth _).head?_ends rfl
    (Cursor.rest_advance (c := .start none (y ++ (width.text ++ r))) rfl))
  rw [← ends_append_assoc, Cursor.advance_advance] at hends
  rw [← List.append_assoc] at hends ⊢
  refine apply_into_front "BOOLEAN" (opensWith_paren (by decide) _) ?_ hends
    (hr.words _ (by decide))
  exact List.append_ne_nil_of_left_ne_nil (isWord_of_spells (by decide) hy).1 _

/-- Any other width does not. -/
theorem apply_flag_eq_self (hy : spells "TINYINT".toList y) (width : Option Width)
    (hflag : width.any (fun width => width.number = ['1']) = false) (hr : Ending r) :
    (Change.into "BOOLEAN" (edge ++ phrase "TINYINT" ++ blanks ++ inParens (char '1'))).apply
      (y ++ (width.elim [] Width.text ++ r)) = y ++ (width.elim [] Width.text ++ r) := by
  have hkeyword : isKeyword "TINYINT".toList := by decide
  refine (opensWith_paren hkeyword _).replaceFrom_word_append (isWord_of_spells hkeyword hy).2 ?_ ?_
  · intro hfits
    rw [fits_append_assoc] at hfits
    obtain ⟨u, m, hsplit, hu, hm⟩ := fits_append.mp hfits
    -- The name that was found is as long as the one that is written.
    obtain rfl := (takesOnly_tinyint hy).only u m hsplit hu
    obtain rfl := List.append_cancel_left hsplit
    cases width with
    | none => exact not_fits_width _ hr hm
    | some width =>
      have hone := number_of_fits width hm
      simp [hone] at hflag
  · intro w hw
    obtain rfl := List.mem_singleton.mp hw
    have hword := hr.words ["TINYINT"] (by decide) "TINYINT" (by decide)
    exact fun h => hword ((hasWord_width_append (by decide) (by decide) width).mp h)

/-! ## Settled types -/

/-- The types that integers become. -/
def integerTargets : List String :=
  ["BOOLEAN", "SMALLINT", "INTEGER", "BIGINT"]

/-- The changes that find a type that an integer became. -/
theorem row_of_mem_integerTargets : ∀ row ∈ wordTable, ∀ target ∈ integerTargets, target ∈ row.1 →
    (∃ wider, row.2 = .into wider (typeWord row.1 ++ width ++ unsigned)) ∨
      row.2 = .into target (typeWord row.1 ++ width) ∨
      row.2 = .into target (typeWord row.1 ++ width ++ .optional unsigned) := by
  simp only [wordTable, openingWords, changes, List.zip_cons_cons, List.zip_nil_left,
    List.forall_mem_cons, integerTargets, List.not_mem_nil, false_imp_iff, implies_true, and_true,
    true_or, or_true, true_and]
  repeat' apply And.intro
  all_goals intro hmem
  all_goals first
    | exact absurd hmem (by decide)
    | exact Or.inl ⟨_, rfl⟩

/-- A type that an integer became is no modifier. -/
theorem not_hasWord_target {target : String} (htarget : target ∈ integerTargets)
    (hw : w ∈ vendorModifiers)
    (hr : Ending r) (hnone : ¬ HasWord w.toList r) : ¬ HasWord w.toList (target.toList ++ r) := by
  have hcheck : ∀ target ∈ integerTargets, ∀ w ∈ vendorModifiers, isKeyword target.toList ∧
      spells target.toList target.toList ∧ w.toList.head?.any Text.isNameStart ∧
      target.toList.map Char.toLower ≠ w.toList.map Char.toLower := by decide
  obtain ⟨hkeyword, hself, hfirst, hne⟩ := hcheck target htarget w hw
  exact not_hasWord_typed hkeyword (isKeyword_of_mem_vendorModifiers w hw) hfirst hne hself none
    hr hnone

/-- **A settled type stays**, if no modifier follows that would make it wider. -/
theorem apply_settled {target : String} (htarget : target ∈ integerTargets) (hr : Ending r)
    (hsigned : target = "BOOLEAN" ∨ ¬ HasWord "UNSIGNED".toList r) :
    ∀ row ∈ wordTable, row.2.apply (target.toList ++ r) = target.toList ++ r := by
  have hcheck : ∀ target ∈ integerTargets, isKeyword target.toList ∧
      spells target.toList target.toList ∧
      ∀ words ∈ openingWords, ∀ w ∈ words, w ≠ "BOOLEAN" ∧ w.toList.head?.any Text.isNameStart ∧
        (w ≠ target → target.toList.map Char.toLower ≠ w.toList.map Char.toLower) := by decide
  obtain ⟨hkeyword, hself, hother⟩ := hcheck target htarget
  intro row hrow
  have hwords : row.1 ∈ openingWords := (List.of_mem_zip hrow).1
  by_cases hmem : target ∈ row.1
  · have hy : ∃ w ∈ row.1, spells w.toList target.toList := ⟨target, hmem, hself⟩
    have hnone : ¬ HasWord "UNSIGNED".toList r :=
      hsigned.resolve_left (hother row.1 hwords target hmem).1
    have hnot := not_hasWord_target htarget (w := "UNSIGNED") (by decide) hr hnone
    rcases row_of_mem_integerTargets row hrow target htarget hmem with ⟨wider, heq⟩ | heq | heq
    · rw [heq]
      exact apply_unsigned_eq_self wider hnot
    · rw [heq]
      exact apply_typeWidth target hwords hy none hr
    · rw [heq]
      refine apply_typeSign (u := []) target hwords hy none hr hr fun c hc => ?_
      exact head?_ends_optional (hc ▸ not_fits_unsigned hnone)
  · refine apply_row_eq_self hrow fun w hw => ?_
    obtain ⟨-, hfirst, hne⟩ := hother row.1 hwords w hw
    have hdiffer : w ≠ target := fun h => hmem (h ▸ hw)
    exact not_hasWord_typed hkeyword (isKeyword_of_mem_openingWords row.1 hwords w hw) hfirst
      (hne hdiffer) hself none hr (hr.words row.1 hwords w hw)

/-! ## Modifiers that are left -/

theorem apply_eraseModifier_eq_self (hw : isKeyword w.toList)
    (hnone : ¬ HasWord w.toList t) : (eraseModifier w).apply t = t :=
  replaceFrom_modifier_eq_self hw fun h => hnone h.hasWord

/-- No modifier starts inside a word. -/
theorem passes_modifier_word {v : Text} (hv : isKeyword v) (hy : ∀ c ∈ y, isWord c) :
    (letters (' ' :: v) ++ edge).Passes before y t := by
  refine passes_of_head hy fun before t hfits => ?_
  obtain ⟨x, rest, rfl, hx⟩ := hfits
  obtain ⟨space, z, rfl, hne, hblank, -⟩ := (takes_modifier hv).mp hx
  obtain ⟨c, space, rfl⟩ := List.exists_cons_of_ne_nil hne
  simpa using Text.isWord_eq_false_of_isBlank (hblank c List.mem_cons_self)

/-- Blanks before another word are passed over. -/
theorem passes_modifier_blanks {v : Text} (hv : isKeyword v) (hs : ∀ c ∈ s, isBlank c)
    (ht : ¬ StartsWord v (t.dropWhile isBlank)) :
    (letters (' ' :: v) ++ edge).Passes before s t := by
  induction s generalizing before with
  | nil => trivial
  | cons c s ih =>
    obtain ⟨hc, hrest⟩ := List.forall_mem_cons.mp hs
    refine ⟨fun hfits => ht ?_, ih hrest⟩
    obtain ⟨x, rest, hsplit, hx⟩ := hfits
    obtain ⟨space, y, rfl, -, hblank, hy, hend⟩ := (takes_modifier hv).mp hx
    obtain ⟨hsome, hletters⟩ := isWord_of_spells hv hy
    have hskip := congrArg (List.dropWhile isBlank) hsplit
    rw [← List.cons_append, Text.dropWhile_blank_append hs, List.append_assoc,
      Text.dropWhile_blank_append hblank, Text.dropWhile_word_append hsome hletters] at hskip
    rw [hskip]
    exact ⟨y, rest, rfl, hy, hend⟩

/-- **A modifier goes** with all blanks before it. -/
theorem apply_eraseModifier (hw : isKeyword w.toList) (modifier : SpacedWord w)
    {front : Text} (hs : ∀ c ∈ s, isBlank c) (hrest : rest.head?.any isWord = false)
    (hnone : ¬ HasWord w.toList rest)
    (hfront : (letters (' ' :: w.toList) ++ edge).Passes none front
      (s ++ (modifier.text ++ rest))) :
    (eraseModifier w).apply (front ++ (s ++ (modifier.text ++ rest))) = front ++ rest := by
  have hshape : s ++ (modifier.text ++ rest) = s ++ modifier.space ++ modifier.name ++ rest := by
    simp [SpacedWord.text]
  have htakes : ∀ before, (letters (' ' :: w.toList) ++ edge).TakesOnly before
      (s ++ modifier.space ++ modifier.name) rest := by
    refine fun before => takesOnly_phrase_edge ((takes_modifier hw).mpr
      ⟨s ++ modifier.space, modifier.name, rfl, ?_, ?_, modifier.spells_name, hrest⟩)
    · exact List.append_ne_nil_of_right_ne_nil _ modifier.space_ne
    · exact List.forall_mem_append.mpr ⟨hs, modifier.space_blank⟩
  have hne : s ++ modifier.space ++ modifier.name ≠ [] := by
    simp [modifier.space_ne]
  have hplain : (letters (' ' :: w.toList) ++ edge).isPlain :=
    Bool.and_eq_true_iff.mpr ⟨isPlain_letters _, rfl⟩
  change (letters (' ' :: w.toList) ++ edge).replaceFrom (fun _ => "".toList) none 0 _ = _
  rw [replaceFrom_of_passes hfront, hshape, replaceFrom_match ((htakes _).head?_ends hplain rfl)
    (by simp [Cursor.advance, Cursor.start]) hne,
    replaceFrom_modifier_eq_self hw fun h => hnone h.hasWord]
  rfl

/-- The types that integers become are words. -/
theorem isWord_of_mem_target : ∀ target ∈ integerTargets, ∀ c ∈ target.toList, isWord c := by
  decide

/-- **Both modifiers go**, and with them the blanks before them. -/
theorem foldl_modifierChanges {target : String} {tail : Text} (htarget : target ∈ integerTargets)
    (hs : ∀ c ∈ s, isBlank c) (htail : tail ∈ columnTails)
    (sign : Option (SpacedWord "UNSIGNED")) (zero : Option (SpacedWord "ZEROFILL")) :
    modifierChanges.foldl (fun code change => change.apply code)
      (target.toList ++
        (s ++ (sign.elim [] SpacedWord.text ++ (zero.elim [] SpacedWord.text ++ tail)))) =
      target.toList ++ ((if sign.isSome || zero.isSome then [] else s) ++ tail) := by
  have hword := isWord_of_mem_target target htarget
  have hend := ending_of_mem_columnTails htail
  have hzero : isKeyword "ZEROFILL".toList := by decide
  have hsign : isKeyword "UNSIGNED".toList := by decide
  have hnoZero : ¬ HasWord "ZEROFILL".toList tail := not_hasWord_tail htail _ (by decide)
  have hnoSign : ¬ HasWord "UNSIGNED".toList tail := not_hasWord_tail htail _ (by decide)
  have hblank : ∀ c ∈ s, isWord c = false := fun c hc => Text.isWord_eq_false_of_isBlank (hs c hc)
  -- Without `ZEROFILL`, only `UNSIGNED` is left to take away.
  have hfirst : (eraseModifier "ZEROFILL").apply
      (target.toList ++
        (s ++ (sign.elim [] SpacedWord.text ++ (zero.elim [] SpacedWord.text ++ tail)))) =
      target.toList ++
        ((if zero.isSome && sign.isNone then [] else s) ++
        (sign.elim [] SpacedWord.text ++ tail)) := by
    cases zero with
    | none =>
      refine apply_eraseModifier_eq_self hzero (not_hasWord_target htarget (by decide) ?_ ?_)
      · exact (hend.modifier sign (by decide)).blanks hs
      · rw [Text.hasWord_append_iff hzero hblank]
        exact fun h =>
          hnoZero ((hasWord_modifier_append sign (by decide) hzero (by decide) hend.head).mp h)
    | some zero =>
      cases sign with
      | none =>
        exact apply_eraseModifier hzero zero hs hend.head hnoZero
          (passes_modifier_word hzero hword)
      | some sign =>
        have hletters := isWord_of_spells hsign sign.spells_name
        have hpasses : (letters (' ' :: "ZEROFILL".toList) ++ edge).Passes none
            (target.toList ++ (s ++ sign.space ++ sign.name)) ([] ++ (zero.text ++ tail)) := by
          refine passes_append.mpr ⟨passes_modifier_word hzero hword, passes_append.mpr
            ⟨passes_modifier_blanks hzero (List.forall_mem_append.mpr ⟨hs, sign.space_blank⟩)
              ?_, passes_modifier_word hzero hletters.2⟩⟩
          rw [Text.dropWhile_word_append hletters.1 hletters.2, List.nil_append,
            Text.startsWord_append_iff hzero hletters.2 zero.head_text_append,
            spells_eq_false sign.spells_name hsign hzero (by decide)]
          decide
        have hgone :=
          apply_eraseModifier hzero zero Text.isBlank_of_mem_nil hend.head hnoZero hpasses
        simpa [SpacedWord.text] using hgone
  rw [modifierChanges_eq, List.foldl_cons, hfirst, List.foldl_cons, List.foldl_nil]
  cases sign with
  | none =>
    refine (apply_eraseModifier_eq_self hsign
      (not_hasWord_target htarget (by decide) ?_ ?_)).trans ?_
    · split
      · exact hend
      · exact hend.blanks hs
    · split
      · exact hnoSign
      · exact fun h => hnoSign ((Text.hasWord_append_iff hsign hblank).mp h)
    · cases zero <;> rfl
  | some sign =>
    have hgone :=
      apply_eraseModifier hsign sign hs hend.head hnoSign (passes_modifier_word hsign hword)
    simpa using hgone

/-! ## The table -/

/-- The first change that finds the type decides, if those before it leave the text and all
others leave what it makes. -/
theorem foldl_wordTable {k : Nat} {row : List String × Change} (hrow : wordTable[k]? = some row)
    {t' : Text} (hfront : ∀ row ∈ wordTable.take k, row.2.apply t = t) (hat : row.2.apply t = t')
    (hback : ∀ row ∈ wordTable, row.2.apply t' = t') :
    (wordTable.map Prod.snd).foldl (fun code change => change.apply code) t = t' := by
  have hsplit : wordTable = wordTable.take k ++ row :: wordTable.drop (k + 1) := by
    obtain ⟨hk, rfl⟩ := List.getElem?_eq_some_iff.mp hrow
    rw [List.getElem_cons_drop, List.take_append_drop]
  have hfront' : ∀ change ∈ (wordTable.take k).map Prod.snd, change.apply t = t := by
    intro change hchange
    obtain ⟨row, hrow, rfl⟩ := List.mem_map.mp hchange
    exact hfront row hrow
  have hback' : ∀ change ∈ (wordTable.drop (k + 1)).map Prod.snd, change.apply t' = t' := by
    intro change hchange
    obtain ⟨row, hrow, rfl⟩ := List.mem_map.mp hchange
    exact hback row (List.mem_of_mem_drop hrow)
  rw [hsplit, List.map_append, List.map_cons, List.foldl_append, List.foldl_cons,
    foldl_eq_self hfront', hat, foldl_eq_self hback']

/-- What holds of the first rows of the table and of the next holds of one more. -/
theorem forall_mem_take_succ {k : Nat} {row : List String × Change}
    {P : List String × Change → Prop}
    (hrow : wordTable[k]? = some row) (hfront : ∀ row ∈ wordTable.take k, P row) (hat : P row) :
    ∀ row ∈ wordTable.take (k + 1), P row := by
  rw [List.take_add_one, hrow]
  exact List.forall_mem_append.mpr ⟨hfront, by simpa using hat⟩

namespace IntegerColumn

variable (c : IntegerColumn)

theorem trail_blank : ∀ d ∈ c.trail, isBlank d := by
  unfold trail
  cases c.width with
  | none => exact Text.isBlank_of_mem_nil
  | some width => exact width.trail_blank

theorem ending_closing : Ending c.closing :=
  (ending_of_mem_columnTails c.tail_mem).modifier c.zerofill (by decide)

theorem ending_ending : Ending c.ending :=
  (c.ending_closing.modifier c.unsigned (by decide)).blanks c.trail_blank

theorem not_hasWord_unsigned_closing : ¬ HasWord "UNSIGNED".toList c.closing := by
  unfold closing
  rw [hasWord_modifier_append c.zerofill (by decide) (by decide) (by decide)
    (ending_of_mem_columnTails c.tail_mem).head]
  exact not_hasWord_tail c.tail_mem "UNSIGNED" (by decide)

/-- Without a sign there is none behind the type. -/
theorem not_hasWord_unsigned_ending (hsign : c.unsigned = none) :
    ¬ HasWord "UNSIGNED".toList c.ending := by
  unfold ending
  rw [hsign, Text.hasWord_append_iff (by decide)
    fun d hd => Text.isWord_eq_false_of_isBlank (c.trail_blank d hd)]
  exact c.not_hasWord_unsigned_closing

theorem isKeyword_word (type : IntegerType) : isKeyword type.word.toList := by
  cases type <;> decide

/-- A word that is not behind the type, and not the type itself, is not in the column. -/
theorem not_hasWord_text {v : String} (hv : isKeyword v.toList)
    (hfirst : v.toList.head?.any Text.isNameStart)
    (hne : c.type.word.toList.map Char.toLower ≠ v.toList.map Char.toLower)
    (hnone : ¬ HasWord v.toList c.ending) : ¬ HasWord v.toList c.text :=
  not_hasWord_typed (isKeyword_word c.type) hv hfirst hne c.spells_name c.width c.ending_ending
    hnone

/-- Changes of other types leave the text. -/
theorem apply_front (k : Nat) (hother : ∀ words ∈ openingWords.take k, ∀ w ∈ words,
    c.type.word.toList.map Char.toLower ≠ w.toList.map Char.toLower) :
    ∀ row ∈ wordTable.take k, row.2.apply c.text = c.text := by
  intro row hrow
  have hmem : row ∈ wordTable := List.mem_of_mem_take hrow
  have hwords : row.1 ∈ openingWords.take k := by
    rw [wordTable, List.zip, List.take_zipWith] at hrow
    exact (List.of_mem_zip hrow).1
  have hfirst : ∀ words ∈ openingWords, ∀ w ∈ words,
      w.toList.head?.any Text.isNameStart := by decide
  have hmem' : row.1 ∈ openingWords := List.mem_of_mem_take hwords
  refine apply_row_eq_self hmem fun w hw => ?_
  exact c.not_hasWord_text (isKeyword_of_mem_openingWords row.1 hmem' w hw)
    (hfirst row.1 hmem' w hw) (hother row.1 hwords w hw) (c.ending_ending.words row.1 hmem' w hw)

theorem exists_spells (hword : c.type.word ∈ words) : ∃ w ∈ words, spells w.toList c.name :=
  ⟨c.type.word, hword, c.spells_name⟩

/-- A change of a type with its width keeps what follows. -/
theorem apply_typeWidth_text (target : String) (hwords : words ∈ openingWords)
    (hword : c.type.word ∈ words) :
    (Change.into target (typeWord words ++ ColumnType.width)).apply c.text =
      target.toList ++ c.ending :=
  apply_typeWidth target hwords (c.exists_spells hword) c.width c.ending_ending

/-- A change that wants the sign takes it. -/
theorem apply_unsigned_text (target : String) (hwords : words ∈ openingWords)
    (hword : c.type.word ∈ words) (hsign : c.unsigned.isSome) {sign : Pattern}
    (hpattern : sign = ColumnType.unsigned ∨ sign = Pattern.optional ColumnType.unsigned) :
    (Change.into target (typeWord words ++ ColumnType.width ++ sign)).apply c.text =
      target.toList ++ c.closing := by
  obtain ⟨modifier, hmodifier⟩ := Option.isSome_iff_exists.mp hsign
  have hshape : c.ending = c.trail ++ modifier.space ++ modifier.name ++ c.closing := by
    simp [ending, hmodifier, SpacedWord.text]
  have htakes : ∀ before, ColumnType.unsigned.TakesOnly before
      (c.trail ++ modifier.space ++ modifier.name) c.closing := by
    refine fun before => takesOnly_phrase_edge ((takes_modifier (by decide)).mpr
      ⟨c.trail ++ modifier.space, modifier.name, rfl, ?_, ?_, modifier.spells_name,
        c.ending_closing.head⟩)
    · exact List.append_ne_nil_of_right_ne_nil _ modifier.space_ne
    · exact List.forall_mem_append.mpr ⟨c.trail_blank, modifier.space_blank⟩
  have hend := c.ending_ending
  rw [text]
  rw [hshape] at hend ⊢
  refine apply_typeSign target hwords (c.exists_spells hword) c.width hend c.ending_closing
    fun d hd => ?_
  have hends : (ColumnType.unsigned.ends d).head? = _ := (htakes d.before).head?_ends rfl hd
  rcases hpattern with rfl | rfl
  · exact hends
  · exact head?_ends_optional_of_some hends

/-- A change that takes the sign if there is one keeps what follows if there is none. -/
theorem apply_optional_text (target : String) (hwords : words ∈ openingWords)
    (hword : c.type.word ∈ words) (hsign : c.unsigned = none) :
    (Change.into target
      (typeWord words ++ ColumnType.width ++ Pattern.optional ColumnType.unsigned)).apply
      c.text = target.toList ++ c.ending := by
  refine apply_typeSign (u := []) target hwords (c.exists_spells hword) c.width c.ending_ending
    c.ending_ending fun d hd => ?_
  exact head?_ends_optional (hd ▸ not_fits_unsigned (c.not_hasWord_unsigned_ending hsign))

/-- A change that wants the sign leaves the text if there is none. -/
theorem apply_unsigned_text_eq_self (target : String) (hsign : c.unsigned = none) :
    (Change.into target (a ++ ColumnType.unsigned)).apply c.text = c.text := by
  refine apply_unsigned_eq_self target (c.not_hasWord_text (by decide) (by decide) ?_
    (c.not_hasWord_unsigned_ending hsign))
  cases c.type <;> decide

/-- What is left when the type is settled: the sign goes with the name, unless the type is a truth
value. -/
def settled : Text :=
  if c.unsigned.isSome && c.target != "BOOLEAN" then c.closing else c.ending

variable {c} {k : Nat} {row : List String × Change} {target : String}

/-- **The changes before and after the one that takes the type** do nothing, if it keeps
what follows the type. -/
theorem foldl_of_ending (hrow : wordTable[k]? = some row) (htarget : c.target = target)
    (hmem : target ∈ integerTargets) (hkeep : target = "BOOLEAN" ∨ c.unsigned = none)
    (hfront : ∀ row ∈ wordTable.take k, row.2.apply c.text = c.text)
    (hat : row.2.apply c.text = target.toList ++ c.ending) :
    (wordTable.map Prod.snd).foldl (fun code change => change.apply code) c.text =
      c.target.toList ++ c.settled := by
  have hsettled : c.settled = c.ending := by
    rcases hkeep with hbool | hsign
    · simp [settled, htarget, hbool]
    · simp [settled, hsign]
  rw [htarget, hsettled]
  exact foldl_wordTable hrow hfront hat
    (apply_settled hmem c.ending_ending (hkeep.imp_right c.not_hasWord_unsigned_ending))

/-- The same holds if it takes the sign along. -/
theorem foldl_of_closing (hrow : wordTable[k]? = some row) (htarget : c.target = target)
    (hmem : target ∈ integerTargets) (hwider : target ≠ "BOOLEAN") (hsign : c.unsigned.isSome)
    (hfront : ∀ row ∈ wordTable.take k, row.2.apply c.text = c.text)
    (hat : row.2.apply c.text = target.toList ++ c.closing) :
    (wordTable.map Prod.snd).foldl (fun code change => change.apply code) c.text =
      c.target.toList ++ c.settled := by
  have hsettled : c.settled = c.closing := by simp [settled, htarget, hsign, hwider]
  rw [htarget, hsettled]
  exact foldl_wordTable hrow hfront hat
    (apply_settled hmem c.ending_closing (.inr c.not_hasWord_unsigned_closing))

variable (c)

/-- **The deciding change.** Before modifiers are taken away, the type of the table stands in
place of the name and the width. -/
theorem foldl_wordTable_text :
    (wordTable.map Prod.snd).foldl (fun code change => change.apply code) c.text =
      c.target.toList ++ c.settled := by
  have hsigns : c.unsigned = none ∨ c.unsigned.isSome := by
    cases c.unsigned with
    | none => exact Or.inl rfl
    | some modifier => exact Or.inr rfl
  cases htype : c.type with
  | tinyint =>
    have hname : spells c.type.word.toList c.name := c.spells_name
    rw [htype] at hname
    have hword : c.type.word ∈ ["TINYINT"] := by simp [htype, IntegerType.word]
    by_cases hflag : c.isFlag
    · obtain ⟨width, hwidth, hone⟩ := (Option.any_eq_true _ _).mp hflag
      have htarget : c.target = "BOOLEAN" := by
        simp [IntegerColumn.target, htype, IntegerType.target, hflag]
      refine foldl_of_ending (k := 0) rfl htarget (by decide) (.inl rfl) (by simp) ?_
      rw [text, hwidth]
      exact apply_flag hname width (by simpa using hone) c.ending_ending
    · have hflag' : c.isFlag = false := by simpa using hflag
      have htarget : c.target = "SMALLINT" := by
        simp [IntegerColumn.target, htype, IntegerType.target, hflag']
      have hfirst : ∀ row ∈ wordTable.take 1, row.2.apply c.text = c.text :=
        forall_mem_take_succ (k := 0) rfl (by simp)
          (apply_flag_eq_self hname c.width hflag' c.ending_ending)
      rcases hsigns with hsign | hsign
      · exact foldl_of_ending (k := 2) rfl htarget (by decide) (.inr hsign)
          (forall_mem_take_succ (k := 1) rfl hfirst
            (c.apply_unsigned_text_eq_self "SMALLINT" hsign))
          (c.apply_typeWidth_text "SMALLINT" (by decide) hword)
      · exact foldl_of_closing (k := 1) rfl htarget (by decide) (by decide) hsign hfirst
          (c.apply_unsigned_text "SMALLINT" (by decide) hword hsign (.inl rfl))
  | smallint =>
    have hword : c.type.word ∈ ["SMALLINT"] := by simp [htype, IntegerType.word]
    have hfront := c.apply_front 3 (by rw [htype]; decide)
    rcases hsigns with hsign | hsign
    · exact foldl_of_ending (k := 4) rfl
        (by simp [IntegerColumn.target, htype, IntegerType.target, hsign]) (by decide)
        (.inr hsign)
        (forall_mem_take_succ (k := 3) rfl hfront (c.apply_unsigned_text_eq_self "INTEGER" hsign))
        (c.apply_typeWidth_text "SMALLINT" (by decide) hword)
    · exact foldl_of_closing (k := 3) rfl
        (by simp [IntegerColumn.target, htype, IntegerType.target, hsign]) (by decide)
        (by decide) hsign
        hfront (c.apply_unsigned_text "INTEGER" (by decide) hword hsign (.inl rfl))
  | mediumint =>
    have hword : c.type.word ∈ ["MEDIUMINT"] := by simp [htype, IntegerType.word]
    have htarget : c.target = "INTEGER" := by
      simp [IntegerColumn.target, htype, IntegerType.target]
    have hfront := c.apply_front 5 (by rw [htype]; decide)
    rcases hsigns with hsign | hsign
    · exact foldl_of_ending (k := 5) rfl htarget (by decide) (.inr hsign) hfront
        (c.apply_optional_text "INTEGER" (by decide) hword hsign)
    · exact foldl_of_closing (k := 5) rfl htarget (by decide) (by decide) hsign hfront
        (c.apply_unsigned_text "INTEGER" (by decide) hword hsign (.inr rfl))
  | int | integer =>
    have hword : c.type.word ∈ ["INT", "INTEGER"] := by simp [htype, IntegerType.word]
    have hfront := c.apply_front 6 (by rw [htype]; decide)
    rcases hsigns with hsign | hsign
    · exact foldl_of_ending (k := 7) rfl
        (by simp [IntegerColumn.target, htype, IntegerType.target, hsign]) (by decide)
        (.inr hsign)
        (forall_mem_take_succ (k := 6) rfl hfront (c.apply_unsigned_text_eq_self "BIGINT" hsign))
        (c.apply_typeWidth_text "INTEGER" (by decide) hword)
    · exact foldl_of_closing (k := 6) rfl
        (by simp [IntegerColumn.target, htype, IntegerType.target, hsign]) (by decide)
        (by decide) hsign
        hfront (c.apply_unsigned_text "BIGINT" (by decide) hword hsign (.inl rfl))
  | bigint =>
    have hword : c.type.word ∈ ["BIGINT"] := by simp [htype, IntegerType.word]
    have htarget : c.target = "BIGINT" := by
      simp [IntegerColumn.target, htype, IntegerType.target]
    have hfront := c.apply_front 8 (by rw [htype]; decide)
    rcases hsigns with hsign | hsign
    · exact foldl_of_ending (k := 8) rfl htarget (by decide) (.inr hsign) hfront
        (c.apply_optional_text "BIGINT" (by decide) hword hsign)
    · exact foldl_of_closing (k := 8) rfl htarget (by decide) (by decide) hsign hfront
        (c.apply_unsigned_text "BIGINT" (by decide) hword hsign (.inr rfl))

theorem target_mem : c.target ∈ integerTargets := by
  unfold IntegerColumn.target
  cases c.type <;> cases c.isFlag <;> cases c.unsigned.isSome <;> decide

end IntegerColumn

/-- **Integer types follow the table.** However an integer type is written, with or without a
width, a sign and `ZEROFILL`, the changes together put the type of the table in its place and
leave what follows in the column.  Blanks behind the width stay unless a modifier stands
behind them. -/
theorem mapTypes_integerColumn (c : IntegerColumn) :
    mapTypes c.text = c.target.toList ++ (c.kept ++ c.tail) := by
  have hsplit : mapTypes c.text = modifierChanges.foldl (fun code change => change.apply code)
      (c.target.toList ++ c.settled) := by
    rw [← c.foldl_wordTable_text, ← List.foldl_append, ← changes_eq]
    rfl
  rw [hsplit]
  unfold IntegerColumn.settled
  split
  · next hgone =>
    -- The sign is gone with the blanks before it.
    have hsign : c.unsigned.isSome := (Bool.and_eq_true_iff.mp hgone).1
    have hfold :=
      foldl_modifierChanges c.target_mem Text.isBlank_of_mem_nil c.tail_mem none c.zerofill
    simpa [IntegerColumn.kept, IntegerColumn.closing, hsign] using hfold
  · exact foldl_modifierChanges c.target_mem c.trail_blank c.tail_mem c.unsigned c.zerofill

/-- A type with a width, both modifiers and blanks wherever they may stand. -/
def spacedColumn : IntegerColumn where
  type := .int
  name := "Int".toList
  width := some
    { lead := [' '], inner := [' '], number := "11".toList, outer := ['\t'], trail := [' ']
      lead_blank := Text.isBlank_of_mem_space
      inner_blank := Text.isBlank_of_mem_space
      number_ne := by decide
      number_digit := by decide
      outer_blank := Text.isBlank_of_mem_singleton rfl
      trail_blank := Text.isBlank_of_mem_space }
  unsigned := some
    { space := [' '], name := "unsigned".toList
      space_ne := Text.space_ne_nil
      space_blank := Text.isBlank_of_mem_space
      spells_name := by decide }
  zerofill := some
    { space := ['\t'], name := "ZeroFill".toList
      space_ne := List.cons_ne_nil _ _
      space_blank := Text.isBlank_of_mem_singleton rfl
      spells_name := by decide }
  tail := " NOT NULL,".toList
  spells_name := by decide
  tail_mem := by decide

/-- With a sign the type is the wider one, and all blanks of the old one go with it. -/
theorem mapTypes_integerColumn_spacedColumn :
    spacedColumn.text = "Int ( 11\t)  unsigned\tZeroFill NOT NULL,".toList ∧
      mapTypes spacedColumn.text = "BIGINT NOT NULL,".toList :=
  ⟨by decide, (mapTypes_integerColumn spacedColumn).trans (by decide)⟩

/-- Blanks behind the width of a type without modifiers stay. -/
theorem mapTypes_keeps_blank_behind_width :
    mapTypes "int(11) ,".toList = "INTEGER ,".toList ∧
      "INTEGER ,".toList ≠ "INTEGER".toList ++ ",".toList := by
  decide +kernel

end DumpBridge.ColumnType
