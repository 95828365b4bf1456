import DumpBridge.Proofs.Text.Pattern
import Mathlib.Data.List.Chain

/-!
# Patterns of words

A phrase is words with gaps between them.  Each word takes just the texts that
spell it (`takes_letters`), and a text spells at most one keyword
(`map_toLower_eq_of_spells`).  So a line whose first word is known can match
only the patterns that begin with that word.
-/

namespace DumpBridge.Text.Pattern

variable {a b : Pattern} {before : Option Char} {x t rest : Text}

/-- Whether the text has the letters of the word, in any case. -/
def spells : Text → Text → Bool
  | [], [] => true
  | a :: word, c :: t => sameLetter a c && spells word t
  | _, _ => false

/-- The pattern of a phrase, letter by letter. -/
def letters (word : Text) : Pattern :=
  word.foldr (fun c p => (if c = ' ' then gap else one (sameLetter c)) ++ p) nothing

theorem phrase_eq_letters (s : String) : phrase s = letters s.toList := rfl

/-- A word without blanks takes just its own letters. -/
theorem takes_letters {word : Text} (hword : ' ' ∉ word) :
    (letters word).Takes before x rest ↔ spells word x := by
  induction word generalizing before x with
  | nil =>
    cases x with
    | nil | cons c x => simp [letters, Takes, spells]
  | cons a word ih =>
    obtain ⟨ha, hword⟩ := not_or.mp (List.mem_cons.not.mp hword)
    have hletters : letters (a :: word) = one (sameLetter a) ++ letters word := by
      simp [letters, Ne.symm ha]
    rw [hletters, takes_append]
    cases x with
    | nil => simp [Takes, spells]
    | cons c x =>
      constructor
      · rintro ⟨_, z, hx, ⟨d, rfl, hd⟩, hz⟩
        obtain ⟨rfl, rfl⟩ := List.cons.inj hx
        simp [spells, hd, (ih hword).mp hz]
      · intro h
        rw [spells, Bool.and_eq_true] at h
        exact ⟨[c], x, rfl, ⟨c, rfl, h.1⟩, (ih hword).mpr h.2⟩

/-- A phrase takes its parts one after the other. -/
theorem takes_letters_append {word other : Text} :
    (letters (word ++ other)).Takes before x rest ↔
      (letters word ++ letters other).Takes before x rest := by
  induction word generalizing before x with
  | nil =>
    rw [takes_append]
    constructor
    · exact fun h => ⟨[], x, rfl, rfl, by simpa using h⟩
    · rintro ⟨_, _, rfl, rfl, h⟩
      simpa using h
  | cons a word ih =>
    have hcons : ∀ w : Text, letters (a :: w) =
        (if a = ' ' then gap else one (sameLetter a)) ++ letters w := fun w => rfl
    rw [List.cons_append, hcons, hcons]
    simp only [takes_append, ih]
    constructor
    · rintro ⟨y, _, rfl, hy, z, w, rfl, hz, hw⟩
      refine ⟨y ++ z, w, by simp, ⟨y, z, rfl, by simpa using hy, hz⟩, ?_⟩
      rwa [List.getLast?_append, Option.or_assoc]
    · rintro ⟨_, w, rfl, ⟨y, z, rfl, hy, hz⟩, hw⟩
      refine ⟨y, z ++ w, by simp, by simpa using hy, z, w, rfl, hz, ?_⟩
      rwa [List.getLast?_append, Option.or_assoc] at hw

theorem sameLetter_self (a : Char) : sameLetter a a := by
  simp [sameLetter]

/-- A phrase in which no blank follows another takes itself. -/
theorem takes_letters_self {word : Text}
    (hword : word.IsChain fun a b => isBlank a = true → isBlank b = false)
    (hrest : rest.head?.any isBlank = false) : (letters word).Takes before word rest := by
  induction word generalizing before with
  | nil => rfl
  | cons a word ih =>
    have hnext : (word ++ rest).head?.any isBlank → isBlank a = false := by
      cases word with
      | nil => simp [hrest]
      | cons b word =>
        have hab := (List.isChain_cons_cons.mp hword).1
        grind
    refine ⟨[a], word, rfl, ?_, ih hword.tail⟩
    by_cases ha : a = ' '
    · subst ha
      have hspace : isBlank ' ' := by decide
      simp [takes_gap]
      grind
    · simp [ha, Takes, sameLetter_self]

/-- A word in front of a pattern. -/
theorem fits_word_append {w : Text} (hw : ' ' ∉ w) : (letters w ++ a).Fits before t ↔
    ∃ y m, t = y ++ m ∧ spells w y ∧ a.Fits (y.getLast?.or before) m := by
  simp only [fits_append, takes_letters hw]

/-- A gap in front of a pattern. -/
theorem fits_gap_append : (gap ++ a).Fits before t ↔
    ∃ y m, t = y ++ m ∧ (y ≠ [] ∧ (∀ c ∈ y, isBlank c) ∧ m.head?.any isBlank = false) ∧
      a.Fits (y.getLast?.or before) m := by
  simp only [fits_append, takes_gap]

/-- The gap before a solid character leads there. -/
theorem exists_fits_of_fits_gap {space : Text} (hspace : ∀ c ∈ space, isBlank c)
    (ht : t.head?.any isBlank = false) (h : (gap ++ a).Fits before (space ++ t)) :
    ∃ before, a.Fits before t := by
  obtain ⟨y, m, hsplit, ⟨-, hy, hm⟩, hfits⟩ := fits_gap_append.mp h
  obtain ⟨rfl, rfl⟩ := span_inj hspace hy ht hm hsplit
  exact ⟨_, hfits⟩

/-- The first word of a phrase in front of a pattern, and the gap after it. -/
theorem fits_phrase_append {w v : Text} (hw : ' ' ∉ w) :
    (letters (w ++ ' ' :: v) ++ a).Fits before t ↔
      ∃ y m, t = y ++ m ∧ spells w y ∧
        (gap ++ (letters v ++ a)).Fits (y.getLast?.or before) m := by
  have hsplit : (letters (w ++ ' ' :: v) ++ a).Fits before t ↔
      ((letters w ++ letters (' ' :: v)) ++ a).Fits before t := by
    simp only [fits_append, takes_letters_append]
  have hspace : letters (' ' :: v) = gap ++ letters v := rfl
  rw [hsplit, fits_append_assoc, hspace, fits_word_append hw]
  simp only [fits_append_assoc]

theorem fits_letters {word : Text} (hword : ' ' ∉ word) :
    (letters word).Fits before t ↔ ∃ y m, t = y ++ m ∧ spells word y := by
  simp only [Fits, takes_letters hword]

/-- Two words of a phrase, and the gap between them. -/
theorem fits_letters_pair {w v : Text} :
    (letters (w ++ ' ' :: v)).Fits before t ↔
      (letters w ++ (gap ++ letters v)).Fits before t := by
  simp only [Fits, takes_letters_append]
  rfl

theorem fits_phrase_split {w v : Text} (hw : ' ' ∉ w) :
    (letters (w ++ ' ' :: v) ++ a).Fits before t ↔
      (letters w ++ (gap ++ (letters v ++ a))).Fits before t := by
  rw [fits_phrase_append hw, fits_word_append hw]

/-- Blanks in front of a pattern. -/
theorem fits_blanks_append {lead : Text} (hlead : ∀ c ∈ lead, isBlank c)
    (ht : t.head?.any isBlank = false) :
    (blanks ++ a).Fits before (lead ++ t) ↔ a.Fits (lead.getLast?.or before) t := by
  rw [fits_append]
  constructor
  · rintro ⟨y, m, hsplit, ⟨hy, hm⟩, hfits⟩
    obtain ⟨rfl, rfl⟩ := span_inj hlead hy ht hm hsplit
    exact hfits
  · exact fun hfits => ⟨lead, t, rfl, ⟨hlead, ht⟩, hfits⟩

/-- An edge in front of a pattern. -/
theorem fits_edge_append : (edge ++ a).Fits before t ↔
    before.any isWord ≠ t.head?.any isWord ∧ a.Fits before t := by
  rw [fits_append]
  constructor
  · rintro ⟨_, m, rfl, ⟨rfl, hedge⟩, hfits⟩
    exact ⟨hedge, by simpa using hfits⟩
  · rintro ⟨hedge, hfits⟩
    exact ⟨[], t, rfl, ⟨rfl, hedge⟩, by simpa using hfits⟩

/-- One of some patterns in front of another. -/
theorem fits_anyOf_append {ps : List Pattern} :
    (anyOf ps ++ a).Fits before t ↔ ∃ p ∈ ps, (p ++ a).Fits before t := by
  simp only [fits_append, takes_anyOf]
  grind

/-- One of some phrases in front of a pattern. -/
theorem fits_anyPhrase_append {phrases : List String} :
    (anyPhrase phrases ++ a).Fits before t ↔
      ∃ w ∈ phrases, (letters w.toList ++ a).Fits before t := by
  rw [anyPhrase, fits_anyOf_append]
  constructor
  · rintro ⟨_, hp, hfits⟩
    obtain ⟨w, hw, rfl⟩ := List.mem_map.mp hp
    exact ⟨w, hw, hfits⟩
  · rintro ⟨w, hw, hfits⟩
    exact ⟨phrase w, List.mem_map_of_mem hw, hfits⟩

/-- An optional pattern in front of another. -/
theorem fits_optional_append :
    (optional a ++ b).Fits before t ↔ (a ++ b).Fits before t ∨ b.Fits before t := by
  simp only [fits_append, takes_optional]
  constructor
  · rintro ⟨y, m, rfl, hy | rfl, hm⟩
    · exact Or.inl ⟨y, m, rfl, hy, hm⟩
    · exact Or.inr (by simpa using hm)
  · rintro (⟨y, m, rfl, hy, hm⟩ | hm)
    · exact ⟨y, m, rfl, Or.inl hy, hm⟩
    · exact ⟨[], t, rfl, Or.inr rfl, by simpa using hm⟩

/-- One of two patterns in front of another. -/
theorem fits_alt_append {c : Pattern} :
    (alt a b ++ c).Fits before t ↔ (a ++ c).Fits before t ∨ (b ++ c).Fits before t := by
  simp only [fits_append, Takes]
  grind

theorem fits_capture_append {slot : Nat} :
    (capture slot a ++ b).Fits before t ↔ (a ++ b).Fits before t := Iff.rfl

/-- No words in front of a pattern. -/
theorem fits_nil_append : (letters [] ++ a).Fits before t ↔ a.Fits before t := by
  rw [fits_word_append (by simp)]
  constructor
  · rintro ⟨y, m, rfl, hy, hm⟩
    cases y with
    | nil => simpa using hm
    | cons c y => simp [spells] at hy
  · exact fun hm => ⟨[], t, rfl, rfl, by simpa using hm⟩

/-- A word with a gap after it, in front of a pattern. -/
theorem fits_word_gap {w : Text} (hw : ' ' ∉ w) :
    (letters (w ++ [' ']) ++ a).Fits before t ↔ (letters w ++ (gap ++ a)).Fits before t := by
  rw [fits_phrase_split hw]
  simp only [fits_word_append hw, fits_gap_append, fits_nil_append]

/-! ## Letters of keywords -/

/-- Whether a word is made of characters that a keyword may have. -/
def isKeyword (word : Text) : Bool :=
  !word.isEmpty && word.all isKeyChar

theorem not_mem_of_isKeyword {word : Text} (hword : isKeyword word) : ' ' ∉ word := by
  intro hmem
  rw [isKeyword, Bool.and_eq_true, List.all_eq_true] at hword
  exact absurd (hword.2 ' ' hmem) (by decide)

/-- A spelling is as long as the word. -/
theorem length_eq_of_spells {word t : Text} (h : spells word t) :
    t.length = word.length := by
  fun_induction spells word t with
  | case1 => rfl
  | case2 a word c t ih =>
    rw [Bool.and_eq_true] at h
    simp [ih h.2]
  | case3 => simp at h

/-- Marks and digits have no other case. -/
theorem eq_of_spells {word t : Text} (hword : ∀ a ∈ word, a.toNat < 65) (h : spells word t) :
    t = word := by
  fun_induction spells word t with
  | case1 => rfl
  | case2 a word c t ih =>
    obtain ⟨ha, hword⟩ := List.forall_mem_cons.mp hword
    obtain ⟨hsame, hrest⟩ := Bool.and_eq_true_iff.mp h
    rw [eq_of_sameLetter ha hsame, ih hword hrest]
  | case3 => simp at h

/-- The spelling of a keyword is a word. -/
theorem isWord_of_spells {word t : Text} (hword : isKeyword word)
    (h : spells word t) : t ≠ [] ∧ ∀ c ∈ t, isWord c := by
  rw [isKeyword, Bool.and_eq_true, List.all_eq_true] at hword
  obtain ⟨hne, hletters⟩ := hword
  constructor
  · rintro rfl
    have hlength := length_eq_of_spells h
    cases word <;> simp_all
  · clear hne
    fun_induction spells word t with
    | case1 => simp
    | case2 a word c t ih =>
      rw [Bool.and_eq_true] at h
      obtain ⟨ha, hletters⟩ := List.forall_mem_cons.mp hletters
      exact List.forall_mem_cons.mpr ⟨isWord_of_sameLetter ha h.1, ih h.2 hletters⟩
    | case3 => simp at h

/-- A word starts with no blank. -/
theorem head_append_of_isWord {x : Text} (hne : x ≠ []) (hx : ∀ c ∈ x, isWord c) (t : Text) :
    (x ++ t).head?.any isBlank = false := by
  obtain ⟨c, x, rfl⟩ := List.exists_cons_of_ne_nil hne
  simpa using isBlank_eq_false_of_isWord (hx c List.mem_cons_self)

theorem head_append_of_spells {word x : Text} (hword : isKeyword word)
    (h : spells word x) (t : Text) : (x ++ t).head?.any isBlank = false := by
  obtain ⟨hne, hletters⟩ := isWord_of_spells hword h
  exact head_append_of_isWord hne hletters t

/-- Of a word without a `K` or an `S`, only the case can differ. -/
theorem map_toUpper_of_spells {word t : Text}
    (hword : ∀ a ∈ word, a.isUpper ∧ a ≠ 'K' ∧ a ≠ 'S') (h : spells word t) :
    t.map Char.toUpper = word := by
  fun_induction spells word t with
  | case1 => rfl
  | case2 a word c t ih =>
    rw [Bool.and_eq_true] at h
    obtain ⟨⟨ha, hk, hs⟩, hword⟩ := List.forall_mem_cons.mp hword
    rw [List.map_cons, toUpper_eq_of_sameLetter ha hk hs h.1, ih hword h.2]
  | case3 => simp at h

/-- The two letters that fold into ASCII are no letters of keywords. -/
theorem toLower_ne_of_isKeyChar {a : Char} (ha : isKeyChar a) :
    a.toLower ≠ kelvinSign.toLower ∧ a.toLower ≠ longS.toLower := by
  have hlow : a.toLower.toNat < 0x80 := by
    rw [toNat_toLower]
    rw [isKeyChar_iff] at ha
    split <;> omega
  constructor
  · intro h
    rw [h] at hlow
    exact absurd hlow (by decide)
  · intro h
    rw [h] at hlow
    exact absurd hlow (by decide)

/-- Two letters of keywords that match one character are the same letter. -/
theorem toLower_eq_of_sameLetter {a b c : Char} (ha : isKeyChar a)
    (hb : isKeyChar b) (hac : sameLetter a c) (hbc : sameLetter b c) :
    a.toLower = b.toLower := by
  have hfoldA := toLower_ne_of_isKeyChar ha
  have hfoldB := toLower_ne_of_isKeyChar hb
  have hdistinct : kelvinSign ≠ longS := by decide
  simp only [sameLetter, Bool.or_eq_true, Bool.and_eq_true, decide_eq_true_eq] at hac hbc
  grind

/-- **A text spells one keyword** only. -/
theorem map_toLower_eq_of_spells {word other t : Text} (hword : isKeyword word)
    (hother : isKeyword other) (h : spells word t) (h' : spells other t) :
    word.map Char.toLower = other.map Char.toLower := by
  rw [isKeyword, Bool.and_eq_true, List.all_eq_true] at hword hother
  obtain ⟨-, hword⟩ := hword
  obtain ⟨-, hother⟩ := hother
  induction t generalizing word other with
  | nil => cases word <;> cases other <;> simp_all [spells]
  | cons c t ih =>
    cases word with
    | nil => simp [spells] at h
    | cons a word =>
      cases other with
      | nil => simp [spells] at h'
      | cons b other =>
        rw [spells, Bool.and_eq_true] at h h'
        obtain ⟨ha, hword⟩ := List.forall_mem_cons.mp hword
        obtain ⟨hb, hother⟩ := List.forall_mem_cons.mp hother
        rw [List.map_cons, List.map_cons, toLower_eq_of_sameLetter ha hb h.1 h'.1,
          ih h.2 h'.2 hword hother]

/-- A text that spells a keyword spells no other. -/
theorem spells_eq_false {word other t : Text} (h : spells word t)
    (hword : isKeyword word) (hother : isKeyword other)
    (hne : word.map Char.toLower ≠ other.map Char.toLower) : spells other t = false := by
  cases hspells : spells other t with
  | false => rfl
  | true => exact absurd (map_toLower_eq_of_spells hword hother h hspells) hne

/-! ## Texts that leave a word -/

/-- Whether the text has another letter than the word where both have one. -/
def diverges : Text → Text → Bool
  | a :: word, c :: t => !sameLetter a c || diverges word t
  | _, _ => false

/-- Whether two words have different letters where both have one. -/
def apart : Text → Text → Bool
  | a :: word, b :: other => a.toLower != b.toLower || apart word other
  | _, _ => false

/-- **A text that diverges from a word** does not begin with it, whatever follows. -/
theorem not_fits_of_diverges {word t rest : Text} (hword : ' ' ∉ word)
    (h : diverges word t) : ¬ (letters word ++ a).Fits before (t ++ rest) := by
  rw [fits_word_append hword]
  rintro ⟨y, m, hsplit, hspells, -⟩
  clear hword
  induction word generalizing t y with
  | nil => simp [diverges] at h
  | cons b word ih =>
    cases t with
    | nil => simp [diverges] at h
    | cons c t =>
      cases y with
      | nil => simp [spells] at hspells
      | cons d y =>
        obtain ⟨rfl, htail⟩ := List.cons.inj hsplit
        rw [spells, Bool.and_eq_true] at hspells
        rw [diverges, hspells.1] at h
        exact ih (by simpa using h) y htail hspells.2

/-- A text that spells a word diverges from every word apart from it. -/
theorem diverges_of_spells {word other t : Text} (hword : isKeyword word)
    (hother : isKeyword other) (h : spells word t)
    (hapart : apart word other) : diverges other t := by
  rw [isKeyword, Bool.and_eq_true, List.all_eq_true] at hword hother
  obtain ⟨-, hword⟩ := hword
  obtain ⟨-, hother⟩ := hother
  induction t generalizing word other with
  | nil => cases word <;> simp_all [spells, apart]
  | cons c t ih =>
    cases word with
    | nil => simp [spells] at h
    | cons a word =>
      cases other with
      | nil => simp [apart] at hapart
      | cons b other =>
        obtain ⟨ha, hword⟩ := List.forall_mem_cons.mp hword
        obtain ⟨hb, hother⟩ := List.forall_mem_cons.mp hother
        rw [spells, Bool.and_eq_true] at h
        rw [apart, Bool.or_eq_true, bne_iff_ne] at hapart
        rw [diverges, Bool.or_eq_true]
        rcases hapart with hne | hapart
        · left
          rw [Bool.not_eq_true', ← Bool.not_eq_true]
          exact fun hsame => hne (toLower_eq_of_sameLetter ha hb h.1 hsame)
        · exact Or.inr (ih h.2 hapart hword hother)

theorem not_fits_of_apart {word other t rest : Text} (hword : isKeyword word)
    (hother : isKeyword other) (hapart : apart word other)
    (h : spells word t) : ¬ (letters other ++ a).Fits before (t ++ rest) :=
  not_fits_of_diverges (not_mem_of_isKeyword hother) (diverges_of_spells hword hother h hapart)

/-! ## The first word of a text -/

/-- A keyword in front of a pattern that ends a stretch of a class: the keyword is
the whole stretch. -/
theorem fits_keyword_append {p : Char → Bool} {word name : Text}
    (hp : ∀ c, isWord c → p c) (hword : isKeyword word)
    (ha : ∀ last m, isWord last → a.Fits (some last) m → m.head?.any p = false)
    (hname : ∀ c ∈ name, p c) (hrest : rest.head?.any p = false) :
    (letters word ++ a).Fits before (name ++ rest) ↔
      spells word name ∧ a.Fits name.getLast? rest := by
  rw [fits_word_append (not_mem_of_isKeyword hword)]
  have hlast : ∀ y, spells word y →
      ∃ last, isWord last ∧ y.getLast? = some last ∧ y.getLast?.or before = some last := by
    intro y hy
    obtain ⟨hne, hletters⟩ := isWord_of_spells hword hy
    have hsome := List.getLast?_eq_some_getLast hne
    exact ⟨y.getLast hne, hletters _ (List.getLast_mem hne), hsome, by simp [hsome]⟩
  constructor
  · rintro ⟨y, m, hsplit, hy, hfits⟩
    obtain ⟨last, hisWord, hsome, hor⟩ := hlast y hy
    rw [hor] at hfits
    have hletters : ∀ c ∈ y, p c := fun c hc => hp c ((isWord_of_spells hword hy).2 c hc)
    obtain ⟨rfl, rfl⟩ := span_inj hname hletters hrest (ha last m hisWord hfits) hsplit
    exact ⟨hy, by rwa [hsome]⟩
  · rintro ⟨hspells, hfits⟩
    obtain ⟨last, -, hsome, hor⟩ := hlast name hspells
    exact ⟨name, rest, rfl, hspells, by rwa [hor, ← hsome]⟩

/-- Behind a keyword there is an edge just if no letter follows. -/
theorem takes_word_edge {word y : Text} (hword : isKeyword word) (hy : spells word y) :
    edge.Takes (y.getLast?.or before) [] rest ↔ rest.head?.any isWord = false := by
  obtain ⟨hne, hletters⟩ := isWord_of_spells hword hy
  have hlast : isWord (y.getLast hne) := hletters _ (List.getLast_mem hne)
  rw [List.getLast?_eq_some_getLast hne, Takes]
  simp [hlast]

/-- A keyword that ends where a word does. -/
theorem fits_keyword_edge {word : Text} (hword : isKeyword word) :
    (letters word ++ edge).Fits before t ↔
      ∃ y m, t = y ++ m ∧ spells word y ∧ m.head?.any isWord = false := by
  rw [fits_word_append (not_mem_of_isKeyword hword)]
  constructor
  · rintro ⟨y, _, rfl, hy, _, m, rfl, rfl, hedge⟩
    exact ⟨y, m, rfl, hy, (takes_word_edge hword hy).mp ⟨rfl, hedge⟩⟩
  · rintro ⟨y, m, rfl, hy, hm⟩
    exact ⟨y, m, rfl, hy, [], m, rfl, (takes_word_edge hword hy).mpr hm⟩

/-- A gap starts with a blank. -/
theorem isBlank_of_fits_gap (h : (gap ++ a).Fits before t) : t.head?.any isBlank := by
  obtain ⟨y, m, rfl, ⟨hne, hblank, -⟩, -⟩ := fits_gap_append.mp h
  obtain ⟨c, y, rfl⟩ := List.exists_cons_of_ne_nil hne
  simpa using hblank c List.mem_cons_self

/-- A pattern that begins with a keyword and the word `TABLE` looks at the first
stretch of a class, and goes on with a gap. -/
theorem spells_of_fits_table {p : Char → Bool} {keyword lead name : Text}
    (hp : ∀ c, isWord c → p c) (hblank : ∀ c, isBlank c → p c = false)
    (hlead : ∀ c ∈ lead, isBlank c) (hne : name ≠ []) (hname : ∀ c ∈ name, p c)
    (hrest : rest.head?.any p = false) (hkeyword : isKeyword keyword)
    (hfits : (blanks ++ (letters (keyword ++ " TABLE ".toList) ++ a)).Fits none
      (lead ++ (name ++ rest))) :
    spells keyword name ∧
      ∃ q, (gap ++ (letters "TABLE".toList ++ (gap ++ q))).Fits name.getLast? rest := by
  have hhead : (name ++ rest).head?.any isBlank = false := by
    obtain ⟨c, name, rfl⟩ := List.exists_cons_of_ne_nil hne
    have hc := hname c (by simp)
    rw [List.cons_append, List.head?_cons, Option.any_some, ← Bool.not_eq_true]
    exact fun h => by simp [hblank c h] at hc
  have hstop : ∀ last m, isWord last →
      (gap ++ (letters "TABLE ".toList ++ a)).Fits (some last) m → m.head?.any p = false := by
    intro last m _ hm
    have hm := isBlank_of_fits_gap hm
    cases m with
    | nil => rfl
    | cons c m => simpa using hblank c (by simpa using hm)
  have htable : ∀ before t, (letters ("TABLE".toList ++ ' ' :: []) ++ a).Fits before t ↔
      (letters "TABLE".toList ++ (gap ++ (letters [] ++ a))).Fits before t :=
    fun _ _ => fits_phrase_split (by decide)
  have hsplit : letters (keyword ++ " TABLE ".toList) =
      letters (keyword ++ ' ' :: "TABLE ".toList) := rfl
  have hsplit' : letters "TABLE ".toList = letters ("TABLE".toList ++ ' ' :: []) := rfl
  rw [fits_blanks_append hlead hhead, hsplit, fits_phrase_split (not_mem_of_isKeyword hkeyword),
    fits_keyword_append hp hkeyword hstop hname hrest, hsplit'] at hfits
  obtain ⟨hspells, hfits⟩ := hfits
  simp only [fits_gap_append, htable] at hfits
  exact ⟨hspells, _, fits_gap_append.mpr hfits⟩

end DumpBridge.Text.Pattern

namespace DumpBridge.Text

open Pattern

/-- `FirstWord line lead word rest`: after the blanks `lead` the line begins with
`word`, and a blank follows. -/
structure FirstWord (line lead word rest : Text) : Prop where
  line_eq : line = lead ++ (word ++ rest)
  lead_blank : ∀ c ∈ lead, isBlank c
  word_ne : word ≠ []
  word_solid : ∀ c ∈ word, isBlank c = false
  rest_blank : rest.head?.any isBlank

variable {line lead word rest : Text}

namespace FirstWord

theorem head_word (h : FirstWord line lead word rest) :
    (word ++ rest).head?.any isBlank = false := by
  obtain ⟨c, word', rfl⟩ := List.exists_cons_of_ne_nil h.word_ne
  simpa using h.word_solid c List.mem_cons_self

/-- A pattern that begins with a keyword and a blank looks at the first word. -/
theorem fits_iff (h : FirstWord line lead word rest) {keyword : Text} {p : Pattern}
    (hkeyword : isKeyword keyword) (hp : ∀ before m, p.Fits before m → m.head?.any isBlank) :
    (letters keyword ++ p).Fits lead.getLast? (word ++ rest) ↔
      spells keyword word ∧ p.Fits word.getLast? rest := by
  refine fits_keyword_append (p := fun c => !isBlank c) ?_ hkeyword ?_ ?_ ?_
  · intro c hc
    simp [isBlank_eq_false_of_isWord hc]
  · intro last m _ hfits
    have hblank := hp _ m hfits
    cases m <;> simp_all
  · simpa using h.word_solid
  · have hblank := h.rest_blank
    cases rest <;> simp_all

/-- A phrase of several words looks at the first word and goes on with the gap. -/
theorem fits_phrase_iff (h : FirstWord line lead word rest) {keyword other : Text} {p : Pattern}
    (hkeyword : isKeyword keyword) :
    (letters (keyword ++ ' ' :: other) ++ p).Fits lead.getLast? (word ++ rest) ↔
      spells keyword word ∧ (gap ++ (letters other ++ p)).Fits word.getLast? rest := by
  rw [fits_phrase_split (not_mem_of_isKeyword hkeyword),
    h.fits_iff hkeyword fun _ _ => isBlank_of_fits_gap]

/-- A pattern that begins with a keyword and the word `TABLE` looks at the first
word. -/
theorem spells_of_fits_table (h : FirstWord line lead word rest) {keyword : Text} {p : Pattern}
    (hkeyword : isKeyword keyword)
    (hfits : (blanks ++ (letters (keyword ++ " TABLE ".toList) ++ p)).Fits none line) :
    spells keyword word ∧
      ∃ q, (gap ++ (letters "TABLE".toList ++ (gap ++ q))).Fits word.getLast? rest := by
  have hrest : rest.head?.any (!isBlank ·) = false := by
    have hblank := h.rest_blank
    cases rest <;> simp_all
  rw [h.line_eq] at hfits
  exact Pattern.spells_of_fits_table (fun c hc => by simp [isBlank_eq_false_of_isWord hc])
    (fun c hc => by simp [hc]) h.lead_blank h.word_ne (by simpa using h.word_solid) hrest hkeyword
    hfits

end FirstWord

end DumpBridge.Text
