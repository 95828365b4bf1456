import DumpBridge.Proofs.Text.Words

/-!
# What replacing passes over

A stretch of a text at whose characters no match starts stays as it is
(`replaceFrom_of_passes`).  Most patterns of the converter begin where a word
does, or with the gap before a word (`LeadsTo`).  For such a pattern, blanks and
words are passed over as soon as the pattern does not go on with the words
(`passes_blanks`, `passes_words`).
-/

namespace DumpBridge.Text.Pattern

variable {p a : Pattern} {new : Cursor → Text} {before : Option Char} {x y t : Text}

/-- `p.Passes before x t`: no match starts at a character of `x`, where `t` follows
and `before` stands in front. -/
def Passes (p : Pattern) : Option Char → Text → Text → Prop
  | _, [], _ => True
  | before, c :: x, t => ¬ p.Fits before (c :: (x ++ t)) ∧ p.Passes (some c) x t

theorem getLast?_cons_or (c : Char) (x : Text) (before : Option Char) :
    (c :: x).getLast?.or before = x.getLast?.or (some c) := by
  rw [List.getLast?_cons]
  cases x.getLast? <;> rfl

theorem replaceFrom_cons_of_none (new : Cursor → Text) {c : Char}
    (h : p.matchAfter before (c :: t) = none) :
    p.replaceFrom new before 0 (c :: t) = c :: p.replaceFrom new (some c) 0 t := by
  rw [replaceFrom, h]

theorem replaceFrom_cons_of_not_fits {c : Char} (h : ¬ p.Fits before (c :: t)) :
    p.replaceFrom new before 0 (c :: t) = c :: p.replaceFrom new (some c) 0 t :=
  replaceFrom_cons_of_none new (matchAfter_eq_none_iff.mpr h)

/-- **What is passed over stays.** -/
theorem replaceFrom_of_passes (h : p.Passes before x t) :
    p.replaceFrom new before 0 (x ++ t) =
      x ++ p.replaceFrom new (x.getLast?.or before) 0 t := by
  induction x generalizing before with
  | nil => simp
  | cons c x ih =>
    rw [List.cons_append, replaceFrom_cons_of_not_fits h.1, ih h.2, getLast?_cons_or]
    rfl

/-- A pattern passes over two texts if it passes over each, where it stands. -/
theorem passes_append : p.Passes before (x ++ y) t ↔
    p.Passes before x (y ++ t) ∧ p.Passes (x.getLast?.or before) y t := by
  induction x generalizing before with
  | nil => simp [Passes]
  | cons c x ih =>
    rw [List.cons_append, Passes, Passes, ih, getLast?_cons_or, List.append_assoc, and_assoc]

/-- What a pattern begins with. -/
def first : Pattern → Pattern
  | seq a _ => a.first
  | p => p

/-- A pattern fits only where its first part does. -/
theorem fits_first (h : p.Fits before t) : p.first.Fits before t := by
  fun_induction first p generalizing t with
  | case1 a b ih =>
    obtain ⟨y, m, rfl, hy, -⟩ := fits_append.mp h
    exact ih ⟨y, m, rfl, hy⟩
  | case2 => exact h

/-- A pattern whose matches start with other characters passes over a class. -/
theorem passes_of_head {q : Char → Bool} (hx : ∀ c ∈ x, q c)
    (hp : ∀ before t, p.Fits before t → t.head?.any q = false) : p.Passes before x t := by
  induction x generalizing before with
  | nil => trivial
  | cons c x ih =>
    obtain ⟨hc, hx⟩ := List.forall_mem_cons.mp hx
    refine ⟨fun hfits => ?_, ih hx⟩
    have hhead := hp _ _ hfits
    simp [hc] at hhead

/-- A pattern that does not start inside a word passes over the rest of one. -/
theorem passes_inside (hp : ∀ before t, before.any isWord → t.head?.any isWord → ¬ p.Fits before t)
    (hbefore : before.any isWord) (hx : ∀ c ∈ x, isWord c) :
    p.Passes before x t := by
  induction x generalizing before with
  | nil => trivial
  | cons c x ih =>
    obtain ⟨hc, hx⟩ := List.forall_mem_cons.mp hx
    exact ⟨hp _ _ hbefore (by simpa using hc), ih (by simpa using hc) hx⟩

/-! ## Patterns that begin with a word -/

/-- `p.LeadsTo site`: a match that starts with a blank or a character of a word
starts where a word does, or with blanks up to there, and what follows the blanks
is a `site`. -/
def LeadsTo (p : Pattern) (site : Text → Prop) : Prop :=
  ∀ before t, p.Fits before t → t.head?.any (fun c => isBlank c || isWord c) →
    ∃ s m, t = s ++ m ∧ (∀ c ∈ s, isBlank c) ∧ m.head?.any isBlank = false ∧
      (s = [] → before.any isWord = false) ∧ site m

variable {site : Text → Prop}

/-- A pattern that begins with a gap leads to what follows the gap. -/
theorem leadsTo_gap (hsite : ∀ before m, a.Fits before m → site m) : (gap ++ a).LeadsTo site := by
  intro before t hfits _
  obtain ⟨s, m, rfl, ⟨hne, hs, hm⟩, hfits⟩ := fits_gap_append.mp hfits
  exact ⟨s, m, rfl, hs, hm, fun h => absurd h hne, hsite _ m hfits⟩

/-- A keyword starts with a character of a word. -/
theorem isWord_of_fits_keyword {w : Text} (hw : isKeyword w)
    (h : (letters w ++ a).Fits before t) : t.head?.any isWord := by
  obtain ⟨y, r, rfl, hy, -⟩ := (fits_word_append (not_mem_of_isKeyword hw)).mp h
  obtain ⟨hne, hletters⟩ := isWord_of_spells hw hy
  obtain ⟨c, y, rfl⟩ := List.exists_cons_of_ne_nil hne
  simpa using hletters c List.mem_cons_self

/-- A pattern that begins with a whole word leads to itself. -/
theorem leadsTo_edge (hword : ∀ before m, a.Fits before m → m.head?.any isWord)
    (hsite : ∀ before m, a.Fits before m → site m) : (edge ++ a).LeadsTo site := by
  intro before t hfits _
  obtain ⟨hedge, hfits⟩ := fits_edge_append.mp hfits
  have hhead := hword _ t hfits
  refine ⟨[], t, rfl, by simp, ?_, ?_, hsite _ t hfits⟩
  · cases t with
    | nil => rfl
    | cons c t => simpa using isBlank_eq_false_of_isWord (by simpa using hhead)
  · intro _
    rw [hhead] at hedge
    simpa using hedge

theorem LeadsTo.of_fits {q : Pattern} (h : q.LeadsTo site)
    (hpq : ∀ before t, p.Fits before t → q.Fits before t) : p.LeadsTo site :=
  fun before t hfits => h before t (hpq before t hfits)

/-- A phrase that begins with a gap leads to its words. -/
theorem leadsTo_phrase {w : Text} :
    (letters (' ' :: w) ++ a).LeadsTo fun m => ∃ before, (letters w ++ a).Fits before m :=
  (leadsTo_gap fun before _ hm => ⟨before, hm⟩).of_fits fun _ _ => fits_append_assoc.mp

/-- A whole word leads to itself. -/
theorem leadsTo_keyword {w : Text} (hw : isKeyword w) :
    (edge ++ (letters w ++ a)).LeadsTo fun m => ∃ before, (letters w ++ a).Fits before m :=
  leadsTo_edge (fun _ _ => isWord_of_fits_keyword hw) fun before _ hm => ⟨before, hm⟩

/-- A match that starts with a character of a word starts the word. -/
theorem LeadsTo.start_of_word (h : p.LeadsTo site) (hfits : p.Fits before t)
    (ht : t.head?.any isWord) : before.any isWord = false ∧ site t := by
  cases t with
  | nil => simp at ht
  | cons c t =>
    have hc : isWord c := by simpa using ht
    obtain ⟨s, m, hsplit, hs, -, hstart, hm⟩ := h _ _ hfits (by simp [hc])
    cases s with
    | nil =>
      obtain rfl : c :: t = m := hsplit
      exact ⟨hstart rfl, hm⟩
    | cons d s =>
      obtain ⟨rfl, -⟩ := List.cons.inj hsplit
      have hblank := isBlank_eq_false_of_isWord hc
      simp [hs c List.mem_cons_self] at hblank

theorem LeadsTo.not_fits_inside (h : p.LeadsTo site) (hbefore : before.any isWord)
    (ht : t.head?.any isWord) : ¬ p.Fits before t := by
  intro hfits
  simp [(h.start_of_word hfits ht).1] at hbefore

/-- A word that is no site is passed over. -/
theorem LeadsTo.passes_words (h : p.LeadsTo site) (hx : ∀ c ∈ x, isWord c)
    (hsite : ¬ site (x ++ t)) : p.Passes before x t := by
  cases x with
  | nil => trivial
  | cons c x =>
    obtain ⟨hc, hx⟩ := List.forall_mem_cons.mp hx
    refine ⟨fun hfits => ?_, passes_inside (fun _ _ => h.not_fits_inside) (by simpa using hc) hx⟩
    exact hsite (h.start_of_word hfits (by simpa using hc)).2

/-- Blanks before what is no site are passed over. -/
theorem LeadsTo.passes_blanks (h : p.LeadsTo site) (hx : ∀ c ∈ x, isBlank c)
    (ht : t.head?.any isBlank = false) (hsite : ¬ site t) : p.Passes before x t := by
  induction x generalizing before with
  | nil => trivial
  | cons c x ih =>
    obtain ⟨hc, hx'⟩ := List.forall_mem_cons.mp hx
    refine ⟨fun hfits => ?_, ih hx'⟩
    obtain ⟨s, m, hsplit, hs, hm, -, hsite'⟩ := h _ _ hfits (by simp [hc])
    obtain ⟨-, rfl⟩ := span_inj hx hs ht hm hsplit
    exact hsite hsite'

/-! ## Patterns that end a word -/

/-- `a.Stops`: after a character of a word, matches start with other characters. -/
def Stops (a : Pattern) : Prop :=
  ∀ last m, isWord last → a.Fits (some last) m → m.head?.any isWord = false

/-- A blank is no character of words. -/
theorem not_isWord_of_blank (h : t.head?.any isBlank) : t.head?.any isWord = false := by
  cases t with
  | nil => rfl
  | cons c t => simpa using isWord_eq_false_of_isBlank (by simpa using h)

theorem stops_gap : (gap ++ a).Stops :=
  fun _ _ _ hfits => not_isWord_of_blank (isBlank_of_fits_gap hfits)

theorem stops_edge : edge.Stops := by
  intro last m hlast hfits
  simpa [hlast] using fits_edge.mp hfits

/-- A pattern that begins with a character fits before it only. -/
theorem head?_of_fits_char {c : Char} (hfirst : a.first = char c) (h : a.Fits before t) :
    t.head? = some c := by
  have hhead := fits_first h
  rw [hfirst, char, fits_one] at hhead
  cases t with
  | nil => simp at hhead
  | cons d t => simpa using hhead

/-- Any blanks and then a character that no word has. -/
theorem stops_blanks {c : Char} (hfirst : a.first = char c) (hc : isWord c = false) :
    (blanks ++ a).Stops := by
  intro last m _ hfits
  obtain ⟨y, r, rfl, ⟨hy, -⟩, hfits⟩ := fits_append.mp hfits
  cases y with
  | nil => simpa [head?_of_fits_char hfirst hfits] using hc
  | cons d y => simpa using isWord_eq_false_of_isBlank (hy d List.mem_cons_self)

end DumpBridge.Text.Pattern
