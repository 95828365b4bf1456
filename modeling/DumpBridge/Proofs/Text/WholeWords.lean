import DumpBridge.Proofs.Text.Reach

/-!
# Whole words

A word is whole where no character of a word stands on either side of it
(`HasWord`).  A replacement that starts its matches where words start, or that
takes away a word with the blanks before it, keeps the borders of words
(`KeepsBorders`).  Then a whole word that stands in the result stood in the text
before, at a place where no match starts, unless it starts in what was put in
(`KeepsBorders.exists_word`).

So a word that always starts a match is gone after replacing
(`KeepsBorders.not_hasWord`), and a word that is not there does not come in
(`KeepsBorders.hasWord`).
-/

namespace DumpBridge.Text

open Pattern

/-- The text begins with the word `w`, in any case, and the word ends with its last letter. -/
def StartsWord (w t : Text) : Prop :=
  ∃ y b, t = y ++ b ∧ spells w y ∧ b.head?.any isWord = false

/-- **A whole word**: the letters of `w` in any case, with no character of a word on either side. -/
def HasWord (w t : Text) : Prop :=
  ∃ a b, t = a ++ b ∧ a.getLast?.any isWord = false ∧ StartsWord w b

/-- A whole word with a blank before it. -/
def HasWordAfterBlank (w t : Text) : Prop :=
  ∃ a d b, t = a ++ d :: b ∧ isBlank d ∧ StartsWord w b

variable {w s t y b : Text}

/-- A text that starts with a word starts with a character of words. -/
theorem StartsWord.head (hw : isKeyword w) (h : StartsWord w t) :
    t.head?.any isWord := by
  obtain ⟨y, b, rfl, hy, -⟩ := h
  obtain ⟨hne, hword⟩ := isWord_of_spells hw hy
  obtain ⟨c, y, rfl⟩ := List.exists_cons_of_ne_nil hne
  simpa using hword c List.mem_cons_self

theorem HasWordAfterBlank.hasWord (h : HasWordAfterBlank w t) : HasWord w t := by
  obtain ⟨a, d, b, rfl, hd, hb⟩ := h
  exact ⟨a ++ [d], b, by simp, by simpa using isWord_eq_false_of_isBlank hd, hb⟩

/-- A text that begins with all of a word begins with no other. -/
theorem startsWord_append_iff (hw : isKeyword w) (hs : ∀ c ∈ s, isWord c)
    (ht : t.head?.any isWord = false) : StartsWord w (s ++ t) ↔ spells w s := by
  constructor
  · rintro ⟨y, b, hsplit, hy, hb⟩
    obtain ⟨rfl, -⟩ := span_inj hs (isWord_of_spells hw hy).2 ht hb hsplit
    exact hy
  · exact fun hspells => ⟨s, t, rfl, hspells, ht⟩

/-! ## Words and borders -/

/-- A whole word behind a character that is in no word. -/
theorem hasWord_cons_iff (hw : isKeyword w) {c : Char} (hc : isWord c = false) :
    HasWord w (c :: t) ↔ HasWord w t := by
  constructor
  · rintro ⟨a, b, hsplit, ha, hb⟩
    cases a with
    | nil =>
      obtain rfl : c :: t = b := hsplit
      have hhead := hb.head hw
      simp [hc] at hhead
    | cons d a =>
      obtain ⟨rfl, rfl⟩ := List.cons.inj hsplit
      refine ⟨a, b, rfl, ?_, hb⟩
      cases a with
      | nil => rfl
      | cons e a => simpa [List.getLast?_cons_cons] using ha
  · rintro ⟨a, b, rfl, ha, hb⟩
    refine ⟨c :: a, b, rfl, ?_, hb⟩
    cases a with
    | nil => simpa using hc
    | cons e a => simpa [List.getLast?_cons_cons] using ha

/-- Characters that are in no word make no word. -/
theorem hasWord_append_iff (hw : isKeyword w) (hs : ∀ c ∈ s, isWord c = false) :
    HasWord w (s ++ t) ↔ HasWord w t := by
  induction s with
  | nil => rfl
  | cons c s ih =>
    obtain ⟨hc, hs⟩ := List.forall_mem_cons.mp hs
    rw [List.cons_append, hasWord_cons_iff hw hc, ih hs]

/-- **The first word** of a text, and the words behind it. -/
theorem hasWord_word_append_iff (hw : isKeyword w) (hne : s ≠ [])
    (hs : ∀ c ∈ s, isWord c) (ht : t.head?.any isWord = false) :
    HasWord w (s ++ t) ↔ spells w s ∨ HasWord w t := by
  constructor
  · rintro ⟨a, b, hsplit, ha, hb⟩
    rcases List.append_eq_append_iff.mp hsplit with ⟨a', rfl, rfl⟩ | ⟨s', rfl, rfl⟩
    · -- The word starts behind the first one.
      refine Or.inr ⟨a', b, rfl, ?_, hb⟩
      cases hlast : a'.getLast? with
      | none => rfl
      | some c => simpa [List.getLast?_append, hlast] using ha
    · cases a with
      | nil => exact Or.inl ((startsWord_append_iff hw hs ht).mp hb)
      | cons c a =>
        have hlast : isWord ((c :: a).getLast (by simp)) :=
          hs _ (List.mem_append_left s' (List.getLast_mem _))
        rw [List.getLast?_eq_some_getLast (by simp), Option.any_some, hlast] at ha
        exact absurd ha (by decide)
  · rintro (hspells | ⟨a, b, rfl, ha, hb⟩)
    · exact ⟨[], s ++ t, rfl, rfl, (startsWord_append_iff hw hs ht).mpr hspells⟩
    · refine ⟨s ++ a, b, by simp, ?_, hb⟩
      cases a with
      | nil =>
        -- The text behind the first word does not start with a letter.
        have hhead := hb.head hw
        rw [List.nil_append] at ht
        simp [hhead] at ht
      | cons c a =>
        rw [List.getLast?_append_of_ne_nil _ (by simp)]
        exact ha

/-! ## Words behind blanks -/

/-- Blanks in front of a text do not matter where blanks are dropped. -/
theorem dropWhile_blank_append (hs : ∀ c ∈ s, isBlank c) :
    (s ++ t).dropWhile isBlank = t.dropWhile isBlank := by
  induction s with
  | nil => rfl
  | cons c s ih =>
    obtain ⟨hc, hs⟩ := List.forall_mem_cons.mp hs
    rw [List.cons_append, List.dropWhile_cons_of_pos hc, ih hs]

theorem dropWhile_word_append (hne : y ≠ []) (hy : ∀ c ∈ y, isWord c) :
    (y ++ t).dropWhile isBlank = y ++ t := by
  obtain ⟨c, y, rfl⟩ := List.exists_cons_of_ne_nil hne
  have hc : isBlank c = false := isBlank_eq_false_of_isWord (hy c List.mem_cons_self)
  rw [List.cons_append, List.dropWhile_cons_of_neg (by simp [hc])]

/-- A word in any case, and the blanks before it. -/
structure SpacedWord (word : String) where
  space : Text
  name : Text
  space_ne : space ≠ []
  space_blank : ∀ c ∈ space, isBlank c
  spells_name : spells word.toList name

namespace SpacedWord

variable {word : String} (spaced : SpacedWord word)

def text : Text :=
  spaced.space ++ spaced.name

/-- A word with blanks before it begins with no character of words. -/
theorem head_text_append : (spaced.text ++ t).head?.any isWord = false := by
  obtain ⟨c, space, hspace⟩ := List.exists_cons_of_ne_nil spaced.space_ne
  have hc := spaced.space_blank c (by simp [hspace])
  simpa [text, hspace] using isWord_eq_false_of_isBlank hc

/-- Its first solid character is no parenthesis. -/
theorem solid_text_append (hword : isKeyword word.toList) :
    ((spaced.text ++ t).dropWhile isBlank).head? ≠ some '(' := by
  obtain ⟨hne, hletters⟩ := isWord_of_spells hword spaced.spells_name
  rw [text, List.append_assoc, dropWhile_blank_append spaced.space_blank,
    dropWhile_word_append hne hletters]
  obtain ⟨c, name, hname⟩ := List.exists_cons_of_ne_nil hne
  have hc := hletters c (by simp [hname])
  rw [hname, List.cons_append, List.head?_cons]
  intro heq
  rw [Option.some.inj heq] at hc
  exact absurd hc (by decide)

/-- A space and the word take the word with all blanks before it. -/
theorem takes (hword : isKeyword word.toList) {before : Option Char} :
    (letters (' ' :: word.toList)).Takes before spaced.text t := by
  obtain ⟨hne, hletters⟩ := isWord_of_spells hword spaced.spells_name
  obtain ⟨c, name, hname⟩ := List.exists_cons_of_ne_nil hne
  have hc := isBlank_eq_false_of_isWord (hletters c (by simp [hname]))
  refine ⟨spaced.space, spaced.name, rfl, ?_, (takes_letters (not_mem_of_isKeyword hword)).mpr
    spaced.spells_name⟩
  exact takes_gap.mpr ⟨spaced.space_ne, spaced.space_blank, by simpa [hname] using hc⟩

end SpacedWord

namespace Pattern

variable {p : Pattern} {new : Cursor → Text} {before before' : Option Char}

/-- **Borders of words are kept**: a match starts where a word does and what takes its place ends in
a word, or it starts outside words, is taken away, and no letter follows. -/
def KeepsBorders (p : Pattern) (new : Cursor → Text) : Prop :=
  ∀ before t stop, p.matchAfter before t = some stop → stop.taken ≠ 0 ∧
    (before.any isWord = false ∧ t.head?.any isWord ∧ (new stop).getLast?.any isWord ∨
      t.head?.any isWord = false ∧ new stop = [] ∧ stop.rest.head?.any isWord = false)

/-- Whatever follows, the word does not start in the text. -/
def Spares (w new : Text) : Prop :=
  ∀ a v r, new = a ++ v → v ≠ [] → a.getLast?.any isWord = false → ¬ StartsWord w (v ++ r)

/-- No match is replaced by a text in which the word starts. -/
def Omits (p : Pattern) (new : Cursor → Text) (w : Text) : Prop :=
  ∀ before t stop, p.matchAfter before t = some stop → Spares w (new stop)

/-- Whether a text leaves a word, or goes on with letters behind it. -/
def sparesAt (w v : Text) : Bool :=
  diverges w v || (spells w (v.take w.length) && (v.drop w.length).head?.any isWord)

/-- Whether a text does so at each place where a word starts. -/
def spares (w : Text) : Option Char → Text → Bool
  | _, [] => true
  | before, c :: v => (before.any isWord || sparesAt w (c :: v)) && spares w (some c) v

/-- A text that does not agree with a word starts with another, whatever follows. -/
theorem not_startsWord_of_sparesAt {v : Text} (hw : isKeyword w) (h : sparesAt w v)
    (r : Text) : ¬ StartsWord w (v ++ r) := by
  rintro ⟨y, b, hsplit, hy, hb⟩
  rw [sparesAt, Bool.or_eq_true, Bool.and_eq_true] at h
  rcases h with hleaves | ⟨hspells, hmore⟩
  · have hsolid := not_mem_of_isKeyword hw
    have hnot : ¬ (letters w ++ nothing).Fits none (v ++ r) := not_fits_of_diverges hsolid hleaves
    rw [fits_word_append hsolid] at hnot
    exact hnot ⟨y, b, hsplit, hy, [], b, rfl, rfl⟩
  · -- Both words are as long as `w`, so a letter follows the one that is whole.
    rw [← List.take_append_drop w.length v, List.append_assoc] at hsplit
    obtain ⟨-, rfl⟩ := List.append_inj hsplit
      ((length_eq_of_spells hspells).trans (length_eq_of_spells hy).symm)
    cases hrest : v.drop w.length with
    | nil => simp [hrest] at hmore
    | cons c rest =>
      rw [hrest, List.head?_cons, Option.any_some] at hmore
      simp [hrest, hmore] at hb

/-- **One evaluation settles** that a text brings a word nowhere. -/
theorem spares_of_check {new : Text} (hw : isKeyword w) (h : spares w none new) :
    Spares w new := by
  have hfrom : ∀ before a v r, spares w before (a ++ v) → v ≠ [] →
      (a.getLast?.or before).any isWord = false → ¬ StartsWord w (v ++ r) := by
    intro before a v r
    induction a generalizing before with
    | nil =>
      intro hspares hne hout
      obtain ⟨c, v, rfl⟩ := List.exists_cons_of_ne_nil hne
      rw [List.getLast?_nil, Option.none_or] at hout
      rw [List.nil_append, spares, hout, Bool.false_or, Bool.and_eq_true] at hspares
      exact not_startsWord_of_sparesAt hw hspares.1 r
    | cons c a ih =>
      intro hspares hne hout
      rw [List.cons_append, spares, Bool.and_eq_true] at hspares
      rw [getLast?_cons_or] at hout
      exact ih (some c) hspares.2 hne hout
  rintro a v r rfl hne hout
  exact hfrom none a v r h hne (by simpa using hout)

/-- Two texts that bring a word nowhere do so together. -/
theorem Spares.append {new new' : Text} (h : Spares w new) (h' : Spares w new') :
    Spares w (new ++ new') := by
  intro a v r hsplit hne hout
  rcases List.append_eq_append_iff.mp hsplit with ⟨a', rfl, rfl⟩ | ⟨v', rfl, rfl⟩
  · refine h' a' v r rfl hne ?_
    cases hlast : a'.getLast? with
    | none => rfl
    | some d => simpa [List.getLast?_append, hlast] using hout
  · cases v' with
    | nil => exact h' [] new' r rfl (by simpa using hne) rfl
    | cons d v' =>
      rw [List.append_assoc]
      exact h a (d :: v') (new' ++ r) rfl (by simp) hout

/-- A text without the first letter of a word. -/
theorem spares_of_first {new word : Text} {first : Char}
    (h : ∀ c ∈ new, sameLetter first c = false) : Spares (first :: word) new := by
  rintro a v r rfl hne - ⟨y, b, hsplit, hy, -⟩
  obtain ⟨c, v, rfl⟩ := List.exists_cons_of_ne_nil hne
  cases y with
  | nil => simp [spells] at hy
  | cons d y =>
    obtain ⟨rfl, -⟩ := List.cons.inj hsplit
    have hc := h c (by simp)
    simp [spells, hc] at hy

/-- A text in which no match starts stays. -/
theorem replaceFrom_eq_self (new : Cursor → Text)
    (h : ∀ a b, t = a ++ b → ¬ p.Fits (a.getLast?.or before) b) :
    p.replaceFrom new before 0 t = t := by
  induction t generalizing before with
  | nil => rfl
  | cons c t ih =>
    have hfirst : ¬ p.Fits before (c :: t) := h [] (c :: t) rfl
    rw [replaceFrom_cons_of_not_fits hfirst, ih]
    intro a b hsplit
    rw [← getLast?_cons_or]
    exact h (c :: a) b (by rw [hsplit, List.cons_append])

/-- Where a match is replaced, replacing goes on behind it. -/
theorem exists_replaceFrom_match (new : Cursor → Text) {stop : Cursor} {c : Char}
    (hstop : p.matchAfter before (c :: t) = some stop) (htaken : stop.taken ≠ 0) :
    ∃ y, c :: t = y ++ stop.rest ∧ y ≠ [] ∧ p.replaceFrom new before 0 (c :: t) =
        new stop ++ p.replaceFrom new (y.getLast?.or before) 0 stop.rest := by
  obtain ⟨y, hsplit, hlength, -⟩ := takes_of_matchAfter hstop
  have hne : y ≠ [] := by
    rintro rfl
    exact htaken hlength
  refine ⟨y, hsplit, hne, ?_⟩
  rw [hsplit] at hstop ⊢
  exact replaceFrom_match hstop hlength hne

/-- A pattern that keeps borders does not begin inside a word. -/
theorem KeepsBorders.not_fits (hp : p.KeepsBorders new) (hbefore : before.any isWord)
    (ht : t.head?.any isWord) : ¬ p.Fits before t := by
  rw [← matchAfter_isSome_iff, Option.isSome_iff_exists]
  rintro ⟨stop, hstop⟩
  obtain ⟨-, ⟨hout, -⟩ | ⟨hout, -⟩⟩ := hp _ _ stop hstop
  · simp [hbefore] at hout
  · simp [ht] at hout

/-- No letter comes to the front of a text that starts with none. -/
theorem KeepsBorders.head_replaceFrom (hp : p.KeepsBorders new) (ht : t.head?.any isWord = false) :
    (p.replaceFrom new before 0 t).head?.any isWord = false := by
  induction hlength : t.length using Nat.strongRecOn generalizing t before with
  | ind n ih =>
    cases t with
    | nil => rfl
    | cons c t =>
      cases hstop : p.matchAfter before (c :: t) with
      | none =>
        rw [replaceFrom_cons_of_none new hstop]
        simpa using ht
      | some stop =>
        obtain ⟨htaken, ⟨-, hhead, -⟩ | ⟨-, hnew, hrest⟩⟩ := hp _ _ stop hstop
        · exact absurd (ht.symm.trans hhead) (by decide)
        · obtain ⟨y, hsplit, hne, hout⟩ := exists_replaceFrom_match new hstop htaken
          have hshorter : stop.rest.length < n := by
            have hpos := List.length_pos_iff.mpr hne
            rw [← hlength, hsplit, List.length_append]
            omega
          rw [hout, hnew, List.nil_append]
          exact ih _ hshorter hrest rfl

/-- **The front of the result**: a word that stands there stood there before, and no match starts
with it. -/
theorem KeepsBorders.startsWord (hp : p.KeepsBorders new) (hw : isKeyword w)
    (hnew : p.Omits new w) (h : StartsWord w (p.replaceFrom new before 0 t)) :
    StartsWord w t ∧ p.matchAfter before t = none := by
  cases t with
  | nil => simpa [replaceFrom] using h.head hw
  | cons c t =>
    cases hstop : p.matchAfter before (c :: t) with
    | some stop =>
      obtain ⟨htaken, ⟨-, -, hlast⟩ | ⟨-, hgone, hrest⟩⟩ := hp _ _ stop hstop
      · obtain ⟨y, -, -, hout⟩ := exists_replaceFrom_match new hstop htaken
        have hne : new stop ≠ [] := by
          intro hnil
          simp [hnil] at hlast
        rw [hout] at h
        exact absurd h (hnew _ _ stop hstop [] _ _ rfl hne rfl)
      · obtain ⟨y, -, -, hout⟩ := exists_replaceFrom_match new hstop htaken
        have hhead := h.head hw
        rw [hout, hgone, List.nil_append, hp.head_replaceFrom hrest] at hhead
        exact absurd hhead (by decide)
    | none =>
      have hout := replaceFrom_cons_of_none new hstop
      rw [hout] at h
      have hc : isWord c := by simpa using h.head hw
      -- The letters that follow stay, and so does the end of the word.
      have hsplit : t = t.takeWhile isWord ++ t.dropWhile isWord :=
        List.takeWhile_append_dropWhile.symm
      have hrun : ∀ d ∈ t.takeWhile isWord, isWord d :=
        fun d hd => List.mem_takeWhile_imp hd
      have hend := head?_dropWhile_any isWord t
      generalize t.takeWhile isWord = run at hsplit hrun
      generalize t.dropWhile isWord = rest at hsplit hend
      subst hsplit
      have hpasses : p.Passes (some c) run rest :=
        passes_inside (fun _ _ => hp.not_fits) (by simpa using hc) hrun
      rw [replaceFrom_of_passes hpasses, ← List.cons_append,
        startsWord_append_iff hw (List.forall_mem_cons.mpr ⟨hc, hrun⟩)
          (hp.head_replaceFrom hend)] at h
      rw [← List.cons_append]
      exact ⟨(startsWord_append_iff hw (List.forall_mem_cons.mpr ⟨hc, hrun⟩) hend).mpr h, rfl⟩

/-- Behind blanks of its own, too, a text that is put in does not start with the word. -/
theorem Omits.not_startsWord_behind (hnew : p.Omits new w) {stop : Cursor}
    (hstop : p.matchAfter before t = some stop) (hlast : (new stop).getLast?.any isWord)
    (rest : Text) : ¬ StartsWord w ((new stop ++ rest).dropWhile isBlank) := by
  have hsplit : (new stop).takeWhile isBlank ++ (new stop).dropWhile isBlank = new stop :=
    List.takeWhile_append_dropWhile
  have hblank : ∀ d ∈ (new stop).takeWhile isBlank, isBlank d :=
    fun d hd => List.mem_takeWhile_imp hd
  have hhead := head?_dropWhile_any isBlank (new stop)
  generalize (new stop).takeWhile isBlank = a at hsplit hblank
  generalize (new stop).dropWhile isBlank = v at hsplit hhead
  have hlead : a.getLast?.any isWord = false := by
    cases ha : a.getLast? with
    | none => rfl
    | some d => exact isWord_eq_false_of_isBlank (hblank d (List.mem_of_getLast? ha))
  cases v with
  | nil =>
    rw [← hsplit, List.append_nil, hlead] at hlast
    exact Bool.noConfusion hlast
  | cons d v =>
    rw [← hsplit, List.append_assoc, dropWhile_blank_append hblank, List.cons_append,
      List.dropWhile_cons_of_neg (by simpa using hhead)]
    exact hnew _ _ stop hstop a (d :: v) rest hsplit.symm (List.cons_ne_nil d v) hlead

/-- The same behind blanks, unless what stood there was taken away. -/
theorem KeepsBorders.startsWord_behind (hp : p.KeepsBorders new) (hw : isKeyword w)
    (hnew : p.Omits new w) (h : StartsWord w ((p.replaceFrom new before 0 t).dropWhile isBlank)) :
    StartsWord w (t.dropWhile isBlank) ∨ ∃ lead n last stop, t = lead ++ n ∧
      (∀ c ∈ lead, isBlank c) ∧ p.matchAfter last n = some stop ∧ new stop = [] := by
  induction t generalizing before with
  | nil => exact Or.inl h
  | cons c t ih =>
    cases hstop : p.matchAfter before (c :: t) with
    | some stop =>
      obtain ⟨htaken, ⟨-, -, hlast⟩ | ⟨-, hgone, -⟩⟩ := hp _ _ stop hstop
      · obtain ⟨y, -, -, hout⟩ := exists_replaceFrom_match new hstop htaken
        rw [hout] at h
        exact absurd h (hnew.not_startsWord_behind hstop hlast _)
      · exact Or.inr ⟨[], _, before, stop, rfl, by simp, hstop, hgone⟩
    | none =>
      have hout := replaceFrom_cons_of_none new hstop
      cases hc : isBlank c with
      | true =>
        rw [hout, List.dropWhile_cons_of_pos hc] at h
        rw [List.dropWhile_cons_of_pos hc]
        refine (ih h).imp_right ?_
        rintro ⟨lead, n, last, stop, rfl, hlead, hmatch, hgone⟩
        exact ⟨c :: lead, n, last, stop, rfl, List.forall_mem_cons.mpr ⟨hc, hlead⟩, hmatch, hgone⟩
      | false =>
        rw [hout, List.dropWhile_cons_of_neg (by simp [hc]), ← hout] at h
        rw [List.dropWhile_cons_of_neg (by simp [hc])]
        exact Or.inl (hp.startsWord hw hnew h).1

/-- **Where places come from.**  What holds at a place of the result, and never where something was
put in, held at a place of the text where no match starts.  In front of the two places stands the
same, or a letter in the result, or else the places start with no letter. -/
theorem KeepsBorders.exists_place (hp : p.KeepsBorders new) (before' : Option Char)
    {Q : Option Char → Text → Prop} (hnil : ∀ before, ¬ Q before [])
    (hkept : ∀ before before' c t, p.matchAfter before (c :: t) = none →
      (before' = before ∨ before'.any isWord ∨ isWord c = false) →
      Q before' (c :: p.replaceFrom new (some c) 0 t) → Q before (c :: t))
    (hnew : ∀ before t stop, p.matchAfter before t = some stop → ∀ before' a v r, new stop =
      a ++ v →
      v ≠ [] → ¬ Q (a.getLast?.or before') (v ++ r))
    (hfront : before' = before ∨ before'.any isWord ∨ t.head?.any isWord = false)
    (h : ∃ a b, p.replaceFrom new before 0 t = a ++ b ∧ Q (a.getLast?.or before') b) :
    ∃ a b, t = a ++ b ∧ Q (a.getLast?.or before) b ∧
      p.matchAfter (a.getLast?.or before) b = none := by
  -- The induction is on the length, since a match takes several characters at once.
  induction hlength : t.length using Nat.strongRecOn generalizing t before before' with
  | ind n ih =>
    obtain ⟨a, b, hsplit, hb⟩ := h
    cases t with
    | nil =>
      obtain ⟨rfl, rfl⟩ := List.append_eq_nil_iff.mp hsplit.symm
      exact absurd hb (hnil _)
    | cons c t =>
      cases hstop : p.matchAfter before (c :: t) with
      | none =>
        rw [replaceFrom_cons_of_none new hstop] at hsplit
        cases a with
        | nil =>
          obtain rfl := hsplit
          exact ⟨[], c :: t, rfl, hkept _ _ c t hstop (by simpa using hfront) hb, hstop⟩
        | cons d a =>
          obtain ⟨rfl, hrest⟩ := List.cons.inj hsplit
          rw [getLast?_cons_or] at hb
          obtain ⟨a', b', rfl, hb', hnone⟩ :=
            ih t.length (by simp [← hlength]) _ (.inl rfl) ⟨a, b, hrest, hb⟩ rfl
          rw [← getLast?_cons_or] at hb' hnone
          exact ⟨c :: a', b', rfl, hb', hnone⟩
      | some stop =>
        obtain ⟨htaken, hborders⟩ := hp _ _ stop hstop
        obtain ⟨y, hcut, hne, hout⟩ := exists_replaceFrom_match new hstop htaken
        rw [hout] at hsplit
        have hshorter : stop.rest.length < n := by
          have hpos := List.length_pos_iff.mpr hne
          rw [← hlength, hcut, List.length_append]
          omega
        -- Behind the match, the text goes on as the result does behind what was put in.
        have hbehind : ∀ a', p.replaceFrom new (y.getLast?.or before) 0 stop.rest = a' ++ b →
            Q (a'.getLast?.or ((new stop).getLast?.or before')) b →
            ∃ a b, c :: t = a ++ b ∧ Q (a.getLast?.or before) b ∧
              p.matchAfter (a.getLast?.or before) b = none := by
          intro a' hrest hb'
          have hfront' : (new stop).getLast?.or before' = y.getLast?.or before ∨
              ((new stop).getLast?.or before').any isWord ∨
              stop.rest.head?.any isWord = false := by
            rcases hborders with ⟨-, -, hlast⟩ | ⟨-, -, hend⟩
            · cases hn : (new stop).getLast? with
              | none => simp [hn] at hlast
              | some d => exact .inr (.inl (by simpa [hn] using hlast))
            · exact .inr (.inr hend)
          obtain ⟨a'', b'', hstart, hb'', hnone⟩ :=
            ih stop.rest.length hshorter _ hfront' ⟨a', b, hrest, hb'⟩ rfl
          rw [← Option.or_assoc, ← List.getLast?_append] at hb'' hnone
          exact ⟨y ++ a'', b'', by rw [hcut, hstart, List.append_assoc], hb'', hnone⟩
        rcases List.append_eq_append_iff.mp
          hsplit with ⟨a', rfl, hrest⟩ | ⟨v, hnewstop, hrest⟩
        · refine hbehind a' hrest ?_
          rwa [List.getLast?_append, Option.or_assoc] at hb
        · cases v with
          | nil =>
            rw [List.append_nil] at hnewstop
            refine hbehind [] hrest.symm ?_
            rwa [List.getLast?_nil, Option.none_or, hnewstop]
          | cons d v =>
            rw [hrest] at hb
            exact absurd hb (hnew _ _ stop hstop before' a (d :: v) _ hnewstop (by simp))

/-- **A whole word of the result** is one of the text, at a place where no match starts. -/
theorem KeepsBorders.exists_word (hp : p.KeepsBorders new) (hw : isKeyword w)
    (hnew : p.Omits new w) (h : HasWord w (p.replaceWith new t)) :
    ∃ a b, t = a ++ b ∧ a.getLast?.any isWord = false ∧ StartsWord w b ∧
      p.matchAfter a.getLast? b = none := by
  obtain ⟨a, b, hsplit, ha, hb⟩ := h
  have hplace := hp.exists_place none
    (Q := fun before t => before.any isWord = false ∧ StartsWord w t) ?_ ?_ ?_ (Or.inl rfl)
    ⟨a, b, hsplit, by simpa using ha, hb⟩
  · obtain ⟨a, b, rfl, ⟨ha, hb⟩, hnone⟩ := hplace
    rw [Option.or_none] at ha hnone
    exact ⟨a, b, rfl, ha, hb, hnone⟩
  · rintro before ⟨-, h⟩
    simpa using h.head hw
  · rintro before before' c t hnone hfront ⟨hout, h⟩
    have hc : isWord c := by simpa using h.head hw
    rw [← replaceFrom_cons_of_none new hnone] at h
    refine ⟨?_, (hp.startsWord hw hnew h).1⟩
    rcases hfront with rfl | hletter | hletter
    · exact hout
    · simp [hout] at hletter
    · simp [hc] at hletter
  · rintro before t stop hmatch before' a v r hstop hne ⟨hout, h⟩
    refine hnew _ _ stop hmatch a v r hstop hne ?_ h
    cases hlast : a.getLast? with
    | none => rfl
    | some d => simpa [hlast] using hout

/-- A word that what is put in does not bring is in the result only if it was there before. -/
theorem KeepsBorders.hasWord (hp : p.KeepsBorders new) (hw : isKeyword w)
    (hnew : p.Omits new w) (h : HasWord w (p.replaceWith new t)) : HasWord w t := by
  obtain ⟨a, b, hsplit, ha, hb, -⟩ := hp.exists_word hw hnew h
  exact ⟨a, b, hsplit, ha, hb⟩

/-- **A word that always starts a match** is gone. -/
theorem KeepsBorders.not_hasWord (hp : p.KeepsBorders new) (hw : isKeyword w) (hnew : p.Omits new w)
    (hfits : ∀ before t, before.any isWord = false → StartsWord w t → p.Fits before t) :
    ¬ HasWord w (p.replaceWith new t) := by
  intro h
  obtain ⟨a, b, -, ha, hb, hnone⟩ := hp.exists_word hw hnew h
  exact matchAfter_eq_none_iff.mp hnone (hfits _ b ha hb)

/-- A whole word behind a blank of the result is one of the text, and no match starts with the
blank. -/
theorem KeepsBorders.exists_wordAfterBlank (hp : p.KeepsBorders new) (hw : isKeyword w)
    (hnew : p.Omits new w) (h : HasWordAfterBlank w (p.replaceWith new t)) :
    ∃ (a : Text) (d : Char) (b : Text), t = a ++ d :: b ∧ isBlank d ∧ StartsWord w b ∧
      p.matchAfter a.getLast? (d :: b) = none := by
  obtain ⟨a, d, b, hsplit, hd, hb⟩ := h
  have hplace := hp.exists_place none
    (Q := fun _ t => ∃ d b, t = d :: b ∧ isBlank d = true ∧ StartsWord w b) ?_ ?_ ?_ (Or.inl rfl)
    ⟨a, d :: b, hsplit, d, b, rfl, hd, hb⟩
  · obtain ⟨a, _, rfl, ⟨d, b, rfl, hd, hb⟩, hnone⟩ := hplace
    rw [Option.or_none] at hnone
    exact ⟨a, d, b, rfl, hd, hb, hnone⟩
  · rintro before ⟨d, b, hcons, -⟩
    simp at hcons
  · rintro before before' c t - - ⟨d, b, hcons, hd, hb⟩
    obtain ⟨rfl, rfl⟩ := List.cons.inj hcons
    exact ⟨c, t, rfl, hd, (hp.startsWord hw hnew hb).1⟩
  · rintro before t stop hmatch - a v r hstop hne ⟨d, b, hcons, hd, hb⟩
    obtain ⟨e, v, rfl⟩ := List.exists_cons_of_ne_nil hne
    obtain ⟨rfl, rfl⟩ := List.cons.inj hcons
    have hout : isWord e = false := isWord_eq_false_of_isBlank hd
    cases v with
    | nil =>
      -- What is put in does not end with a blank.
      obtain ⟨-, ⟨-, -, hlast⟩ | ⟨-, hgone, -⟩⟩ := hp _ _ stop hmatch
      · simp [hstop, hout] at hlast
      · simp [hstop] at hgone
    | cons f v =>
      refine hnew _ _ stop hmatch (a ++ [e]) (f :: v) r (by simp [hstop]) (by simp) ?_ hb
      simpa using hout

/-- **A word after a blank was there before**, if borders are kept and no new text brings it. -/
theorem KeepsBorders.hasWordAfterBlank (hp : p.KeepsBorders new) (hw : isKeyword w)
    (hnew : p.Omits new w) (h : HasWordAfterBlank w (p.replaceWith new t)) :
    HasWordAfterBlank w t := by
  obtain ⟨a, d, b, hsplit, hd, hb, -⟩ := hp.exists_wordAfterBlank hw hnew h
  exact ⟨a, d, b, hsplit, hd, hb⟩

/-- A word that always ends a match with the blanks before it is gone. -/
theorem KeepsBorders.not_hasWordAfterBlank (hp : p.KeepsBorders new) (hw : isKeyword w)
    (hnew : p.Omits new w)
    (hfits : ∀ before d t, isBlank d → StartsWord w t → p.Fits before (d :: t)) :
    ¬ HasWordAfterBlank w (p.replaceWith new t) := by
  intro h
  obtain ⟨a, d, b, -, hd, hb, hnone⟩ := hp.exists_wordAfterBlank hw hnew h
  exact matchAfter_eq_none_iff.mp hnone (hfits _ d b hd hb)

end Pattern
end DumpBridge.Text
