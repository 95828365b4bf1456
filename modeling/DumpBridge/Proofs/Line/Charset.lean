import DumpBridge.Proofs.Line.Clauses

/-!
# The rule for character sets

The clause of a character set begins with one or two words, and a column of the
type `CHARACTER` holds one of them.  `NamesCharset` says what the rule takes for
such a clause.  Where this does not begin at the type, the rule keeps the name of
the column and a type after it (`Kept.stripCharset`).
-/

namespace DumpBridge.Line

open Text (Pattern Cursor isBlank isWord)
open Text.Pattern
open ColumnType (beginsType typeWords)
open Literal (mapCode)

variable {s r t u v : Text} {a : Pattern} {before : Option Char}

/-! ## What the rule takes for a character set -/

/-- Blanks, or an equals sign with any blanks around it. -/
def IsSign (t : Text) : Prop :=
  (t ≠ [] ∧ ∀ d ∈ t, isBlank d) ∨
    ∃ x y, t = x ++ '=' :: y ∧ (∀ d ∈ x, isBlank d) ∧ ∀ d ∈ y, isBlank d

/-- The text begins with the words for a character set, a sign, and a word. -/
def NamesCharset (u : Text) : Prop :=
  ∃ words sign d rest, u = words ++ (sign ++ d :: rest) ∧
    (spells "CHARSET".toList words ∨
      ∃ x space y, words = x ++ (space ++ y) ∧ spells "CHARACTER".toList x ∧
        (space ≠ [] ∧ ∀ d ∈ space, isBlank d) ∧ spells "SET".toList y) ∧
    IsSign sign ∧ isWord d

theorem NamesCharset.append (h : NamesCharset u) (v : Text) : NamesCharset (u ++ v) := by
  obtain ⟨words, sign, d, rest, rfl, h⟩ := h
  exact ⟨words, sign, d, rest ++ v, by simp, h⟩

/-- A value is assigned by a sign or blanks before it. -/
theorem fits_assignment_iff : (assignment ++ wordChars).Fits before t ↔
    ∃ sign d rest, t = sign ++ d :: rest ∧ IsSign sign ∧ isWord d := by
  have hsolid : ∀ {d : Char} {rest : Text}, isWord d →
      (d :: rest).head?.any isBlank = false := fun hd => by
    simpa using Text.isBlank_eq_false_of_isWord hd
  have hequals : isBlank '=' = false := by decide
  have hword : ∀ {before : Option Char} {m : Text}, wordChars.Fits before m →
      ∃ d rest, m = d :: rest ∧ isWord d := by
    intro before m hfits
    have hhead := fits_someOf.mp hfits
    cases m with
    | nil => simp at hhead
    | cons d rest => exact ⟨d, rest, rfl, by simpa using hhead⟩
  rw [assignment, fits_alt_append, fits_gap_append]
  simp only [fits_append_assoc]
  constructor
  · rintro (⟨space, m, rfl, ⟨hne, hspace, -⟩, hfits⟩ | hfits)
    · obtain ⟨d, rest, rfl, hd⟩ := hword hfits
      exact ⟨space, d, rest, rfl, Or.inl ⟨hne, hspace⟩, hd⟩
    · obtain ⟨x, m, rfl, ⟨hx, -⟩, hfits⟩ := fits_append.mp hfits
      obtain ⟨_, m, rfl, hequals, hfits⟩ := fits_append.mp hfits
      obtain rfl := takes_char.mp hequals
      obtain ⟨y, m, rfl, ⟨hy, -⟩, hfits⟩ := fits_append.mp hfits
      obtain ⟨d, rest, rfl, hd⟩ := hword hfits
      exact ⟨x ++ '=' :: y, d, rest, by simp, Or.inr ⟨x, y, rfl, hx, hy⟩, hd⟩
  · rintro ⟨_, d, rest, rfl, ⟨hne, hspace⟩ | ⟨x, y, rfl, hx, hy⟩, hd⟩
    · exact Or.inl ⟨_, _, rfl, ⟨hne, hspace, hsolid hd⟩, fits_someOf.mpr (by simpa using hd)⟩
    · refine Or.inr ?_
      rw [List.append_assoc, List.cons_append, fits_blanks_append hx (by simpa using hequals)]
      refine fits_append.mpr ⟨['='], y ++ d :: rest, rfl, takes_char.mpr rfl, ?_⟩
      rw [fits_blanks_append hy (hsolid hd)]
      exact fits_someOf.mpr (by simpa using hd)

/-- The words of a character set. -/
def charsetWords : Pattern :=
  anyPhrase ["CHARACTER SET", "CHARSET"] ++ (assignment ++ wordChars)

/-- A character set is named by two words or by one. -/
theorem fits_charsetWords : charsetWords.Fits before t ↔
    (letters "CHARACTER".toList ++ (gap ++ (letters "SET".toList ++
        (assignment ++ wordChars)))).Fits before t ∨
      (letters "CHARSET".toList ++ (assignment ++ wordChars)).Fits before t := by
  rw [charsetWords, fits_anyPhrase_append,
    ← fits_phrase_split (w := "CHARACTER".toList) (v := "SET".toList) (by decide)]
  simp only [List.mem_cons, List.not_mem_nil, or_false, exists_eq_or_imp, exists_eq_left]
  exact Iff.rfl

/-- **What the rule takes for a character set.** -/
theorem fits_charsetWords_iff : charsetWords.Fits before t ↔ NamesCharset t := by
  simp only [fits_charsetWords, fits_gap_append, fits_assignment_iff,
    fits_word_append (w := "CHARACTER".toList) (by decide),
    fits_word_append (w := "SET".toList) (by decide),
    fits_word_append (w := "CHARSET".toList) (by decide)]
  constructor
  · rintro (⟨x, _, rfl, hx, space, _, rfl, ⟨hne, hspace, -⟩, y, _, rfl, hy, sign, d, rest, rfl,
      hsign⟩ | ⟨words, _, rfl, hwords, sign, d, rest, rfl, hsign⟩)
    · exact ⟨x ++ (space ++ y), sign, d, rest, by simp,
        Or.inr ⟨x, space, y, rfl, hx, ⟨hne, hspace⟩, hy⟩, hsign⟩
    · exact ⟨words, sign, d, rest, rfl, Or.inl hwords, hsign⟩
  · rintro ⟨words, sign, d, rest, rfl, hwords | ⟨x, space, y, rfl, hx, ⟨hne, hspace⟩, hy⟩, hsign⟩
    · exact Or.inr ⟨words, _, rfl, hwords, sign, d, rest, rfl, hsign⟩
    · have hsolid : (y ++ (sign ++ d :: rest)).head?.any isBlank = false :=
        head_append_of_spells (by decide) hy _
      exact Or.inl ⟨x, _, by simp, hx, space, _, rfl, ⟨hne, hspace, hsolid⟩, y, _, rfl, hy,
        sign, d, rest, rfl, hsign⟩

/-- Members in parentheses are no name of a character set. -/
theorem not_fits_assignment (hs : ∀ d ∈ s, isBlank d) :
    ¬ (assignment ++ wordChars).Fits before (s ++ '(' :: r) := by
  have hparen : isBlank '(' = false := by decide
  have hsolid : ('(' :: r).head?.any isBlank = false := by simpa using hparen
  rw [assignment, fits_alt_append]
  rintro (hfits | hfits)
  · obtain ⟨before, hword⟩ := exists_fits_of_fits_gap hs hsolid hfits
    have hword' : isWord '(' = false := by decide
    have hhead := fits_someOf.mp hword
    simp [hword'] at hhead
  · simp only [fits_append_assoc] at hfits
    rw [fits_blanks_append hs hsolid] at hfits
    have hhead := head?_of_fits_char (c := '=') rfl hfits
    simp at hhead

/-- The clause leads to its words, or to the word `DEFAULT` before them. -/
theorem leadsTo_charset : charset.LeadsTo fun m =>
    (∃ before, (letters "DEFAULT".toList ++ (gap ++ charsetWords)).Fits before m) ∨
      ∃ before, charsetWords.Fits before m := by
  intro before t hfits hhead
  simp only [charset, charsetWord, fits_append_assoc] at hfits
  rw [fits_optional_append] at hfits
  rcases hfits with hfits | hfits
  · exact leadsTo_gap (a := letters "DEFAULT".toList ++ (gap ++ charsetWords))
      (fun before m hm => Or.inl ⟨before, hm⟩) before t (fits_append_assoc.mp hfits) hhead
  · exact leadsTo_gap (a := charsetWords) (fun before m hm => Or.inr ⟨before, hm⟩) before t hfits
      hhead

namespace QuotedColumn

variable {c : QuotedColumn} {lead o more line : Text} {stop : Bool}

/-! ## Types that name no character set -/

/-- Only the type `CHAR`, with or without the rest of the word, begins like a
character set. -/
theorem not_namesCharset_type (h : ∀ w ∈ ["CHAR", "CHARACTER"], spells w.toList c.type = false) :
    ¬ NamesCharset (c.type ++ r) := by
  have hapart : ∀ v ∈ typeWords, v ∈ ["CHAR", "CHARACTER"] ∨
      ∀ w ∈ ["CHARACTER", "CHARSET"], apart v.toList w.toList := by decide
  have hkeyword : ∀ w ∈ ["CHARACTER", "CHARSET"], isKeyword w.toList := by decide
  obtain ⟨v, hv, hspells⟩ := c.type_known
  have hdiverges : ∀ w ∈ ["CHARACTER", "CHARSET"], diverges w.toList c.type := by
    intro w hw
    rcases hapart v hv with hchar | hapart
    · simp [h v hchar] at hspells
    · exact diverges_of_spells (ColumnType.isKeyword_typeWord hv) (hkeyword w hw) hspells
        (hapart w hw)
  intro hnames
  have hfits : charsetWords.Fits none _ := fits_charsetWords_iff.mpr hnames
  rcases fits_charsetWords.mp hfits with hfits | hfits
  · exact not_fits_of_diverges (by decide) (hdiverges "CHARACTER" (by decide)) hfits
  · exact not_fits_of_diverges (by decide) (hdiverges "CHARSET" (by decide)) hfits

/-- Nor does a type that firm attributes follow. -/
theorem Lead.not_namesCharset (h : c.Lead s o more) (hfirm : o = [] → more = [])
    (hr : more = [] → r = []) : ¬ NamesCharset (c.type ++ (s ++ (o ++ r))) := by
  intro hnames
  have hfits : charsetWords.Fits none _ := fits_charsetWords_iff.mpr hnames
  rcases fits_charsetWords.mp hfits with hfits | hfits
  · rw [c.fits_type_iff (by decide) stops_gap (h.head hr)] at hfits
    obtain ⟨_, hset⟩ := exists_fits_of_fits_gap h.blank (h.head_solid hfirm hr) hfits.2
    exact h.not_fits hfirm hr (w := "SET") (by decide) hset
  · rw [c.fits_type_iff (by decide) stops_assignment (h.head hr),
      c.spells_type_eq_false (by decide) (by decide)] at hfits
    exact absurd hfits.1 (by decide)

/-- The type does not end the clause of a character set. -/
theorem Kept.not_fits_set (h : c.Kept lead stop) (hr : stop → r = []) :
    ¬ (letters "SET".toList ++ (assignment ++ wordChars)).Fits before (c.type ++ (lead ++ r)) := by
  intro hfits
  cases h with
  | @firm s o more h hfirm =>
    have hr : more = [] → r = [] := fun hmore => hr (List.isEmpty_iff.mpr hmore)
    rw [List.append_assoc, c.fits_type_iff (by decide) stops_assignment (h.head hr)] at hfits
    obtain ⟨hset, hfits⟩ := hfits
    obtain rfl := h.set hset
    exact not_fits_assignment h.blank hfits
  | other hset =>
    have hapart : ∀ v ∈ typeWords, v = "SET" ∨ apart v.toList "SET".toList := by decide
    obtain ⟨v, hv, hspells⟩ := c.type_known
    rcases hapart v hv with rfl | hapart
    · exact absurd (hset.symm.trans hspells) (by decide)
    · exact not_fits_of_apart (ColumnType.isKeyword_typeWord hv) (by decide) hapart hspells hfits

/-! ## Dropping character sets -/

/-- **Taking character sets away** keeps the name and a type, unless the type is taken for
one. -/
theorem Kept.stripCharset (h : c.Kept lead stop) (hfree : spells "CHARSET".toList c.name = false)
    (hline : c.Extends lead stop line) (htype : ∀ u, line = c.line u → ¬ NamesCharset u) :
    ∃ u, beginsType u ∧ stripCharset line = c.line u := by
  obtain ⟨first, rest, hsplit, ⟨r, hr, rfl⟩, -, hmap⟩ :=
    hline.exists_mapCode (fun d hd => h.isQuote_eq_false hd) .standard charset.erase
  have hbegins := c.beginsType_type (lead ++ r)
  have hsolid := ColumnType.isBlank_of_beginsType hbegins
  have hnames : ∀ before, ¬ charsetWords.Fits before (c.type ++ (lead ++ r)) := by
    intro before hfits
    refine htype (c.type ++ (lead ++ r) ++ rest) ?_ ((fits_charsetWords_iff.mp hfits).append rest)
    rw [hsplit]
    simp [ColumnName.line]
  have hname : ¬ ((∃ before, (letters "DEFAULT".toList ++ (gap ++ charsetWords)).Fits before
      (c.name ++ (c.space ++ (c.type ++ (lead ++ r))))) ∨ ∃ before, charsetWords.Fits before
        (c.name ++ (c.space ++ (c.type ++ (lead ++ r))))) := by
    rintro (⟨before, hfits⟩ | ⟨before, hfits⟩)
    · rw [c.fits_name_iff (by decide) stops_gap, c.fits_space_iff hsolid] at hfits
      exact hnames _ hfits.2
    · rcases fits_charsetWords.mp hfits with hfits | hfits
      · rw [c.fits_name_iff (by decide) stops_gap, c.fits_space_iff hsolid] at hfits
        exact h.not_fits_set hr hfits.2
      · rw [c.fits_name_iff (by decide) stops_assignment, hfree] at hfits
        exact absurd hfits.1 (by decide)
  have hsite : ¬ ((∃ before, (letters "DEFAULT".toList ++ (gap ++ charsetWords)).Fits before
      (c.type ++ (lead ++ r))) ∨ ∃ before, charsetWords.Fits before (c.type ++ (lead ++ r))) := by
    rintro (⟨before, hfits⟩ | ⟨before, hfits⟩)
    · exact ColumnType.not_fits_clauseWord (k := "DEFAULT") hbegins (by decide) hfits
    · exact hnames before hfits
  have herase : charset.erase (c.line (c.type ++ (lead ++ r))) = c.line
      (charset.replaceFrom (fun _ => []) c.space.getLast? 0 (c.type ++ (lead ++ r))) :=
    c.replaceWith_line_of_passes (c.passes_name leadsTo_charset hsolid hname hsite)
  have hkept : beginsType (charset.replaceFrom (fun _ => []) c.space.getLast? 0
      (c.type ++ (lead ++ r))) :=
    ColumnType.beginsType_of_leadsTo leadsTo_charset hsite hbegins
  refine ⟨_, ColumnType.beginsType_append (v := mapCode .standard charset.erase rest)
    hkept, ?_⟩
  have hstrip : Line.stripCharset line = mapCode .standard charset.erase line := rfl
  rw [hstrip, hmap, herase]
  simp [ColumnName.line]

end QuotedColumn
end DumpBridge.Line
