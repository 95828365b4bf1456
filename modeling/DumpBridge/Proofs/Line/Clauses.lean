import DumpBridge.Proofs.Line.QuotedColumn

/-!
# Rules before the one for character sets

The rules that run before character sets are dropped concern statements, comments
of columns and collations.  Each keeps the beginning of a column definition with
its type (`Extends`), and after the type all that keeps it out of a clause
(`Kept`).
-/

namespace DumpBridge.Line

open Text (Pattern Cursor isBlank isNameStart isWord)
open Text.Pattern
open ColumnType (beginsType clauseWords typeWords)
open Literal (Quoting isQuote mapCode)

/-! ## Characters that rules for every line pass over -/

/-- A character that means nothing to the rules for quotes, escapes and dates. -/
def isInert (d : Char) : Bool :=
  !"\x60'\"\\\x00".toList.contains d

variable {x r : Text}

/-- Taking quotes off names passes over inert characters. -/
theorem stripNameQuotes_append (hx : ∀ d ∈ x, isInert d) (r : Text) :
    stripNameQuotes (x ++ r) = x ++ stripNameQuotes r := by
  have hquote : ∀ d ∈ x, isQuote d = false := by
    intro d hd
    have hinert := hx d hd
    simp [isInert] at hinert
    simp [isQuote, hinert]
  have hkept : x.filter (· != '\x60') = x := by
    refine List.filter_eq_self.mpr fun d hd => ?_
    have hinert := hx d hd
    simp [isInert] at hinert
    simp [hinert]
  rw [stripNameQuotes, Literal.mapCode_filter_append _ hquote, hkept]
  rfl

theorem stripNameQuotes_backtick (t : Text) :
    stripNameQuotes ('\x60' :: t) = stripNameQuotes t := by
  have hquote : ∀ d ∈ ['\x60'], isQuote d = false := by decide
  exact Literal.mapCode_filter_append (· != '\x60') hquote t

/-- Restating escapes passes over inert characters. -/
theorem normalizeEscapes_append (hx : ∀ d ∈ x, isInert d) (r : Text) :
    normalizeEscapes (x ++ r) = x ++ normalizeEscapes r := by
  have hslash : '\\' ∉ x := fun hd => absurd (hx _ hd) (by decide)
  have hnull : '\x00' ∉ x := fun hd => absurd (hx _ hd) (by decide)
  have hmark : ∀ t, Text.replace backslashMark ['\\'] (x ++ t) =
      x ++ Text.replace backslashMark ['\\'] t :=
    fun t => Text.replace_append_of_not_mem (d := '\x00') hnull _ t
  have hmem : '\\' ∈ x ++ r ↔ '\\' ∈ r := by simp [hslash]
  simp only [normalizeEscapes, hmem]
  split
  · rw [Text.replace_append_of_not_mem hslash, Text.replace_append_of_not_mem hslash, hmark]
  · rfl

/-- So does writing zero dates as nulls. -/
theorem nullZeroDates_append (hx : ∀ d ∈ x, isInert d) (r : Text) :
    nullZeroDates (x ++ r) = x ++ nullZeroDates r := by
  have hquote : '\'' ∉ x := fun hd => absurd (hx _ hd) (by decide)
  have hdate : ∀ t, Text.replace "'0000-00-00'".toList "NULL".toList (x ++ t) =
      x ++ Text.replace "'0000-00-00'".toList "NULL".toList t :=
    fun t => Text.replace_append_of_not_mem (d := '\'') hquote _ t
  have htime : ∀ t, Text.replace "'0000-00-00 00:00:00'".toList "NULL".toList (x ++ t) =
      x ++ Text.replace "'0000-00-00 00:00:00'".toList "NULL".toList t :=
    fun t => Text.replace_append_of_not_mem (d := '\'') hquote _ t
  rw [nullZeroDates, htime, hdate]
  rfl

/-- Blanks, words and marks are inert, and none of them is a slash. -/
theorem isInert_of_class {d : Char} (hd : isBlank d ∨ isWord d ∨ isMark d) :
    isInert d ∧ d ≠ '/' := by
  have hall : ∀ e ∈ "/\x60'\"\\\x00".toList, ¬ (isBlank e ∨ isWord e ∨ isMark e) := by decide
  constructor
  · rw [isInert, Bool.not_eq_true', ← Bool.not_eq_true, List.contains_iff_mem]
    exact fun hmem => hall d (List.mem_cons_of_mem _ hmem) hd
  · rintro rfl
    exact hall '/' (by decide) hd

namespace QuotedColumn

variable {c : QuotedColumn} {lead s o more line : Text} {stop : Bool} {a p : Pattern}
  {before : Option Char} {f g : Text → Text}

/-! ## Lines that begin like the definition -/

/-- `c.Extends lead stop line`: the line begins with the name, the type and what is
kept after it; if `stop`, nothing follows. -/
def Extends (c : QuotedColumn) (lead : Text) (stop : Bool) (line : Text) : Prop :=
  ∃ r, (stop → r = []) ∧ line = c.line (c.type ++ (lead ++ r))

theorem line_append (c : QuotedColumn) (lead r : Text) :
    c.line (c.type ++ (lead ++ r)) = c.line (c.type ++ lead) ++ r := by
  simp [ColumnName.line]

/-- A map that passes over what is kept. -/
theorem Extends.map (h : c.Extends lead stop line)
    (hf : ∀ r, f (c.line (c.type ++ lead) ++ r) = c.line (c.type ++ lead) ++ g r)
    (hg : g [] = []) : c.Extends lead stop (f line) := by
  obtain ⟨r, hr, rfl⟩ := h
  refine ⟨g r, fun hstop => ?_, ?_⟩
  · rw [hr hstop, hg]
  · rw [line_append, hf, line_append]

/-- Replacing where no match starts in what is kept. -/
theorem Extends.replaceWith {new : Cursor → Text} (h : c.Extends lead stop line)
    (hname : ∀ r, (stop → r = []) →
      p.Passes none (c.indent ++ (c.name ++ c.space)) (c.type ++ (lead ++ r)))
    (htype : ∀ r before, (stop → r = []) → p.Passes before (c.type ++ lead) r) :
    c.Extends lead stop (p.replaceWith new line) := by
  obtain ⟨r, hr, rfl⟩ := h
  refine ⟨p.replaceFrom new ((c.type ++ lead).getLast?.or c.space.getLast?) 0 r, ?_, ?_⟩
  · intro hstop
    rw [hr hstop]
    rfl
  · rw [c.replaceWith_line_of_passes (hname r hr), ← List.append_assoc,
      replaceFrom_of_passes (htype r _ hr), List.append_assoc]

/-- What is kept is code, so a map over code maps it with the code that follows. -/
theorem Extends.exists_mapCode (h : c.Extends lead stop line)
    (hquote : ∀ d ∈ c.line (c.type ++ lead), isQuote d = false) (q : Quoting) (f : Text → Text) :
    ∃ first rest, line = first ++ rest ∧ c.Extends lead stop first ∧
      (stop → rest = []) ∧ mapCode q f line = f first ++ mapCode q f rest := by
  obtain ⟨r, hr, rfl⟩ := h
  have hne : c.line (c.type ++ lead) ≠ [] := by
    simp [ColumnName.line, c.indent_ne]
  obtain ⟨y, rest, rfl, -, -, hmap⟩ := Literal.exists_mapCode_append f hne hquote r (q := q)
  refine ⟨c.line (c.type ++ (lead ++ y)), rest, by simp [ColumnName.line],
    ⟨y, fun hstop => ?_, rfl⟩, fun hstop => ?_, ?_⟩
  · exact (List.append_eq_nil_iff.mp (hr hstop)).1
  · exact (List.append_eq_nil_iff.mp (hr hstop)).2
  · rw [line_append, hmap, line_append]

/-- A map of code keeps a beginning without quote marks if it keeps it as plain text. -/
theorem Extends.mapCode (h : c.Extends lead stop line)
    (hquote : ∀ d ∈ c.line (c.type ++ lead), isQuote d = false)
    (hf : ∀ line, c.Extends lead stop line → c.Extends lead stop (f line)) (q : Quoting) :
    c.Extends lead stop (mapCode q f line) := by
  obtain ⟨first, rest, -, hfirst, hrest, hmap⟩ := h.exists_mapCode hquote q f
  obtain ⟨r, hr, hfr⟩ := hf first hfirst
  refine ⟨r ++ DumpBridge.Literal.mapCode q f rest, fun hstop => ?_, ?_⟩
  · rw [hr hstop, hrest hstop]
    rfl
  · rw [hmap, hfr, line_append, line_append, List.append_assoc]

theorem Extends.isComment_eq_false (h : c.Extends lead stop line) : isComment line = false := by
  obtain ⟨r, -, rfl⟩ := h
  exact c.isComment_line _

/-- A pattern passes over the word or mark after the blanks. -/
theorem Lead.passes_solid (h : c.Lead s o more) {site : Text → Prop} (hleads : p.LeadsTo site)
    (hmark : ∀ before t, p.Fits before t → t.head?.any isMark = false)
    (hsite : o ≠ [] → ¬ site (o ++ r)) : p.Passes before o r := by
  rcases h.form with hword | ⟨d, rfl, hd⟩
  · by_cases ho : o = []
    · rw [ho]
      trivial
    · exact hleads.passes_words hword (hsite ho)
  · exact passes_of_head (by simpa using hd) hmark

/-! ## Rules for statements -/

/-- A column begins with blanks, words and marks. -/
theorem Lead.mem_line (h : c.Lead s o more) {d : Char} (hd : d ∈ c.line (c.type ++ (s ++ o))) :
    isBlank d ∨ isWord d ∨ isMark d := by
  simp only [ColumnName.line, List.mem_append] at hd
  rcases hd with hd | hd | hd | hd | hd | hd
  · exact Or.inl (c.indent_blank d hd)
  · exact Or.inr (Or.inl (c.name_word d hd))
  · exact Or.inl (c.space_blank d hd)
  · exact Or.inr (Or.inl (c.type_word.2 d hd))
  · exact Or.inl (h.blank d hd)
  · rcases h.form with hword | ⟨e, rfl, hmark⟩
    · exact Or.inr (Or.inl (hword d hd))
    · obtain rfl := List.mem_singleton.mp hd
      exact Or.inr (Or.inr hmark)

/-- **Taking quotes off names** leaves the column's beginning without them. -/
theorem Lead.stripNameQuotes (h : c.Lead s o more) :
    c.Extends (s ++ o) more.isEmpty (stripNameQuotes c.text) := by
  have hinert : ∀ d ∈ c.line (c.type ++ (s ++ o)), isInert d :=
    fun d hd => (isInert_of_class (h.mem_line hd)).1
  simp only [ColumnName.line, List.mem_append, or_imp, forall_and] at hinert
  obtain ⟨hindent, hname, hspace, htype, hs, ho⟩ := hinert
  refine ⟨Line.stripNameQuotes more, ?_, ?_⟩
  · intro hmore
    rw [List.isEmpty_iff.mp hmore]
    rfl
  · rw [text, stripNameQuotes_append hindent, stripNameQuotes_backtick,
      stripNameQuotes_append hname, stripNameQuotes_backtick, stripNameQuotes_append hspace,
      stripNameQuotes_append htype, h.attributes_eq, stripNameQuotes_append hs,
      stripNameQuotes_append ho, ColumnName.line, List.append_assoc]

theorem Lead.normalizeEscapes (h : c.Lead s o more) (hline : c.Extends (s ++ o) stop line) :
    c.Extends (s ++ o) stop (normalizeEscapes line) :=
  hline.map (normalizeEscapes_append fun _ hd => (isInert_of_class (h.mem_line hd)).1) rfl

theorem Lead.nullZeroDates (h : c.Lead s o more) (hline : c.Extends (s ++ o) stop line) :
    c.Extends (s ++ o) stop (nullZeroDates line) :=
  hline.map (nullZeroDates_append fun _ hd => (isInert_of_class (h.mem_line hd)).1) rfl

/-- No block begins in it. -/
theorem Lead.commentConditionalBlocks (h : c.Lead s o more) (hline : c.Extends (s ++ o) stop line) :
    c.Extends (s ++ o) stop (commentConditionalBlocks line) := by
  have hslash : ∀ before t, conditionalBlock.Fits before t → t.head?.any (· ≠ '/') = false := by
    intro before t hfits
    have hfirst : conditionalBlock.first = one (sameLetter '/') := rfl
    have hhead := fits_first hfits
    rw [hfirst, fits_one] at hhead
    cases t with
    | nil => simp at hhead
    | cons d t =>
      have hd : d = '/' := Text.eq_of_sameLetter (by decide) (by simpa using hhead)
      simp [hd]
  have hclass : ∀ d ∈ c.line (c.type ++ (s ++ o)), decide (d ≠ '/') := by
    intro d hd
    simpa using (isInert_of_class (h.mem_line hd)).2
  exact hline.map (fun r => replaceFrom_of_passes (passes_of_head hclass hslash)) rfl

/-- The words of the session's time zone. -/
def timeZoneWords : Pattern :=
  letters "SET".toList ++ (gap ++ (letters "time_zone".toList ++ (blanks ++ char '=')))

/-- The statement for the time zone, word by word. -/
theorem fits_timeZone {before : Option Char} {t : Text} (h : timeZone.Fits before t) :
    (edge ++ timeZoneWords).Fits before t := by
  simp only [timeZone, fits_append_assoc] at h
  rw [fits_edge_append] at h ⊢
  exact ⟨h.1, (fits_phrase_split (w := "SET".toList) (v := "time_zone".toList)
    (by decide)).mp h.2⟩

/-- The name `SET` before the type `TIME` is not enough: no type is called
`TIME_ZONE`. -/
theorem Lead.not_fits_timeZone_name (h : c.Lead s o more) (hr : more = [] → r = []) :
    ¬ timeZoneWords.Fits before (c.name ++ (c.space ++ (c.type ++ (s ++ (o ++ r))))) := by
  intro hfits
  rw [timeZoneWords, c.fits_name_iff (by decide) stops_gap, c.fits_space_iff
    (ColumnType.isBlank_of_beginsType (c.beginsType_type _)), c.fits_type_iff (by decide)
    (stops_blanks rfl (by decide)) (h.head hr), c.spells_type_eq_false (by decide) (by decide)]
    at hfits
  exact absurd hfits.2.1 (by decide)

/-- The type `SET` has its members after it. -/
theorem Lead.not_fits_timeZone_type (h : c.Lead s o more) (hr : more = [] → r = []) :
    ¬ timeZoneWords.Fits before (c.type ++ (s ++ (o ++ r))) := by
  intro hfits
  rw [timeZoneWords, c.fits_type_iff (by decide) stops_gap (h.head hr)] at hfits
  obtain ⟨hset, hfits⟩ := hfits
  obtain rfl := h.set hset
  have hparen : isBlank '(' = false := by decide
  obtain ⟨_, hzone⟩ := exists_fits_of_fits_gap h.blank (by simpa using hparen) hfits
  exact not_fits_mark (d := '(') (by decide) (by decide) hzone

/-- **A column is not taken for the statement that sets the time zone.** -/
theorem Lead.renameTimeZone (h : c.Lead s o more) (hline : c.Extends (s ++ o) more.isEmpty line) :
    c.Extends (s ++ o) more.isEmpty (renameTimeZone line) := by
  have hleads : timeZone.LeadsTo fun m => ∃ before, timeZoneWords.Fits before m :=
    (leadsTo_keyword (by decide)).of_fits fun _ _ => fits_timeZone
  have hword : ∀ before t, timeZone.Fits before t → t.head?.any isWord :=
    fun _ _ hfits => isWord_of_fits_keyword (by decide)
      (fits_edge_append.mp (fits_timeZone hfits)).2
  have hblank : ∀ before t, timeZone.Fits before t → t.head?.any isBlank = false := by
    intro before t hfits
    have hhead := hword before t hfits
    cases t with
    | nil => rfl
    | cons d t => simpa using Text.isBlank_eq_false_of_isWord (by simpa using hhead)
  have hmark : ∀ before t, timeZone.Fits before t → t.head?.any isMark = false := by
    intro before t hfits
    have hhead := hword before t hfits
    cases t with
    | nil => rfl
    | cons d t =>
      rw [List.head?_cons, Option.any_some, ← Bool.not_eq_true]
      intro hd
      simp [(isWord_of_isMark hd).1] at hhead
  refine hline.replaceWith (p := timeZone) (fun r hr => ?_) fun r before hr => ?_
  · rw [List.append_assoc]
    refine c.passes_name_of_head hleads hblank ?_
    rintro ⟨before, hfits⟩
    exact h.not_fits_timeZone_name (fun hmore => hr (List.isEmpty_iff.mpr hmore)) hfits
  · rw [passes_append, passes_append, List.append_assoc]
    refine ⟨hleads.passes_words c.type_word.2 ?_, passes_of_head h.blank hblank,
      h.passes_solid hleads hmark ?_⟩
    · rintro ⟨before, hfits⟩
      exact h.not_fits_timeZone_type (fun hmore => hr (List.isEmpty_iff.mpr hmore)) hfits
    · rintro ho ⟨before, hfits⟩
      exact h.free ho "SET" (by decide) _ before r hfits

/-- The words after `SET` that only concern the session of the dump. -/
def sessionWords : List String := ["sql_mode", "FOREIGN_KEY_CHECKS", "UNIQUE_CHECKS", "AUTOCOMMIT",
  "NAMES", "CHARACTER_SET_CLIENT", "CHARACTER_SET_RESULTS", "COLLATION_CONNECTION", "SQL_NOTES"]

/-- It is not taken for a statement of the session either. -/
theorem Lead.sessionStatement_starts (h : c.Lead s o more) (hr : more = [] → r = []) :
    sessionStatement.starts (c.line (c.type ++ (s ++ (o ++ r)))) = false := by
  have htype := c.beginsType_type (s ++ (o ++ r))
  rw [← Bool.not_eq_true, starts_iff, sessionStatement, c.fits_line_iff, fits_anyOf]
  rintro ⟨q, hq, hfits⟩
  simp only [List.mem_cons, List.not_mem_nil, or_false] at hq
  rcases hq with rfl | rfl | rfl | rfl
  · have hset := c.fits_type_of_fits_phrase (k := "SET".toList) (v := []) (by decide) htype
      (fits_append_assoc.mp hfits)
    obtain ⟨w, hw, hfits⟩ := fits_anyPhrase_append.mp (fits_nil_append.mp hset)
    have hkeyword : ∀ w ∈ sessionWords, isKeyword w.toList ∧
        ∀ v ∈ typeWords, v.toList.map Char.toLower ≠ w.toList.map Char.toLower := by
      decide +kernel
    obtain ⟨hletters, hne⟩ := hkeyword w hw
    rw [c.fits_type_iff hletters stops_edge (h.head hr),
      c.spells_type_eq_false hletters hne] at hfits
    exact absurd hfits.1 (by decide)
  · have hpair := (fits_letters_pair (w := "SET".toList) (v := ['@'])).mp hfits
    rw [c.fits_name_iff (by decide) stops_gap,
      c.fits_space_iff (ColumnType.isBlank_of_beginsType htype)] at hpair
    have hfirst : (letters ['@']).first = one (sameLetter '@') := rfl
    have hat := fits_first hpair.2
    rw [hfirst, fits_one] at hat
    obtain ⟨d, t, v, hd, hword, -⟩ := ColumnType.exists_typeWord htype
    obtain rfl : d = '@' := Text.eq_of_sameLetter (by decide) (by simpa [hd] using hat)
    exact absurd hword (by decide)
  · exact ColumnType.not_fits_clauseWord (k := "TABLES") htype (by decide)
      (c.fits_type_of_fits_phrase (k := "LOCK".toList) (by decide) htype hfits)
  · exact ColumnType.not_fits_clauseWord (k := "TABLES") htype (by decide)
      (c.fits_type_of_fits_phrase (k := "UNLOCK".toList) (by decide) htype hfits)

theorem Lead.commentSessionStatements (h : c.Lead s o more)
    (hline : c.Extends (s ++ o) more.isEmpty line) :
    c.Extends (s ++ o) more.isEmpty (commentSessionStatements line) := by
  obtain ⟨r, hr, rfl⟩ := hline
  have hlive := h.sessionStatement_starts fun hmore => hr (List.isEmpty_iff.mpr hmore)
  refine ⟨r, hr, ?_⟩
  rw [List.append_assoc, Line.commentSessionStatements, hlive]
  rfl

/-- A name is no end of a table definition. -/
theorem stripTableOptions_line (u : Text) : stripTableOptions (c.line u) = c.line u := by
  have hnone : tableEnd.matchStart (c.line u) = none := by
    refine matchAfter_eq_none_iff.mpr fun hfits => ?_
    simp only [tableEnd, fits_append_assoc, fits_capture_append] at hfits
    rw [c.fits_line_iff] at hfits
    have hhead := head?_of_fits_char (c := ')') rfl hfits
    obtain ⟨d, t, hname, hd⟩ := c.exists_name
    obtain rfl : d = ')' := by simpa [hname] using hhead
    exact absurd hd (by decide)
  rw [stripTableOptions, hnone]

/-! ## Rules for the clauses of columns -/

/-- `c.Kept lead stop`: what is kept after the type where clauses of columns go.
After a type other than `SET`, nothing need be. -/
inductive Kept (c : QuotedColumn) : Text → Bool → Prop
  | firm {s o more : Text} (h : c.Lead s o more) (hfirm : o = [] → more = []) :
      Kept c (s ++ o) more.isEmpty
  | other (hset : spells "SET".toList c.type = false) : Kept c [] false

/-- From here on, the beginning that is kept is the one that the clauses leave. -/
theorem Lead.exists_kept (h : c.Lead s o more) (hline : c.Extends (s ++ o) more.isEmpty line) :
    ∃ lead stop, c.Kept lead stop ∧ c.Extends lead stop line := by
  cases hset : spells "SET".toList c.type with
  | true => exact ⟨_, _, .firm h (by simp [h.set hset]), hline⟩
  | false =>
    obtain ⟨r, -, rfl⟩ := hline
    exact ⟨[], false, .other hset, s ++ o ++ r, by simp, rfl⟩

/-- It has no quote mark. -/
theorem Kept.isQuote_eq_false (h : c.Kept lead stop) {d : Char}
    (hd : d ∈ c.line (c.type ++ lead)) : isQuote d = false := by
  cases h with
  | firm h _ =>
    have hinert := (isInert_of_class (h.mem_line hd)).1
    simp [isInert] at hinert
    simp [isQuote, hinert]
  | other _ => exact Literal.isQuote_eq_false (c.mem_line c.type_word.2 (by simpa using hd))

/-- A clause that begins with one of the followers is no part of what is kept. -/
theorem Kept.passes (h : c.Kept lead stop) {w : String} (hw : w ∈ followers)
    (hleads : p.LeadsTo fun m => ∃ before, (letters w.toList ++ a).Fits before m)
    (hp : ∀ before t, p.Fits before t → t.head?.any isBlank) (hr : stop → r = []) :
    p.Passes before lead r := by
  cases h with
  | @firm s o more h hfirm =>
    have hr : more = [] → r = [] := fun hmore => hr (List.isEmpty_iff.mpr hmore)
    have hmark : ∀ before t, p.Fits before t → t.head?.any isMark = false := by
      intro before t hfits
      have hhead := hp before t hfits
      cases t with
      | nil => rfl
      | cons d t =>
        rw [List.head?_cons, Option.any_some, ← Bool.not_eq_true]
        intro hd
        simp [(isWord_of_isMark hd).2] at hhead
    have hsite : ¬ ∃ before, (letters w.toList ++ a).Fits before (o ++ r) := by
      rintro ⟨before, hfits⟩
      exact h.not_fits hfirm hr hw hfits
    rw [passes_append]
    exact ⟨hleads.passes_blanks h.blank (h.head_solid hfirm hr) hsite,
      h.passes_solid hleads hmark fun _ => hsite⟩
  | other _ => trivial

/-- A rule that drops clauses which begin with one of the followers. -/
theorem Kept.erase (h : c.Kept lead stop) {w : String} (hw : w ∈ followers)
    (hclause : w ∈ clauseWords)
    (hp : ∀ before t, p.Fits before t → (gap ++ (letters w.toList ++ a)).Fits before t)
    (hname : ∀ u before, beginsType u →
      ¬ (letters w.toList ++ a).Fits before (c.name ++ (c.space ++ u)))
    (hline : c.Extends lead stop line) : c.Extends lead stop (p.erase line) := by
  have hleads : p.LeadsTo fun m => ∃ before, (letters w.toList ++ a).Fits before m :=
    (leadsTo_gap fun before _ hm => ⟨before, hm⟩).of_fits hp
  have hblank : ∀ before t, p.Fits before t → t.head?.any isBlank :=
    fun before t hfits => isBlank_of_fits_gap (hp before t hfits)
  refine hline.replaceWith (fun r hr => ?_) fun r before hr => ?_
  · have htype := c.beginsType_type (lead ++ r)
    refine c.passes_name hleads (ColumnType.isBlank_of_beginsType htype) ?_ ?_
    · rintro ⟨before, hfits⟩
      exact hname _ before htype hfits
    · rintro ⟨before, hfits⟩
      exact ColumnType.not_fits_clauseWord htype hclause hfits
  · rw [passes_append]
    refine ⟨hleads.passes_words c.type_word.2 ?_, h.passes hw hleads hblank hr⟩
    rintro ⟨before, hfits⟩
    exact ColumnType.not_fits_clauseWord (c.beginsType_type (lead ++ r)) hclause hfits

/-- Taking comments away keeps it. -/
theorem Kept.stripColumnComments (h : c.Kept lead stop) (hline : c.Extends lead stop line) :
    c.Extends lead stop (stripColumnComments line) := by
  refine h.erase (w := "COMMENT") (a := gap ++ (letters [] ++ quotedText)) (by decide) (by decide)
    (fun before t hfits => ?_) (fun u before hu hfits => ?_) hline
  · have hgap : (gap ++ (letters "COMMENT ".toList ++ quotedText)).Fits before t :=
      fits_append_assoc.mp hfits
    obtain ⟨y, m, rfl, hy, hm⟩ := fits_gap_append.mp hgap
    exact fits_gap_append.mpr ⟨y, m, rfl, hy,
      (fits_phrase_split (w := "COMMENT".toList) (v := []) (by decide)).mp hm⟩
  · rw [c.fits_name_iff (by decide) stops_gap,
      c.fits_space_iff (ColumnType.isBlank_of_beginsType hu), fits_nil_append] at hfits
    exact ColumnType.not_fits_char (c := '\'') hu rfl (by decide) hfits.2

/-- What assigns a value stops the word before it. -/
theorem stops_assignment : (assignment ++ a).Stops := by
  intro last m hlast hfits
  rw [assignment, fits_alt_append] at hfits
  rcases hfits with hfits | hfits
  · exact stops_gap last m hlast hfits
  · simp only [fits_append_assoc] at hfits
    exact stops_blanks rfl (by decide) last m hlast hfits

/-- Taking collations away keeps it, unless the column is called like the clause. -/
theorem Kept.stripCollation (h : c.Kept lead stop)
    (hfree : spells "COLLATE".toList c.name = false) (hline : c.Extends lead stop line) :
    c.Extends lead stop (stripCollation line) := by
  refine hline.mapCode (fun d hd => h.isQuote_eq_false hd) (fun line hline => ?_) .standard
  refine h.erase (w := "COLLATE") (a := assignment ++ wordChars) (by decide) (by decide)
    (fun before t hfits => fits_append_assoc.mp (fits_append_assoc.mp hfits))
    (fun u before hu hfits => ?_) hline
  · rw [c.fits_name_iff (by decide) stops_assignment, hfree] at hfits
    exact absurd hfits.1 (by decide)

end QuotedColumn
end DumpBridge.Line
