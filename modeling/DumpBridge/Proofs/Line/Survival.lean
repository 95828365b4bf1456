import DumpBridge.Proofs.Line.Charset

/-!
# Column definitions survive

A column definition with a quoted name goes through all rules.  It comes out as
a line that begins with its indentation, its name and a blank, unless the line
holds the words of an `ADD` clause for a secondary key, which may stand in a
default or a comment.  The rules run in stretches: those for every line and for
statements (`Lead.run`), the first two for clauses (`Kept.run`), the one for
character sets, and the late rules, each of which keeps the front of the line
whatever follows (`run_late`).
-/

namespace DumpBridge

open Text (Pattern isBlank isWord)
open Text.Pattern

/-! ## Running rules -/

namespace Rule

variable {line : Text}

theorem step_of_live {rule : Rule} (h : Line.isComment line = false) :
    step false line rule = rule.apply line := by
  simp [step, h]

/-- What each of some rules keeps of lines that are no comments, all of them do. -/
theorem foldl_step {P : Text → Prop} (hlive : ∀ line, P line → Line.isComment line = false)
    {rules : List Rule} (hrules : ∀ rule ∈ rules, ∀ line, P line → P (rule.apply line))
    (h : P line) : P (rules.foldl (step false) line) := by
  induction rules generalizing line with
  | nil => exact h
  | cons rule rules ih =>
    obtain ⟨hrule, hrules⟩ := List.forall_mem_cons.mp hrules
    rw [List.foldl_cons, step_of_live (hlive line h)]
    exact ih hrules (hrule line h)

/-- A comment stays one. -/
theorem isComment_step (data : Bool) (rule : Rule) (h : Line.isComment line) :
    Line.isComment (step data line rule) := by
  obtain ⟨r, hline⟩ : ∃ r, line = line.takeWhile isBlank ++ ['-', '-'] ++ r := by
    rw [Line.isComment, List.isPrefixOf_iff_prefix] at h
    obtain ⟨r, hr⟩ := h
    refine ⟨r, ?_⟩
    rw [List.append_assoc, hr, Text.trimStart, List.takeWhile_append_dropWhile]
  have hlead : ∀ c ∈ line.takeWhile isBlank, isBlank c :=
    fun c hc => List.mem_takeWhile_imp hc
  have hcomment : ∀ r, Line.isComment (line.takeWhile isBlank ++ ['-', '-'] ++ r) := by
    intro r
    have hdash : isBlank '-' = false := by decide
    rw [List.append_assoc, List.cons_append, Line.isComment_append hlead hdash]
    simp
  have hinert : ∀ c ∈ line.takeWhile isBlank ++ ['-', '-'], Line.isInert c := by
    have hdash : Line.isInert '-' := by decide
    refine List.forall_mem_append.mpr ⟨fun c hc => ?_, by simpa using hdash⟩
    exact (Line.isInert_of_class (Or.inl (hlead c hc))).1
  cases hscope : rule.scope with
  | schema => simp [step, hscope, h]
  | all =>
    have hstep : step data line rule = rule.apply line := by simp [step, hscope]
    rw [hstep, hline]
    cases rule with
    | stripNameQuotes =>
      exact (congrArg Line.isComment (Line.stripNameQuotes_append hinert r)).trans (hcomment _)
    | normalizeEscapes =>
      exact (congrArg Line.isComment (Line.normalizeEscapes_append hinert r)).trans (hcomment _)
    | nullZeroDates =>
      exact (congrArg Line.isComment (Line.nullZeroDates_append hinert r)).trans (hcomment _)
    | _ => simp [scope] at hscope

/-- **A comment stays one** through all rules. -/
theorem isComment_foldl_step (data : Bool) (rules : List Rule) (h : Line.isComment line) :
    Line.isComment (rules.foldl (step data) line) := by
  induction rules generalizing line with
  | nil => exact h
  | cons rule rules ih =>
    rw [List.foldl_cons]
    exact ih (isComment_step data rule h)

end Rule

namespace Line

/-! ## Clauses that add keys -/

/-- `AddsKey words line`: somewhere in the line stand the word `ADD`, a gap, and one
of the words. -/
def AddsKey (words : List String) (line : Text) : Prop :=
  ∃ before add space key after, line = before ++ (add ++ (space ++ (key ++ after))) ∧
    before.getLast?.any isWord = false ∧ spells "ADD".toList add ∧
    (space ≠ [] ∧ ∀ d ∈ space, isBlank d) ∧
    (∃ w ∈ words, spells w.toList key) ∧ after.head?.any isWord = false

/-- A whole word out of some, after `ADD`. -/
theorem addsKey_iff {words : List String} (hwords : ∀ w ∈ words, isKeyword w.toList)
    {p : Pattern} (hp : ∀ before t, p.Fits before t ↔
      (edge ++ (letters "ADD".toList ++ (gap ++ (anyPhrase words ++ edge)))).Fits before t)
    {line : Text} : p.occurs line ↔ AddsKey words line := by
  simp only [occurs_iff, hp, AddsKey]
  constructor
  · rintro ⟨a, b, rfl, hfits⟩
    obtain ⟨hedge, hfits⟩ := fits_edge_append.mp hfits
    rw [isWord_of_fits_keyword (by decide) hfits] at hedge
    obtain ⟨add, m, rfl, hadd, hfits⟩ := (fits_word_append (by decide)).mp hfits
    obtain ⟨space, m, rfl, ⟨hne, hspace, -⟩, hfits⟩ := fits_gap_append.mp hfits
    obtain ⟨w, hw, hfits⟩ := fits_anyPhrase_append.mp hfits
    obtain ⟨key, after, rfl, hkey, hafter⟩ := (fits_keyword_edge (hwords w hw)).mp hfits
    exact ⟨a, add, space, key, after, rfl, by simpa using hedge, hadd, ⟨hne, hspace⟩,
      ⟨w, hw, hkey⟩, hafter⟩
  · rintro ⟨a, add, space, key, after, rfl, hedge, hadd, ⟨hne, hspace⟩, ⟨w, hw, hkey⟩, hafter⟩
    have hsolid : (key ++ after).head?.any isBlank = false :=
      head_append_of_spells (hwords w hw) hkey after
    have hwhole : ∀ before, (anyPhrase words ++ edge).Fits before (key ++ after) := fun before =>
      fits_anyPhrase_append.mpr ⟨w, hw,
        (fits_keyword_edge (hwords w hw)).mpr ⟨key, after, rfl, hkey, hafter⟩⟩
    have hfits : (letters "ADD".toList ++ (gap ++ (anyPhrase words ++ edge))).Fits a.getLast?
        (add ++ (space ++ (key ++ after))) :=
      (fits_word_append (by decide)).mpr ⟨add, _, rfl, hadd, fits_gap_append.mpr
        ⟨space, _, rfl, ⟨hne, hspace, hsolid⟩, hwhole _⟩⟩
    refine ⟨a, _, rfl, fits_edge_append.mpr ⟨?_, hfits⟩⟩
    rw [hedge, isWord_of_fits_keyword (by decide) hfits]
    decide

theorem addPrimaryOrUnique_occurs_iff {line : Text} :
    addPrimaryOrUnique.occurs line ↔ AddsKey ["PRIMARY", "UNIQUE"] line := by
  refine addsKey_iff (by decide) fun before t => ?_
  simp only [addPrimaryOrUnique, fits_append_assoc, fits_edge_append]
  exact and_congr_right fun _ => fits_word_gap (w := "ADD".toList) (by decide)

/-- The word that may follow a key word makes no difference. -/
theorem fits_optional_edge {word : Text} {q : Pattern} (hword : isKeyword word)
    (hq : ∀ before t, q.Fits before t → t.head?.any isBlank) {before : Option Char}
    {t : Text} : (letters word ++ (optional q ++ edge)).Fits before t ↔
      (letters word ++ edge).Fits before t := by
  rw [fits_word_append (not_mem_of_isKeyword hword), fits_word_append (not_mem_of_isKeyword hword)]
  constructor
  · rintro ⟨y, m, rfl, hy, hfits⟩
    rcases fits_optional_append.mp hfits with hfits | hfits
    · obtain ⟨z, r, rfl, hz, -⟩ := fits_append.mp hfits
      have hhead := not_isWord_of_blank (hq _ _ ⟨z, r, rfl, hz⟩)
      obtain ⟨hne, hletters⟩ := isWord_of_spells hword hy
      have hlast := hletters _ (List.getLast_mem hne)
      refine ⟨y, z ++ r, rfl, hy, fits_edge.mpr ?_⟩
      rw [hhead, List.getLast?_eq_some_getLast hne]
      simp [hlast]
    · exact ⟨y, m, rfl, hy, hfits⟩
  · rintro ⟨y, m, rfl, hy, hfits⟩
    exact ⟨y, m, rfl, hy, fits_optional_append.mpr (Or.inr hfits)⟩

/-- The second word that two of the kinds may have does not matter for where they fit. -/
theorem fits_secondaryWord {before : Option Char} {t : Text} :
    (alt (anyPhrase ["FULLTEXT", "SPATIAL"] ++ optional (anyPhrase [" KEY", " INDEX"]))
      (anyPhrase ["KEY", "INDEX"]) ++ edge).Fits before t ↔
    (anyPhrase ["FULLTEXT", "SPATIAL", "KEY", "INDEX"] ++ edge).Fits before t := by
  have hblank : ∀ before t, (anyPhrase [" KEY", " INDEX"]).Fits before t → t.head?.any isBlank := by
    intro before t hfits
    rw [anyPhrase, fits_anyOf] at hfits
    obtain ⟨q, hq, hfits⟩ := hfits
    simp only [List.map_cons, List.map_nil, List.mem_cons, List.not_mem_nil, or_false] at hq
    rcases hq with rfl | rfl
    · exact isBlank_of_fits_gap hfits
    · exact isBlank_of_fits_gap hfits
  have hkeyword : ∀ w ∈ ["FULLTEXT", "SPATIAL"], isKeyword w.toList := by decide
  rw [fits_alt_append, fits_append_assoc, fits_anyPhrase_append, fits_anyPhrase_append,
    fits_anyPhrase_append]
  constructor
  · rintro (⟨w, hw, hfits⟩ | ⟨w, hw, hfits⟩)
    · exact ⟨w, List.mem_append_left ["KEY", "INDEX"] hw,
        (fits_optional_edge (hkeyword w hw) hblank).mp hfits⟩
    · exact ⟨w, List.mem_append_right ["FULLTEXT", "SPATIAL"] hw, hfits⟩
  · rintro ⟨w, hw, hfits⟩
    rcases List.mem_append.mp (show w ∈ ["FULLTEXT", "SPATIAL"] ++ ["KEY", "INDEX"] from hw)
      with hw | hw
    · exact Or.inl ⟨w, hw, (fits_optional_edge (hkeyword w hw) hblank).mpr hfits⟩
    · exact Or.inr ⟨w, hw, hfits⟩

/-- A secondary key is added where the words for it stand. -/
theorem addSecondaryKey_occurs_iff {line : Text} :
    addSecondaryKey.occurs line ↔
      AddsKey ["FULLTEXT", "SPATIAL", "KEY", "INDEX"] line := by
  refine addsKey_iff (by decide) fun before t => ?_
  simp only [addSecondaryKey, fits_append_assoc, fits_edge_append]
  refine and_congr_right fun _ => (fits_word_gap (w := "ADD".toList) (by decide)).trans ?_
  simp only [fits_word_append (w := "ADD".toList) (by decide), fits_gap_append,
    fits_secondaryWord]

namespace QuotedColumn

variable (c : QuotedColumn) {line s o more lead : Text} {stop : Bool}

/-! ## The line before its backticks go -/

/-- A column is live. -/
theorem isComment_text : isComment c.text = false := by
  have hbacktick : isBlank '\x60' = false := by decide
  rw [text, isComment_append c.indent_blank hbacktick]
  simp [List.isPrefixOf]

theorem isData_text : isData c.text = false := by
  have hbacktick : isBlank '\x60' = false := by decide
  have hupper : '\x60'.toUpper = '\x60' := by decide
  rw [isData, text, Text.trimStart_append c.indent_blank (by simpa using hbacktick)]
  simp [Text.startsWith, List.isPrefixOf, hupper]

/-- A word does not begin with the backtick. -/
theorem not_fits_backtick {k t : Text} {a : Pattern} {before : Option Char}
    (hk : isKeyword k) : ¬ (letters k ++ a).Fits before ('\x60' :: t) := by
  intro hfits
  have hword : isWord '\x60' = false := by decide
  have hhead := isWord_of_fits_keyword hk hfits
  simp [hword] at hhead

/-- Blanks and then a word do not begin the line. -/
theorem fits_blanks_text_iff {a : Pattern} : (blanks ++ a).Fits none c.text ↔
    a.Fits c.indent.getLast?
      ('\x60' :: (c.name ++ '\x60' :: (c.space ++ (c.type ++ c.attributes)))) := by
  have hbacktick : isBlank '\x60' = false := by decide
  rw [text, fits_blanks_append c.indent_blank (by simpa using hbacktick), Option.or_none]

/-- It is no secondary key. -/
theorem secondaryKey_starts_text : secondaryKey.starts c.text = false := by
  rw [← Bool.not_eq_true, starts_iff, secondaryKey]
  simp only [fits_append_assoc]
  rw [c.fits_blanks_text_iff, fits_optional_append, fits_anyPhrase_append, fits_anyPhrase_append]
  rintro (⟨w, hw, hfits⟩ | ⟨w, hw, hfits⟩)
  · simp only [List.mem_cons, List.not_mem_nil, or_false] at hw
    rcases hw with rfl | rfl
    · exact not_fits_backtick (k := "FULLTEXT".toList) (by decide)
        ((fits_word_gap (by decide)).mp hfits)
    · exact not_fits_backtick (k := "SPATIAL".toList) (by decide)
        ((fits_word_gap (by decide)).mp hfits)
  · simp only [List.mem_cons, List.not_mem_nil, or_false] at hw
    rcases hw with rfl | rfl
    · exact not_fits_backtick (k := "KEY".toList) (by decide)
        ((fits_word_gap (by decide)).mp hfits)
    · exact not_fits_backtick (k := "INDEX".toList) (by decide)
        ((fits_word_gap (by decide)).mp hfits)

theorem identityModification_starts_text : identityModification.starts c.text = false := by
  rw [← Bool.not_eq_true, starts_iff, identityModification]
  simp only [fits_append_assoc]
  rw [c.fits_blanks_text_iff]
  exact not_fits_backtick (k := "MODIFY".toList) (by decide)

/-- The line becomes a comment where a secondary key seems to be added. -/
theorem commentSecondaryKeys_text : commentSecondaryKeys c.text = if
    addSecondaryKey.occurs c.text && !addPrimaryOrUnique.occurs c.text then commentOut c.text
    else c.text := by
  rw [commentSecondaryKeys, c.secondaryKey_starts_text, Bool.false_or]

/-! ## The rules in order -/

/-- The rules between the one that takes the backticks off and those for clauses of
columns. -/
def earlyRules : List Rule := [.normalizeEscapes, .nullZeroDates, .commentConditionalBlocks,
  .renameTimeZone, .commentSessionStatements, .stripTableOptions]

/-- The rules for clauses of columns, up to the one for character sets. -/
def clauseRules : List Rule := [.stripColumnComments, .stripCollation]

/-- The rules from the change of types on. -/
def lateRules : List Rule := [.mapTypes, .booleanDefaults, .stripOnUpdate, .currentTimestampCalls,
  .stripAutoIncrement, .stripIndexMethods, .plainKeys]

/-- Names that are taken for clauses. -/
def clauseNames : List String := ["COLLATE", "CHARSET", "AUTO_INCREMENT"]

variable {c}

/-- **The early rules** keep the beginning of a column. -/
theorem Lead.run (h : c.Lead s o more) (hline : c.Extends (s ++ o) more.isEmpty line) :
    c.Extends (s ++ o) more.isEmpty (earlyRules.foldl (Rule.step false) line) := by
  refine Rule.foldl_step (P := c.Extends (s ++ o) more.isEmpty)
    (fun _ => Extends.isComment_eq_false) (fun rule hrule line hline => ?_) hline
  simp only [earlyRules, List.mem_cons, List.not_mem_nil, or_false] at hrule
  rcases hrule with rfl | rfl | rfl | rfl | rfl | rfl
  · exact h.normalizeEscapes hline
  · exact h.nullZeroDates hline
  · exact h.commentConditionalBlocks hline
  · exact h.renameTimeZone hline
  · exact h.commentSessionStatements hline
  · obtain ⟨r, hr, rfl⟩ := hline
    exact ⟨r, hr, c.stripTableOptions_line _⟩

/-- **The rules for clauses** keep what was kept, unless the column is called like one. -/
theorem Kept.run (h : c.Kept lead stop) (hfree : spells "COLLATE".toList c.name = false)
    (hline : c.Extends lead stop line) :
    c.Extends lead stop (clauseRules.foldl (Rule.step false) line) := by
  refine Rule.foldl_step (P := c.Extends lead stop) (fun _ => Extends.isComment_eq_false)
    (fun rule hrule line hline => ?_) hline
  simp only [clauseRules, List.mem_cons, List.not_mem_nil, or_false] at hrule
  rcases hrule with rfl | rfl
  · exact h.stripColumnComments hline
  · exact h.stripCollation hfree hline

/-- **The late rules** keep the name, and a type behind it. -/
theorem run_late (hfree : spells "AUTO_INCREMENT".toList c.name = false) {u : Text}
    (hu : ColumnType.beginsType u) : ∃ u', ColumnType.beginsType u' ∧
      lateRules.foldl (Rule.step false) (c.line u) = c.line u' := by
  refine Rule.foldl_step (P := fun line => ∃ u, ColumnType.beginsType u = true ∧ line = c.line u)
    ?_ (fun rule hrule line hline => ?_) ⟨u, hu, rfl⟩
  · rintro _ ⟨u, -, rfl⟩
    exact c.isComment_line u
  · obtain ⟨u, hu, rfl⟩ := hline
    simp only [lateRules, List.mem_cons, List.not_mem_nil, or_false] at hrule
    rcases hrule with rfl | rfl | rfl | rfl | rfl | rfl | rfl
    · exact ColumnName.keeps_mapTypes u hu
    · exact ColumnName.keeps_booleanDefaults u hu
    · exact ColumnName.keeps_stripOnUpdate u hu
    · exact ColumnName.keeps_currentTimestampCalls u hu
    · exact ColumnName.keeps_stripAutoIncrement hfree u hu
    · exact ColumnName.keeps_stripIndexMethods u hu
    · exact ColumnName.keeps_plainKeys u hu

/-! ## The line before character sets go -/

/-- The line as the rule for character sets finds it. -/
def beforeCharset (c : QuotedColumn) : Text :=
  (Rule.all.tail.takeWhile (· != .stripCharset)).foldl (Rule.step false) c.text

/-- The rule for character sets takes the type for its clause. -/
def TakenForCharset (c : QuotedColumn) : Prop :=
  ∃ u, c.beforeCharset = c.line u ∧ NamesCharset u

/-- What the rule for character sets comes to. -/
theorem beforeCharset_eq : c.beforeCharset = clauseRules.foldl (Rule.step false)
    (earlyRules.foldl (Rule.step false) (stripNameQuotes c.text)) := by
  have hrules : Rule.all.tail.takeWhile (· != .stripCharset) =
      .commentIdentityModifications :: .stripNameQuotes :: (earlyRules ++ clauseRules) := rfl
  have hkept : Rule.step false c.text .commentIdentityModifications = c.text := by
    rw [Rule.step_of_live c.isComment_text]
    simp only [Rule.apply, commentIdentityModifications, c.identityModification_starts_text]
    rfl
  rw [beforeCharset, hrules, List.foldl_cons, hkept, List.foldl_cons,
    Rule.step_of_live c.isComment_text, List.foldl_append]
  rfl

/-- The name and the type are still there when the rule for character sets comes. -/
theorem exists_kept (hfree : spells "COLLATE".toList c.name = false) :
    ∃ lead stop, c.Kept lead stop ∧ c.Extends lead stop c.beforeCharset := by
  obtain ⟨s, o, more, h⟩ := c.exists_lead
  obtain ⟨lead, stop, hkept, hline⟩ := h.exists_kept (h.run h.stripNameQuotes)
  rw [beforeCharset_eq]
  exact ⟨lead, stop, hkept, hkept.run hfree hline⟩

/-- **A type is taken for a character set** only if it is a bare `CHAR` or `CHARACTER`
and the first word after it is one of the followers. -/
theorem not_takenForCharset (hfree : spells "COLLATE".toList c.name = false)
    (h : (∃ w ∈ ["CHAR", "CHARACTER"], spells w.toList c.type) →
      isFirm c.attributes) : ¬ c.TakenForCharset := by
  have hline : ∀ {u v}, c.line u = c.line v → u = v := by
    intro u v heq
    simpa [ColumnName.line] using heq
  rintro ⟨u, hu, hnames⟩
  by_cases hchar : ∃ w ∈ ["CHAR", "CHARACTER"], spells w.toList c.type
  · obtain ⟨s, o, more, hlead, hfirm⟩ := c.exists_lead_of_isFirm (h hchar)
    obtain ⟨r, hr, hbefore⟩ := (Kept.firm hlead hfirm).run hfree (hlead.run hlead.stripNameQuotes)
    rw [← beforeCharset_eq, hu] at hbefore
    rw [hline hbefore, List.append_assoc] at hnames
    exact hlead.not_namesCharset hfirm (fun hmore => hr (List.isEmpty_iff.mpr hmore)) hnames
  · obtain ⟨lead, stop, -, r, -, hbefore⟩ := exists_kept hfree
    rw [hu] at hbefore
    rw [hline hbefore] at hnames
    refine not_namesCharset_type (fun w hw => ?_) hnames
    rw [← Bool.not_eq_true]
    exact fun hspells => hchar ⟨w, hw, hspells⟩

/-- **All rules but the first** keep a column definition. -/
theorem run (hfree : ∀ w ∈ clauseNames, spells w.toList c.name = false)
    (htype : ¬ c.TakenForCharset) : ∃ u, ColumnType.beginsType u ∧
      Rule.all.tail.foldl (Rule.step false) c.text = c.line u := by
  have hrules : Rule.all.tail =
      Rule.all.tail.takeWhile (· != .stripCharset) ++ .stripCharset :: lateRules := rfl
  obtain ⟨lead, stop, hkept, hline⟩ := exists_kept (hfree "COLLATE" (by decide))
  obtain ⟨u, hu, hcharset⟩ := hkept.stripCharset (hfree "CHARSET" (by decide)) hline
    fun u hline hnames => htype ⟨u, hline, hnames⟩
  have hstep : Rule.step false c.beforeCharset .stripCharset = c.line u := by
    rw [Rule.step_of_live hline.isComment_eq_false]
    exact hcharset
  obtain ⟨u', hu', hlate⟩ := run_late (hfree "AUTO_INCREMENT" (by decide)) hu
  refine ⟨u', hu', ?_⟩
  rw [hrules, List.foldl_append, List.foldl_cons, ← beforeCharset, hstep, hlate]

/-! ## What comes out -/

/-- The line is no comment and begins with the indentation, the name and a blank. -/
def Survives (c : QuotedColumn) (line : Text) : Prop :=
  isComment line = false ∧ ∃ b rest, isBlank b ∧ line = c.indent ++ (c.name ++ b :: rest)

/-- The definition is taken for a clause that adds a secondary key. -/
def TakenForKey (c : QuotedColumn) (options : Options) : Prop :=
  options.commentSecondaryIndexes ∧
    AddsKey ["FULLTEXT", "SPATIAL", "KEY", "INDEX"] c.text ∧ ¬ AddsKey ["PRIMARY", "UNIQUE"] c.text

/-- **A column survives all rules but the first**, unless its name or its type is taken for
a clause. -/
theorem survives_run (hfree : ∀ w ∈ clauseNames, spells w.toList c.name = false)
    (htype : ¬ c.TakenForCharset) : c.Survives (Rule.all.tail.foldl (Rule.step false) c.text) := by
  obtain ⟨u, -, hrun⟩ := run hfree htype
  obtain ⟨b, space, hspace⟩ := List.exists_cons_of_ne_nil c.space_ne
  rw [hrun]
  exact ⟨c.isComment_line u, b, space ++ u, c.space_blank b (by simp [hspace]),
    by simp [ColumnName.line, hspace]⟩

theorem not_survives_comment (data : Bool) (rules : List Rule) :
    ¬ c.Survives (rules.foldl (Rule.step data) (commentOut line)) := by
  rintro ⟨hlive, -⟩
  rw [Rule.isComment_foldl_step data rules (isComment_commentOut line)] at hlive
  exact absurd hlive (by decide)

theorem enabled_eq (options : Options) : Rule.enabled options =
    if options.commentSecondaryIndexes then Rule.all else Rule.all.tail := by
  cases h : options.commentSecondaryIndexes <;>
    simp [Rule.enabled, Rule.all, Rule.isEnabled, Rule.toggle, h]

/-- **Column definitions survive** all rules, unless they are taken for a clause that
adds a key. -/
theorem survives_convert_iff (c : QuotedColumn) (options : Options)
    (hfree : ∀ w ∈ clauseNames, spells w.toList c.name = false) (htype : ¬ c.TakenForCharset) :
    c.Survives (convert options c.text) ↔ ¬ c.TakenForKey options := by
  rw [convert, c.isData_text, enabled_eq, TakenForKey, ← addSecondaryKey_occurs_iff,
    ← addPrimaryOrUnique_occurs_iff]
  cases hoption : options.commentSecondaryIndexes with
  | false => simpa using survives_run hfree htype
  | true =>
    have hall : Rule.all = .commentSecondaryKeys :: Rule.all.tail := rfl
    rw [if_pos rfl, hall, List.foldl_cons, Rule.step_of_live c.isComment_text]
    simp only [Rule.apply, c.commentSecondaryKeys_text, Bool.and_eq_true, Bool.not_eq_true']
    split
    · next h =>
      refine iff_of_false (not_survives_comment false _) fun hnot => hnot ⟨trivial, h.1, ?_⟩
      simp [h.2]
    · next h =>
      refine iff_of_true (survives_run hfree htype) ?_
      rintro ⟨-, hadds, hnot⟩
      exact h ⟨hadds, by simpa using hnot⟩

/-- A set with the name `character`, whose comment names both kinds of keys. -/
def flagsColumn : QuotedColumn where
  indent := "  ".toList
  name := "character".toList
  space := " ".toList
  type := "set".toList
  attributes := "('a','b') COMMENT 'ADD KEY, or ADD UNIQUE KEY',".toList
  indent_ne := by decide
  indent_blank := by decide
  name_start := by decide
  name_word := by decide
  space_ne := by decide
  space_blank := by decide
  type_known := by decide
  attributes_head := by decide
  attributes_set := by decide

/-- A column survives with the words for both kinds of keys in its comment. -/
theorem survives_flagsColumn : (∀ w ∈ clauseNames, spells w.toList flagsColumn.name = false) ∧
    ¬ flagsColumn.TakenForCharset ∧ flagsColumn.Survives (convert {} flagsColumn.text) := by
  have htype : ¬ flagsColumn.TakenForCharset := not_takenForCharset (by decide) (by decide)
  refine ⟨by decide, htype, (survives_convert_iff flagsColumn {} (by decide) htype).mpr ?_⟩
  rintro ⟨-, -, hnot⟩
  exact hnot (addPrimaryOrUnique_occurs_iff.mp (by decide +kernel))

/-- A text whose comment names a key. -/
def noteColumn : QuotedColumn where
  indent := "  ".toList
  name := "note".toList
  space := " ".toList
  type := "text".toList
  attributes := " COMMENT 'see ADD KEY',".toList
  indent_ne := by decide
  indent_blank := by decide
  name_start := by decide
  name_word := by decide
  space_ne := by decide
  space_blank := by decide
  type_known := by decide
  attributes_head := by decide
  attributes_set := by decide

/-- The words in its comment make the definition a comment. -/
theorem not_survives_noteColumn : ¬ noteColumn.Survives (convert {} noteColumn.text) := by
  rintro ⟨hlive, -⟩
  exact absurd hlive (by decide +kernel)

/-- A column with the name of a clause loses it. -/
example : convert {} "  \x60collate\x60 varchar(10) NOT NULL,".toList =
    "(10) NOT NULL,".toList := by
  decide +kernel

/-- A type that begins the clause of a character set goes with it. -/
example : convert {} "  \x60initial\x60 character set latin1,".toList = "  initial,".toList := by
  decide +kernel

end QuotedColumn
end Line
end DumpBridge
