import DumpBridge.Line.Columns
import DumpBridge.Line.Keys
import DumpBridge.Proofs.Line.TypeText
import DumpBridge.Proofs.Literal.Code
import DumpBridge.Proofs.Text.Preferred

/-!
# Lines that begin with the name of a column

A line of a table definition begins with blanks, a bare name and a gap before a
type.  The rules that run after the clauses of character sets are gone look for
other words than types, so they change nothing in front of the type
(`Keeps`), whatever the name is.  Only the words of automatic numbering may be
taken for a clause where they are a name.
-/

namespace DumpBridge.Line

open Text (Pattern Cursor isBlank isNameStart isWord)
open Text.Pattern
open ColumnType (beginsType clauseWords)
open Literal (Quoting isQuote isQuote_eq_false mapCode)

/-- The name of a column with the blanks around it. -/
structure ColumnName where
  indent : Text
  name : Text
  space : Text
  indent_ne : indent ≠ []
  indent_blank : ∀ c ∈ indent, isBlank c
  /-- The name begins with a letter or an underscore. -/
  name_start : name.head?.any isNameStart
  name_word : ∀ c ∈ name, isWord c
  space_ne : space ≠ []
  space_blank : ∀ c ∈ space, isBlank c

namespace ColumnName

variable (n : ColumnName) {u v : Text} {a p : Pattern} {before : Option Char} {k : Text}

/-- The line that begins with the name and goes on with `u`. -/
def line (u : Text) : Text :=
  n.indent ++ (n.name ++ (n.space ++ u))

/-- The characters of the line up to the type, and of the type's word. -/
theorem mem_line {t : Text} (ht : ∀ d ∈ t, isWord d) {d : Char} (hd : d ∈ n.line t) :
    isBlank d ∨ isWord d := by
  simp only [line, List.mem_append] at hd
  rcases hd with hd | hd | hd | hd
  · exact Or.inl (n.indent_blank d hd)
  · exact Or.inr (n.name_word d hd)
  · exact Or.inl (n.space_blank d hd)
  · exact Or.inr (ht d hd)

/-- A name has a first letter. -/
theorem exists_name : ∃ c t, n.name = c :: t ∧ isNameStart c := by
  have hstart := n.name_start
  cases hname : n.name with
  | nil => simp [hname] at hstart
  | cons c t => exact ⟨c, t, rfl, by simpa [hname] using hstart⟩

theorem head_name (t : Text) : (n.name ++ t).head?.any isBlank = false := by
  obtain ⟨c, x, hname, hc⟩ := n.exists_name
  simpa [hname] using Text.isBlank_eq_false_of_isWord (Text.isWord_of_isNameStart hc)

theorem head_space (u : Text) : (n.space ++ u).head?.any isWord = false := by
  obtain ⟨c, x, hspace⟩ := List.exists_cons_of_ne_nil n.space_ne
  simpa [hspace] using Text.isWord_eq_false_of_isBlank (n.space_blank c (by simp [hspace]))

theorem getLast?_space (before : Option Char) : n.space.getLast?.or before = n.space.getLast? := by
  rw [List.getLast?_eq_some_getLast n.space_ne, Option.some_or]

/-- A column is no comment. -/
theorem isComment_line (u : Text) : isComment (n.line u) = false := by
  obtain ⟨c, x, hname, hc⟩ := n.exists_name
  have hdash : c ≠ '-' := by
    rintro rfl
    exact absurd hc (by decide)
  rw [line, hname, List.cons_append, isComment_append n.indent_blank
    (Text.isBlank_eq_false_of_isWord (Text.isWord_of_isNameStart hc))]
  simp [List.isPrefixOf, Ne.symm hdash]

/-- A keyword at the name is the name. -/
theorem fits_name_iff (hk : isKeyword k) (ha : a.Stops) :
    (letters k ++ a).Fits before (n.name ++ (n.space ++ u)) ↔
      spells k n.name ∧ a.Fits n.name.getLast? (n.space ++ u) :=
  fits_keyword_append (fun _ => id) hk ha n.name_word (n.head_space u)

/-- The gap after the name leads to the type. -/
theorem fits_space_iff (hu : u.head?.any isBlank = false) :
    (gap ++ a).Fits before (n.space ++ u) ↔ a.Fits n.space.getLast? u := by
  rw [fits_gap_append]
  constructor
  · rintro ⟨y, m, hsplit, ⟨-, hy, hm⟩, hfits⟩
    obtain ⟨rfl, rfl⟩ := Text.span_inj n.space_blank hy hu hm hsplit
    rwa [getLast?_space] at hfits
  · intro hfits
    exact ⟨n.space, u, rfl, ⟨n.space_ne, n.space_blank, hu⟩, by rwa [getLast?_space]⟩

/-- A pattern that begins with blanks leads to the name. -/
theorem fits_line_iff :
    (blanks ++ a).Fits none (n.line u) ↔ a.Fits n.indent.getLast? (n.name ++ (n.space ++ u)) := by
  rw [line, fits_blanks_append n.indent_blank (n.head_name _), Option.or_none]

/-- A phrase at the name goes on at the type. -/
theorem fits_type_of_fits_phrase {v : Text} (hk : isKeyword k) (hu : beginsType u)
    (hfits : (letters (k ++ ' ' :: v) ++ a).Fits before (n.name ++ (n.space ++ u))) :
    (letters v ++ a).Fits n.space.getLast? u := by
  rw [fits_phrase_split (not_mem_of_isKeyword hk), n.fits_name_iff hk stops_gap,
    n.fits_space_iff (ColumnType.isBlank_of_beginsType hu)] at hfits
  exact hfits.2

/-- A mark after the name does not stand in front of a type. -/
theorem not_fits_blanks (hu : beginsType u) {c : Char} (hfirst : a.first = char c)
    (hc : isWord c = false) : ¬ (blanks ++ a).Fits before (n.space ++ u) := by
  rw [fits_blanks_append n.space_blank (ColumnType.isBlank_of_beginsType hu)]
  exact ColumnType.not_fits_char hu hfirst hc

/-- If no match starts in the name and the blanks around it, only what follows is replaced. -/
theorem replaceWith_line_of_passes {new : Cursor → Text}
    (h : p.Passes none (n.indent ++ (n.name ++ n.space)) u) :
    p.replaceWith new (n.line u) = n.line (p.replaceFrom new n.space.getLast? 0 u) := by
  have hlast : (n.indent ++ (n.name ++ n.space)).getLast?.or none = n.space.getLast? := by
    simp only [List.getLast?_append, getLast?_space, Option.or_none]
  have hline : ∀ u, n.line u = n.indent ++ (n.name ++ n.space) ++ u := by simp [line]
  rw [replaceWith, hline, replaceFrom_of_passes h, hlast, ← hline]

/-- **What the name is not taken for** is passed over, up to the type. -/
theorem passes_name {site : Text → Prop} (h : p.LeadsTo site) (hu : u.head?.any isBlank = false)
    (hname : ¬ site (n.name ++ (n.space ++ u))) (hsite : ¬ site u) :
    p.Passes none (n.indent ++ (n.name ++ n.space)) u := by
  rw [passes_append, passes_append, List.append_assoc]
  exact ⟨h.passes_blanks n.indent_blank (n.head_name _) hname,
    h.passes_words n.name_word hname, h.passes_blanks n.space_blank hu hsite⟩

/-- A pattern that does not begin with a blank need not care for the type. -/
theorem passes_name_of_head {site : Text → Prop} (h : p.LeadsTo site)
    (hp : ∀ before t, p.Fits before t → t.head?.any isBlank = false)
    (hname : ¬ site (n.name ++ (n.space ++ u))) :
    p.Passes none (n.indent ++ (n.name ++ n.space)) u := by
  rw [passes_append, passes_append, List.append_assoc]
  exact ⟨passes_of_head n.indent_blank hp, h.passes_words n.name_word hname,
    passes_of_head n.space_blank hp⟩

/-! ## Rules that change nothing in front of a type -/

/-- `n.Keeps f`: the map keeps the name, and a type after it. -/
def Keeps (f : Text → Text) : Prop :=
  ∀ u, beginsType u → ∃ u', beginsType u' ∧ f (n.line u) = n.line u'

variable {n} {f g : Text → Text}

theorem Keeps.comp (hf : n.Keeps f) (hg : n.Keeps g) : n.Keeps (fun t => g (f t)) := by
  intro u hu
  obtain ⟨v, hv, hfu⟩ := hf u hu
  obtain ⟨w, hw, hgv⟩ := hg v hv
  exact ⟨w, hw, by simp only [hfu, hgv]⟩

/-- **A pattern that leads to certain words** keeps the name, if neither the name nor the
type is one of them. -/
theorem keeps_replaceWith {new : Cursor → Text} {site : Text → Prop} (h : p.LeadsTo site)
    (hname : ∀ u, beginsType u → ¬ site (n.name ++ (n.space ++ u)))
    (hsite : ∀ u, beginsType u → ¬ site u) : n.Keeps (p.replaceWith new) := by
  intro u hu
  exact ⟨_, ColumnType.beginsType_of_leadsTo h (hsite u hu) hu,
    n.replaceWith_line_of_passes (n.passes_name h (ColumnType.isBlank_of_beginsType hu)
      (hname u hu) (hsite u hu))⟩

/-- The name and the type are code. -/
theorem Keeps.mapCode (hf : n.Keeps f) (q : Quoting) : n.Keeps (mapCode q f) := by
  intro u hu
  obtain ⟨c, t, v, rfl, hc, ht, hkept⟩ := ColumnType.exists_typeWord hu
  have hquote : ∀ d ∈ n.line (c :: t), isQuote d = false := by
    intro d hd
    exact isQuote_eq_false (n.mem_line (List.forall_mem_cons.mpr ⟨hc, ht⟩) hd)
  have hline : ∀ v, n.line (c :: (t ++ v)) = n.line (c :: t) ++ v := by simp [line]
  obtain ⟨y, r, rfl, -, -, hmap⟩ :=
    Literal.exists_mapCode_append f (by simp [line]) hquote v (q := q)
  obtain ⟨u', hu', hfu⟩ := hf _ (hkept y)
  refine ⟨u' ++ DumpBridge.Literal.mapCode q f r, ColumnType.beginsType_append hu', ?_⟩
  rw [hline, hmap, ← hline, hfu]
  simp [line]

/-- A rule that drops a clause, found by a phrase with a gap in front. -/
theorem keeps_erase_phrase {w : Text}
    (hp : ∀ before t, p.Fits before t → (letters (' ' :: w) ++ a).Fits before t)
    (hname : ∀ u before, beginsType u → ¬ (letters w ++ a).Fits before (n.name ++ (n.space ++ u)))
    (hsite : ∀ u before, beginsType u → ¬ (letters w ++ a).Fits before u) :
    n.Keeps p.erase :=
  keeps_replaceWith (leadsTo_phrase.of_fits hp)
    (fun u hu ⟨before, hfits⟩ => hname u before hu hfits)
    (fun u hu ⟨before, hfits⟩ => hsite u before hu hfits)

theorem keeps_stripOnUpdate : n.Keeps stripOnUpdate := by
  refine Keeps.mapCode (keeps_erase_phrase (w := "ON UPDATE CURRENT_TIMESTAMP".toList)
    (fun _ _ => fits_append_assoc.mp) (fun u before hu hfits => ?_)
    fun u before hu hfits => ?_) .standard
  · exact ColumnType.not_fits_clausePhrase (k := "UPDATE") hu (by decide)
      (n.fits_type_of_fits_phrase (k := "ON".toList) (by decide) hu hfits)
  · exact ColumnType.not_fits_clausePhrase (k := "ON") hu (by decide) hfits

theorem keeps_stripIndexMethods : n.Keeps stripIndexMethods := by
  refine Keeps.mapCode (keeps_erase_phrase (w := "USING ".toList)
    (fun _ _ => fits_append_assoc.mp) (fun u before hu hfits => ?_)
    fun u before hu hfits => ?_) .standard
  · have hmethod := n.fits_type_of_fits_phrase (k := "USING".toList) (v := []) (by decide) hu hfits
    obtain ⟨w, hw, hfits⟩ := fits_anyPhrase_append.mp (fits_nil_append.mp hmethod)
    have hclause : ∀ w ∈ ["BTREE", "HASH"], w ∈ clauseWords := by decide
    exact ColumnType.not_fits_clauseWord hu (hclause w hw) hfits
  · exact ColumnType.not_fits_clausePhrase (k := "USING") (v := []) hu (by decide) hfits

theorem keeps_currentTimestampCalls : n.Keeps currentTimestampCalls := by
  have hleads : (edge ++ phrase "CURRENT_TIMESTAMP" ++ blanks ++ char '(' ++ blanks ++ char ')'
      : Pattern).LeadsTo _ :=
    (leadsTo_keyword (w := "CURRENT_TIMESTAMP".toList) (by decide)).of_fits fun before t h => by
      simp only [fits_append_assoc] at h
      exact h
  have hkeeps : n.Keeps ((edge ++ phrase "CURRENT_TIMESTAMP" ++ blanks ++ char '(' ++ blanks
      ++ char ')' : Pattern).replace "CURRENT_TIMESTAMP".toList) := by
    refine keeps_replaceWith hleads ?_ ?_
    · rintro u hu ⟨before, hfits⟩
      rw [n.fits_name_iff (by decide) (stops_blanks rfl (by decide))] at hfits
      exact n.not_fits_blanks hu rfl (by decide) hfits.2
    · rintro u hu ⟨before, hfits⟩
      exact ColumnType.not_fits_clauseWord (k := "CURRENT_TIMESTAMP") hu (by decide) hfits
  exact hkeeps.mapCode .standard

/-! ## Automatic numbering -/

/-- The start value of automatic numbering leads to its word and an equals sign. -/
theorem leadsTo_numberingFrom : numberingFrom.LeadsTo fun m =>
    ∃ before, (letters "AUTO_INCREMENT".toList ++ (blanks ++ (char '=' ++ (blanks ++ digits)))).Fits
      before m := by
  intro before t hfits hhead
  simp only [numberingFrom, fits_append_assoc] at hfits
  rw [fits_optional_append] at hfits
  rcases hfits with hfits | hfits
  · obtain ⟨_, m, rfl, htakes, -⟩ := fits_append.mp hfits
    obtain rfl := takes_char.mp htakes
    have hcomma : (isBlank ',' || isWord ',') = false := by decide
    simp [hcomma] at hhead
  · obtain ⟨s, m, rfl, ⟨hs, hm⟩, hfits⟩ := fits_append.mp hfits
    obtain ⟨hedge, hfits⟩ := fits_edge_append.mp hfits
    have hword := isWord_of_fits_keyword (w := "AUTO_INCREMENT".toList) (by decide) hfits
    refine ⟨s, m, rfl, hs, hm, ?_, _, hfits⟩
    rintro rfl
    rw [hword] at hedge
    simpa using hedge

/-- A column that is not called so is not taken for automatic numbering. -/
theorem keeps_stripAutoIncrement (hfree : spells "AUTO_INCREMENT".toList n.name = false) :
    n.Keeps stripAutoIncrement := by
  have hstart : n.Keeps numberingFrom.erase := by
    refine keeps_replaceWith leadsTo_numberingFrom ?_ ?_
    · rintro u hu ⟨before, hfits⟩
      rw [n.fits_name_iff (by decide) (stops_blanks rfl (by decide)), hfree] at hfits
      exact absurd hfits.1 (by decide)
    · rintro u hu ⟨before, hfits⟩
      exact ColumnType.not_fits_clauseWord (k := "AUTO_INCREMENT") hu (by decide) hfits
  have hclause : n.Keeps numbering.erase := by
    refine keeps_erase_phrase (w := "AUTO_INCREMENT".toList) (fun _ _ => id)
      (fun u before hu hfits => ?_) fun u before hu hfits => ?_
    · rw [n.fits_name_iff (by decide) stops_edge, hfree] at hfits
      exact absurd hfits.1 (by decide)
    · exact ColumnType.not_fits_clauseWord (k := "AUTO_INCREMENT") hu (by decide) hfits
  exact (hstart.comp hclause).mapCode .standard

/-! ## Truth values -/

/-- What may stand between a truth value and its default. -/
def nullability : Pattern :=
  .gap ++ .optional (.phrase "NOT ") ++ .phrase "NULL"

/-- After a gap that is not followed by a type. -/
theorem not_fits_nullability (hu : beginsType u) :
    ¬ (nullability ++ a).Fits before (n.space ++ u) := by
  intro hfits
  simp only [nullability, fits_append_assoc] at hfits
  rw [n.fits_space_iff (ColumnType.isBlank_of_beginsType hu), fits_optional_append] at hfits
  rcases hfits with hfits | hfits
  · exact ColumnType.not_fits_clausePhrase (k := "NOT") (v := []) hu (by decide) hfits
  · exact ColumnType.not_fits_clauseWord (k := "NULL") hu (by decide) hfits

/-- The words of a truth value with a default. -/
theorem fits_booleanDefault : ∃ a, ∀ before t, booleanDefault.Fits before t →
    (edge ++ (letters "BOOLEAN".toList ++ (optional (capture 1 nullability) ++
      (letters (' ' :: "DEFAULT ".toList) ++ a)))).Fits before t := by
  exact ⟨_, fun before t h => by
    simp only [booleanDefault, fits_append_assoc] at h
    exact h⟩

/-- A default that is written as a word leaves the name. -/
theorem keeps_booleanDefaults : n.Keeps booleanDefaults := by
  obtain ⟨a, hwords⟩ := fits_booleanDefault
  have hleads := (leadsTo_keyword (w := "BOOLEAN".toList) (by decide)).of_fits hwords
  have hsolid : ∀ before t, booleanDefault.Fits before t → t.head?.any isBlank = false := by
    intro before t hfits
    have hword := isWord_of_fits_keyword (by decide) (fits_edge_append.mp (hwords _ _ hfits)).2
    cases t with
    | nil => rfl
    | cons c t => simpa using Text.isBlank_eq_false_of_isWord (by simpa using hword)
  have hname : ∀ u, beginsType u → ¬ ∃ before, (letters "BOOLEAN".toList ++
      (optional (capture 1 nullability) ++ (letters (' ' :: "DEFAULT ".toList) ++ a))).Fits before
        (n.name ++ (n.space ++ u)) := by
    rintro u hu ⟨before, hfits⟩
    have hstops : (optional (capture 1 nullability) ++
        (letters (' ' :: "DEFAULT ".toList) ++ a)).Stops := by
      intro last m hlast hfits
      rw [fits_optional_append, fits_capture_append] at hfits
      rcases hfits with hfits | hfits
      · simp only [nullability, fits_append_assoc] at hfits
        exact stops_gap last m hlast hfits
      · exact stops_gap last m hlast (fits_append_assoc.mp hfits)
    rw [n.fits_name_iff (by decide) hstops, fits_optional_append, fits_capture_append] at hfits
    rcases hfits.2 with hfits | hfits
    · exact n.not_fits_nullability hu hfits
    · have hfits : (gap ++ (letters "DEFAULT ".toList ++ a)).Fits n.name.getLast? (n.space ++ u) :=
        fits_append_assoc.mp hfits
      rw [n.fits_space_iff (ColumnType.isBlank_of_beginsType hu)] at hfits
      exact ColumnType.not_fits_clausePhrase (k := "DEFAULT") (v := []) hu (by decide) hfits
  intro u hu
  refine ⟨_, ?_, n.replaceWith_line_of_passes (n.passes_name_of_head hleads hsolid (hname u hu))⟩
  refine ColumnType.beginsType_replaceFrom (fun _ _ => hleads.not_fits_inside)
    (fun _ found => ?_) hu
  exact ColumnType.beginsType_append (ColumnType.beginsType_append (ColumnType.beginsType_append
    (by decide)))

/-! ## Keys -/

/-- A column is no unique key. -/
theorem uniqueKey_eq_none (hu : beginsType u) : uniqueKey.matchStart (n.line u) = none := by
  refine matchAfter_eq_none_iff.mpr fun hfits => ?_
  simp only [uniqueKey, fits_append_assoc, fits_capture_append] at hfits
  rw [n.fits_line_iff, fits_optional_append] at hfits
  rcases hfits with hfits | hfits
  · have hunique := n.fits_type_of_fits_phrase (k := "ADD".toList) (v := []) (by decide) hu hfits
    exact ColumnType.not_fits_clausePhrase (k := "UNIQUE") (v := []) hu (by decide)
      (fits_nil_append.mp hunique)
  · have hkey := n.fits_type_of_fits_phrase (k := "UNIQUE".toList) (v := []) (by decide) hu hfits
    obtain ⟨w, hw, hfits⟩ := fits_anyPhrase_append.mp (fits_nil_append.mp hkey)
    have hclause : ∀ w ∈ ["KEY", "INDEX"], w ∈ clauseWords := by decide
    exact ColumnType.not_fits_clauseWord hu (hclause w hw) hfits

/-- Nor is it the list of another key. -/
theorem keyList_eq_none (hu : beginsType u) : keyList.matchStart (n.line u) = none := by
  refine matchAfter_eq_none_iff.mpr fun hfits => ?_
  simp only [keyList, fits_append_assoc] at hfits
  rw [n.fits_line_iff, fits_optional_append] at hfits
  rcases hfits with hfits | hfits
  · have hkey := n.fits_type_of_fits_phrase (k := "ADD".toList) (v := []) (by decide) hu hfits
    obtain ⟨w, hw, hfits⟩ := fits_anyPhrase_append.mp (fits_nil_append.mp hkey)
    simp only [List.mem_cons, List.not_mem_nil, or_false] at hw
    rcases hw with rfl | rfl
    · exact ColumnType.not_fits_clausePhrase (k := "PRIMARY") hu (by decide) hfits
    · exact ColumnType.not_fits_clauseWord (k := "UNIQUE") hu (by decide) hfits
  · obtain ⟨w, hw, hfits⟩ := fits_anyPhrase_append.mp hfits
    simp only [List.mem_cons, List.not_mem_nil, or_false] at hw
    rcases hw with rfl | rfl
    · have hkey := n.fits_type_of_fits_phrase (k := "PRIMARY".toList) (by decide) hu hfits
      exact ColumnType.not_fits_clauseWord (k := "KEY") hu (by decide) hkey
    · have hlist := (n.fits_name_iff (k := "UNIQUE".toList) (by decide)
        (stops_blanks rfl (by decide))).mp hfits
      exact n.not_fits_blanks hu rfl (by decide) hlist.2

/-- So the rules for keys keep the name. -/
theorem keeps_plainKeys : n.Keeps plainKeys := by
  intro u hu
  refine ⟨u, hu, ?_⟩
  rw [plainKeys, dropUniqueKeyName, n.uniqueKey_eq_none hu]
  simp only
  rw [dropPrefixLengths, n.keyList_eq_none hu]

/-! ## Types -/

/-- A column is not taken for a statement about a table. -/
theorem not_fits_tableStatement (hu : beginsType u) :
    ¬ (blanks ++ (anyPhrase ["CREATE", "ALTER", "DROP"] ++
      (letters (' ' :: "TABLE ".toList) ++ a))).Fits none (n.line u) := by
  intro hfits
  rw [n.fits_line_iff] at hfits
  obtain ⟨w, hw, hfits⟩ := fits_anyPhrase_append.mp hfits
  have hkeyword : ∀ w ∈ ["CREATE", "ALTER", "DROP"], isKeyword w.toList := by decide
  have hassoc : ∀ before t, (letters (' ' :: "TABLE ".toList) ++ a).Fits before t ↔
      (gap ++ (letters "TABLE ".toList ++ a)).Fits before t := fun _ _ => fits_append_assoc
  have hstops : (letters (' ' :: "TABLE ".toList) ++ a).Stops :=
    fun last m hlast hfits => stops_gap last m hlast ((hassoc _ _).mp hfits)
  rw [n.fits_name_iff (hkeyword w hw) hstops, hassoc,
    n.fits_space_iff (ColumnType.isBlank_of_beginsType hu)] at hfits
  exact ColumnType.not_fits_clausePhrase (k := "TABLE") (v := []) hu (by decide) hfits.2

/-- The name is protected up to the type. -/
theorem matchStart_protectedName (hu : beginsType u) :
    protectedName.matchStart (n.line u) =
      some ((Cursor.start none (n.line u)).advance (n.indent ++ (n.name ++ n.space))) := by
  obtain ⟨c, t, hname, hc⟩ := n.exists_name
  have hsplit : n.indent ++ (n.name ++ n.space) = n.indent ++ [c] ++ t ++ n.space := by
    simp [hname]
  have hline : n.line u = n.indent ++ [c] ++ t ++ n.space ++ u := by simp [line, hname]
  have hfolded : isFoldedNameStart c := by simp [isFoldedNameStart, hc]
  have hword : ∀ d ∈ t, (isWord d || decide (d = '$')) := by
    intro d hd
    simp [n.name_word d (by simp [hname, hd])]
  have hend : (n.space ++ u).head?.any (fun d => isWord d || decide (d = '$')) = false := by
    obtain ⟨b, s, hspace⟩ := List.exists_cons_of_ne_nil n.space_ne
    have hb := n.space_blank b (by simp [hspace])
    have hdollar : b ≠ '$' := by
      rintro rfl
      exact absurd hb (by decide)
    simp [hspace, Text.isWord_eq_false_of_isBlank hb, hdollar]
  have hstart : ([c] ++ (t ++ (n.space ++ u))).head?.any isBlank = false := by
    simpa using Text.isBlank_eq_false_of_isWord (Text.isWord_of_isNameStart hc)
  have honly : (gap ++ one isFoldedNameStart ++ run (fun d => isWord d || decide (d = '$')) ++ gap
      : Pattern).TakesOnly none (n.indent ++ [c] ++ t ++ n.space) u :=
    takesOnly_append (takesOnly_append (takesOnly_append
      (takesOnly_someOf n.indent_ne n.indent_blank (by simpa using hstart)) (takesOnly_one hfolded))
      (takesOnly_run hword hend))
      (takesOnly_someOf n.space_ne n.space_blank (ColumnType.isBlank_of_beginsType hu))
  have htable : (blanks ++ anyPhrase ["CREATE", "ALTER", "DROP"] ++ phrase " TABLE "
      ++ optional (phrase "IF " ++ optional (phrase "NOT ") ++ phrase "EXISTS ")
      ++ someOf (!isBlank ·) : Pattern).ends (.start none (n.line u)) = [] := by
    by_contra hne
    have hfits := (ends_ne_nil_iff _ _).mp hne
    simp only [fits_append_assoc] at hfits
    exact n.not_fits_tableStatement hu hfits
  rw [matchStart, matchAfter, protectedName, ends, htable, List.nil_append, hsplit]
  exact honly.head?_ends rfl hline

/-- What begins with a type does so after types are changed. -/
theorem beginsType_mapCode (hu : beginsType u) :
    beginsType (mapCode .standard ColumnType.mapTypes u) := by
  obtain ⟨c, t, v, rfl, hc, ht, hkept⟩ := ColumnType.exists_typeWord hu
  have hword : ∀ d ∈ c :: t, isWord d := List.forall_mem_cons.mpr ⟨hc, ht⟩
  have hquote : ∀ d ∈ c :: t, isQuote d = false :=
    fun d hd => isQuote_eq_false (Or.inr (hword d hd))
  obtain ⟨y, r, rfl, -, -, hmap⟩ := Literal.exists_mapCode_append ColumnType.mapTypes (by simp)
    hquote v (q := .standard)
  rw [← List.cons_append, hmap]
  exact ColumnType.beginsType_append (ColumnType.beginsType_mapTypes (hkept y))

/-- **Changing types keeps the name**, even if it is spelled like a type. -/
theorem keeps_mapTypes : n.Keeps mapTypes := by
  intro u hu
  rw [mapTypes]
  split
  · exact ⟨u, hu, rfl⟩
  · refine ⟨_, ColumnType.beginsType_setsToText (beginsType_mapCode hu), ?_⟩
    have hline : ∀ u, n.line u = n.indent ++ (n.name ++ n.space) ++ u := by simp [line]
    rw [n.matchStart_protectedName hu]
    simp only [Cursor.advance, Cursor.start, Nat.zero_add]
    rw [hline, List.take_left, List.drop_left, hline]

end ColumnName
end DumpBridge.Line
