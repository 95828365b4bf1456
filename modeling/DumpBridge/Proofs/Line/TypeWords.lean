import DumpBridge.ColumnType
import DumpBridge.Proofs.Text.WholeWords

/-!
# Words that no change of types leaves

Each change of a type starts its matches with a whole word (`wordTable`), or takes
away a modifier with the blanks before it.  So the changes keep the borders of words,
and what they put in is no word of the dump's dialect.  A word that one change takes
away is not brought back by another: after all changes none of the dump's own words is
left (`mapTypes_leaves_no_vendorWord`).
-/

namespace DumpBridge.ColumnType

open Text (Pattern Cursor HasWord HasWordAfterBlank StartsWord isBlank isDigit isWord)
open Text.Pattern

variable {a b p : Pattern} {before : Option Char} {x t rest : Text} {words : List String}
  {new : Cursor → Text} {w : String}

/-! ## Patterns that open with a word -/

/-- A match starts with one of the words, as a whole word. -/
def OpensWith (words : List String) (p : Pattern) : Prop :=
  ∀ before x rest, p.Takes before x rest → before.any isWord = false ∧
    ∃ w ∈ words, ∃ y z, x = y ++ z ∧ spells w.toList y ∧ (z ++ rest).head?.any isWord = false

theorem OpensWith.append (h : OpensWith words a) : OpensWith words (a ++ b) := by
  rintro before _ rest ⟨u, v, rfl, hu, -⟩
  obtain ⟨hbefore, w, hw, y, z, rfl, hy, hz⟩ := h before u (v ++ rest) hu
  exact ⟨hbefore, w, hw, y, z ++ v, by simp, hy, by simpa using hz⟩

/-- Before a letter there is an edge just if no letter stands in front. -/
theorem takes_edge_word (hw : isKeyword w.toList) (hx : spells w.toList x) :
    edge.Takes before [] (x ++ rest) ↔ before.any isWord = false := by
  obtain ⟨hne, hletters⟩ := isWord_of_spells hw hx
  obtain ⟨c, x, rfl⟩ := List.exists_cons_of_ne_nil hne
  have hc : isWord c := hletters c List.mem_cons_self
  simp [Takes, hc]

/-- **One of some whole words.** -/
theorem takes_typeWord (hwords : ∀ w ∈ words, isKeyword w.toList) :
    (typeWord words).Takes before x rest ↔ before.any isWord = false ∧
      (∃ w ∈ words, spells w.toList x) ∧ rest.head?.any isWord = false := by
  constructor
  · rintro ⟨_, _, rfl, ⟨_, y, rfl, ⟨rfl, hstart⟩, hy⟩, rfl, hend⟩
    obtain ⟨_, hmem, hy⟩ := takes_anyOf.mp hy
    obtain ⟨w, hw, rfl⟩ := List.mem_map.mp hmem
    have hspells := (takes_letters (not_mem_of_isKeyword (hwords w hw))).mp hy
    simp only [List.nil_append, List.append_nil] at hstart hend ⊢
    exact ⟨(takes_edge_word (hwords w hw) hspells).mp ⟨rfl, hstart⟩, ⟨w, hw, hspells⟩,
      (takes_word_edge (hwords w hw) hspells).mp ⟨rfl, hend⟩⟩
  · rintro ⟨hbefore, ⟨w, hw, hspells⟩, hrest⟩
    refine ⟨x, [], by simp, ⟨[], x, rfl, ?_, ?_⟩, ?_⟩
    · exact (takes_edge_word (hwords w hw) hspells).mpr hbefore
    · exact takes_anyOf.mpr ⟨phrase w, List.mem_map_of_mem hw,
        (takes_letters (not_mem_of_isKeyword (hwords w hw))).mpr hspells⟩
    · exact (takes_word_edge (hwords w hw) hspells).mpr hrest

/-- A whole word opens with itself. -/
theorem opensWith_typeWord (hwords : ∀ w ∈ words, isKeyword w.toList) :
    OpensWith words (typeWord words) := by
  intro before x rest h
  obtain ⟨hbefore, ⟨w, hw, hspells⟩, hrest⟩ := (takes_typeWord hwords).mp h
  exact ⟨hbefore, w, hw, x, [], by simp, hspells, hrest⟩

/-- A word before a parenthesis is whole. -/
theorem opensWith_paren (hw : isKeyword w.toList) (inner : Pattern) :
    OpensWith [w] (edge ++ phrase w ++ blanks ++ inParens inner) := by
  rintro before _ rest ⟨_, z, rfl, ⟨_, gap, rfl, ⟨_, y, rfl, ⟨rfl, hstart⟩, hy⟩, hgap, -⟩, hz⟩
  have hspells : spells w.toList y := (takes_letters (not_mem_of_isKeyword hw)).mp hy
  have hparen : (z ++ rest).head? = some '(' :=
    head?_of_fits_char (a := inParens inner) rfl ⟨z, rest, rfl, hz⟩
  refine ⟨(takes_edge_word hw hspells).mp ⟨rfl, hstart⟩, w, by simp, y, gap ++ z, by simp,
    hspells, ?_⟩
  cases gap with
  | nil =>
    rw [List.nil_append, hparen]
    decide
  | cons c gap => simpa using Text.isWord_eq_false_of_isBlank (hgap c List.mem_cons_self)

/-- Replacing whole words by texts that end in a letter keeps the borders of words. -/
theorem OpensWith.keepsBorders (h : OpensWith words p) (hwords : ∀ w ∈ words, isKeyword w.toList)
    (hnew : ∀ stop, (new stop).getLast?.any isWord) : p.KeepsBorders new := by
  intro before t stop hstop
  obtain ⟨x, rfl, htaken, hx⟩ := takes_of_matchAfter hstop
  obtain ⟨hbefore, w, hw, y, z, rfl, hy, -⟩ := h before x stop.rest hx
  obtain ⟨hne, hletters⟩ := isWord_of_spells (hwords w hw) hy
  obtain ⟨c, y, rfl⟩ := List.exists_cons_of_ne_nil hne
  refine ⟨by simp [htaken], .inl ⟨hbefore, ?_, hnew stop⟩⟩
  simpa using hletters c List.mem_cons_self

/-- **A modifier** and the blanks before it. -/
theorem takes_modifier {word : Text} (hword : isKeyword word) :
    (letters (' ' :: word) ++ edge).Takes before x rest ↔ ∃ space y, x = space ++ y ∧ space ≠ [] ∧
      (∀ c ∈ space, isBlank c) ∧ spells word y ∧ rest.head?.any isWord = false := by
  have hend : ∀ space y, spells word y →
      (edge.Takes ((space ++ y).getLast?.or before) [] rest ↔ rest.head?.any isWord = false) := by
    intro space y hy
    rw [List.getLast?_append, Option.or_assoc]
    exact takes_word_edge hword hy
  constructor
  · rintro ⟨_, _, rfl, ⟨space, y, rfl, hspace, hy⟩, rfl, hedge⟩
    obtain ⟨hne, hblank, -⟩ := takes_gap.mp hspace
    have hspells := (takes_letters (not_mem_of_isKeyword hword)).mp hy
    exact ⟨space, y, by simp, hne, hblank, hspells, (hend space y hspells).mp ⟨rfl, hedge⟩⟩
  · rintro ⟨space, y, rfl, hne, hblank, hspells, hrest⟩
    refine ⟨space ++ y, [], by simp, ⟨space, y, rfl, ?_, ?_⟩, (hend space y hspells).mpr hrest⟩
    · exact takes_gap.mpr ⟨hne, hblank, head_append_of_spells hword hspells _⟩
    · exact (takes_letters (not_mem_of_isKeyword hword)).mpr hspells

/-- Taking a modifier with the blanks before it does so too. -/
theorem keepsBorders_modifier {word : Text} (hword : isKeyword word) :
    (letters (' ' :: word) ++ edge).KeepsBorders fun _ => [] := by
  intro before t stop hstop
  obtain ⟨x, rfl, htaken, hx⟩ := takes_of_matchAfter hstop
  obtain ⟨space, y, rfl, hne, hblank, -, hrest⟩ := (takes_modifier hword).mp hx
  obtain ⟨c, space, rfl⟩ := List.exists_cons_of_ne_nil hne
  refine ⟨by simp [htaken], .inr ⟨?_, rfl, hrest⟩⟩
  simpa using Text.isWord_eq_false_of_isBlank (hblank c List.mem_cons_self)

theorem fits_modifier {word : Text} (hword : isKeyword word) {d : Char} (hd : isBlank d)
    (h : StartsWord word t) : (letters (' ' :: word) ++ edge).Fits before (d :: t) := by
  obtain ⟨y, rest, rfl, hy, hrest⟩ := h
  exact ⟨d :: y, rest, rfl,
    (takes_modifier hword).mpr ⟨[d], y, rfl, by simp, by simpa using hd, hy, hrest⟩⟩

/-! ## The words that open the changes -/

/-- The words with which the matches of the changes start, the last two changes apart. -/
def openingWords : List (List String) := [
  ["TINYINT"], ["TINYINT"], ["TINYINT"], ["SMALLINT"], ["SMALLINT"], ["MEDIUMINT"],
  ["INT", "INTEGER"],
  ["INT", "INTEGER"], ["BIGINT"], ["DOUBLE"], ["FLOAT"], ["TIMESTAMP"], ["TIMESTAMP"], ["DATETIME"],
  ["TINYBLOB", "MEDIUMBLOB", "LONGBLOB", "BLOB"], ["VARBINARY"], ["BINARY"],
  ["TINYTEXT", "MEDIUMTEXT", "LONGTEXT"]]

/-- Each change with the words that open it. -/
def wordTable : List (List String × Change) :=
  openingWords.zip changes

/-- The changes that take modifiers away. -/
def modifierChanges : List Change :=
  [.into "" zerofill, .into "" unsigned]

theorem changes_eq : changes = wordTable.map Prod.snd ++ modifierChanges := rfl

/-- The modifiers that only the dump's dialect has. -/
def vendorModifiers : List String :=
  ["UNSIGNED", "ZEROFILL"]

/-- The change that takes a modifier away. -/
def eraseModifier (w : String) : Change :=
  .into "" (letters (' ' :: w.toList) ++ edge)

theorem modifierChanges_eq :
    modifierChanges = [eraseModifier "ZEROFILL", eraseModifier "UNSIGNED"] := rfl

/-- **A change** is one of the table, or takes a modifier away. -/
theorem mem_changes_cases {change : Change} (h : change ∈ changes) :
    (∃ row ∈ wordTable, row.2 = change) ∨ ∃ w ∈ vendorModifiers, eraseModifier w = change := by
  rw [changes_eq, modifierChanges_eq] at h
  rcases List.mem_append.mp h with hrow | hmodifier
  · exact Or.inl (List.mem_map.mp hrow)
  · simp only [List.mem_cons, List.not_mem_nil, or_false] at hmodifier
    rcases hmodifier with rfl | rfl
    · exact Or.inr ⟨"ZEROFILL", by decide, rfl⟩
    · exact Or.inr ⟨"UNSIGNED", by decide, rfl⟩

theorem isKeyword_of_mem_vendorModifiers : ∀ w ∈ vendorModifiers, isKeyword w.toList := by
  decide

theorem isKeyword_of_mem_wordTable : ∀ row ∈ wordTable, ∀ w ∈ row.1, isKeyword w.toList := by
  have hall : ∀ words ∈ openingWords, ∀ w ∈ words, isKeyword w.toList := by decide
  exact fun row hrow => hall row.1 (List.of_mem_zip hrow).1

/-- Each change of the table opens with its words. -/
theorem opensWith_of_mem_wordTable : ∀ row ∈ wordTable, OpensWith row.1 row.2.source := by
  have hword : ∀ words, (∀ w ∈ words, isKeyword w.toList) → OpensWith words (typeWord words) :=
    fun _ => opensWith_typeWord
  simp only [wordTable, openingWords, changes, List.zip_cons_cons, List.zip_nil_left,
    List.forall_mem_cons, List.not_mem_nil, false_imp_iff, implies_true, and_true, Change.into]
  exact ⟨opensWith_paren (by decide) _, (hword _ (by decide)).append.append,
    (hword _ (by decide)).append,
    (hword _ (by decide)).append.append, (hword _ (by decide)).append,
    (hword _ (by decide)).append.append, (hword _ (by decide)).append.append,
    (hword _ (by decide)).append, (hword _ (by decide)).append.append,
    (hword _ (by decide)).append.append, (hword _ (by decide)).append,
    (hword _ (by decide)).append.append.append, hword _ (by decide), hword _ (by decide),
    hword _ (by decide), (hword _ (by decide)).append, opensWith_paren (by decide) _,
    hword _ (by decide)⟩

/-- What each puts in ends in a letter. -/
theorem getLast?_target_of_mem_wordTable : ∀ row ∈ wordTable, ∀ stop,
    (row.2.target stop).getLast?.any isWord := by
  have hlast : ∀ s : Text, (s ++ " DEFAULT NULL".toList).getLast?.any isWord := by
    intro s
    rw [List.getLast?_append_of_ne_nil _ (by decide)]
    decide
  simp only [wordTable, openingWords, changes, List.zip_cons_cons, List.zip_nil_left,
    List.forall_mem_cons, List.not_mem_nil, false_imp_iff, implies_true, and_true, Change.into]
  repeat' apply And.intro
  all_goals intro stop
  all_goals first | decide | exact hlast _

/-- Every change keeps the borders of words. -/
theorem keepsBorders_of_mem_changes :
    ∀ change ∈ changes, change.source.KeepsBorders change.target := by
  intro change hmem
  rcases mem_changes_cases hmem with ⟨row, hrow, rfl⟩ | ⟨w, hw, rfl⟩
  · exact (opensWith_of_mem_wordTable row hrow).keepsBorders (isKeyword_of_mem_wordTable row hrow)
      (getLast?_target_of_mem_wordTable row hrow)
  · exact keepsBorders_modifier (isKeyword_of_mem_vendorModifiers w hw)

/-! ## The words of the dump's dialect -/

/-- The types that only the dump's dialect has. -/
def vendorTypes : List String := [
  "TINYINT", "MEDIUMINT", "INT", "FLOAT", "DATETIME", "BLOB", "TINYBLOB", "MEDIUMBLOB", "LONGBLOB",
  "VARBINARY", "TINYTEXT", "MEDIUMTEXT", "LONGTEXT"]

theorem isKeyword_of_mem_vendor :
    ∀ w ∈ vendorTypes ++ vendorModifiers, isKeyword w.toList := by
  decide

/-- The letters with which these words begin. -/
def vendorInitials : List Char :=
  "TMIFDBLVUZtmifdblvuz".toList

/-- Their first letters are among the initials. -/
theorem mem_vendorInitials : ∀ w ∈ vendorTypes ++ vendorModifiers, ∃ a word, w.toList = a :: word ∧
    ∀ c, sameLetter a c → c ∈ vendorInitials := by
  have hinitial : ∀ a : Char, sameLetter a = sameLetter a.toLower → a.toLower.isLower →
      a.toLower ≠ 'k' → a.toLower ≠ 's' → a.toLower ∈ vendorInitials →
      a.toLower.toUpper ∈ vendorInitials → ∀ c, sameLetter a c → c ∈ vendorInitials := by
    intro a hfold hletter hk hs hlower hupper c hsame
    rw [hfold] at hsame
    rcases Text.eq_or_eq_of_sameLetter hletter hk hs hsame with rfl | rfl
    · exact hlower
    · exact hupper
  simp only [vendorTypes, vendorModifiers, List.cons_append, List.nil_append, List.forall_mem_cons,
    List.not_mem_nil, false_imp_iff, implies_true, and_true]
  repeat' apply And.intro
  all_goals exact ⟨_, _, rfl,
    hinitial _ rfl (by decide) (by decide) (by decide) (by decide) (by decide)⟩

theorem omits_into (target : String) (hcheck : ∀ w ∈ vendorTypes ++ vendorModifiers,
    spares w.toList none target.toList) (source : Pattern) :
    ∀ w ∈ vendorTypes ++ vendorModifiers, source.Omits (fun _ => target.toList) w.toList :=
  fun w hw _ _ _ _ => spares_of_check (isKeyword_of_mem_vendor w hw) (hcheck w hw)

/-- The one text that depends on its match is a width, which has no letters. -/
theorem omits_timestamp : ∀ w ∈ vendorTypes ++ vendorModifiers, (typeWord ["TIMESTAMP"]
    ++ Pattern.optional (capture 1 (blanks ++ inParens digits))
    ++ phrase " NULL DEFAULT NULL" ++ edge).Omits
    (fun found => "TIMESTAMPTZ".toList ++ found.captured 1 ++ " DEFAULT NULL".toList) w.toList := by
  intro w hw before t stop hstop
  have hcheck : ∀ w ∈ vendorTypes ++ vendorModifiers, spares w.toList none "TIMESTAMPTZ".toList ∧
      spares w.toList none " DEFAULT NULL".toList := by decide
  obtain ⟨hhead, htail⟩ := hcheck w hw
  have hword := isKeyword_of_mem_vendor w hw
  refine ((spares_of_check hword hhead).append ?_).append (spares_of_check hword htail)
  refine Sets.captured (P := Spares w.toList) ?_ hstop (spares_of_check hword rfl)
  refine ⟨⟨⟨sets_of_isPlain (by decide), ⟨sets_of_isPlain (by decide), ?_⟩, trivial⟩,
    sets_of_isPlain (by decide)⟩, trivial⟩
  rintro before y rest - hy -
  obtain ⟨a, word, hletters, hinitials⟩ := mem_vendorInitials w hw
  have hwithin : (blanks ++ inParens digits).Within (· ∉ vendorInitials) :=
    within_of_uses (by decide)
  have hnone := hwithin.of_takes hy
  rw [Text.Capture.text, List.take_left, hletters]
  exact spares_of_first fun c hc => Bool.eq_false_iff.mpr fun hsame =>
    hnone c hc (hinitials c hsame)

/-- No change puts in one of these words. -/
theorem omits_of_mem_changes : ∀ change ∈ changes, ∀ w ∈ vendorTypes ++ vendorModifiers,
    change.source.Omits change.target w.toList := by
  simp only [changes, List.forall_mem_cons, List.not_mem_nil, false_imp_iff, implies_true, and_true]
  have hsmallint := omits_into "SMALLINT" (by decide)
  have hinteger := omits_into "INTEGER" (by decide)
  have hbigint := omits_into "BIGINT" (by decide)
  have hbytea := omits_into "BYTEA" (by decide)
  have hgone := omits_into "" (by decide)
  exact ⟨omits_into "BOOLEAN" (by decide) _, hsmallint _, hsmallint _, hinteger _, hsmallint _,
    hinteger _, hbigint _, hinteger _, hbigint _, omits_into "DOUBLE PRECISION" (by decide) _,
    omits_into "REAL" (by decide) _, omits_timestamp, omits_into "TIMESTAMPTZ" (by decide) _,
    omits_into "TIMESTAMP" (by decide) _, hbytea _, hbytea _, hbytea _,
    omits_into "TEXT" (by decide) _, hgone _, hgone _⟩

/-! ## The words are gone -/

theorem fits_append_optional (h : a.Fits before t) : (a ++ optional b).Fits before t := by
  obtain ⟨x, rest, rfl, hx⟩ := h
  exact ⟨x, rest, rfl, x, [], by simp, by simpa using hx, .inr rfl⟩

/-- For each type there is a change that always finds it. -/
theorem exists_change_of_mem_vendorTypes : ∀ w ∈ vendorTypes, ∃ change ∈ changes, ∀ before t,
    before.any isWord = false → StartsWord w.toList t → change.source.Fits before t := by
  have hword : ∀ words, (∀ w ∈ words, isKeyword w.toList) → ∀ w ∈ words, ∀ before t,
      before.any isWord = false → StartsWord w.toList t → (typeWord words).Fits before t := by
    rintro words hwords w hw before _ hbefore ⟨y, rest, rfl, hy, hrest⟩
    exact ⟨y, rest, rfl, (takes_typeWord hwords).mpr ⟨hbefore, ⟨w, hw, hy⟩, hrest⟩⟩
  have hoption : ∀ words b, (∀ w ∈ words, isKeyword w.toList) → ∀ w ∈ words, ∀ before t,
      before.any isWord = false → StartsWord w.toList t →
        (typeWord words ++ Pattern.optional b).Fits before t :=
    fun words _ hwords w hw before t hbefore ht =>
      fits_append_optional (hword words hwords w hw before t hbefore ht)
  have hblob : ∀ w ∈ ["TINYBLOB", "MEDIUMBLOB", "LONGBLOB", "BLOB"], ∃ change ∈ changes, ∀ before t,
      before.any isWord = false → StartsWord w.toList t → change.source.Fits before t :=
    fun w hw => ⟨_, List.mem_of_getElem? (i := 14) rfl, hword _ (by decide) w hw⟩
  have htext : ∀ w ∈ ["TINYTEXT", "MEDIUMTEXT", "LONGTEXT"], ∃ change ∈ changes, ∀ before t,
      before.any isWord = false → StartsWord w.toList t → change.source.Fits before t :=
    fun w hw => ⟨_, List.mem_of_getElem? (i := 17) rfl, hword _ (by decide) w hw⟩
  simp only [vendorTypes, List.forall_mem_cons, List.not_mem_nil, false_imp_iff, implies_true,
    and_true]
  exact ⟨⟨_, List.mem_of_getElem? (i := 2) rfl, hoption _ _ (by decide) _ (by decide)⟩,
    ⟨_, List.mem_of_getElem? (i := 5) rfl, fun before t hbefore ht => fits_append_optional
      (hoption _ _ (by decide) _ (by decide) before t hbefore ht)⟩,
    ⟨_, List.mem_of_getElem? (i := 7) rfl, hoption _ _ (by decide) _ (by decide)⟩,
    ⟨_, List.mem_of_getElem? (i := 10) rfl, hoption _ _ (by decide) _ (by decide)⟩,
    ⟨_, List.mem_of_getElem? (i := 13) rfl, hword _ (by decide) _ (by decide)⟩,
    hblob _ (by decide), hblob _ (by decide), hblob _ (by decide), hblob _ (by decide),
    ⟨_, List.mem_of_getElem? (i := 15) rfl, hoption _ _ (by decide) _ (by decide)⟩,
    htext _ (by decide), htext _ (by decide), htext _ (by decide)⟩

/-- What no change brings in and one change takes away is gone after all changes. -/
theorem not_of_mapTypes {P : Text → Prop}
    (hback : ∀ change ∈ changes, ∀ t, P (change.apply t) → P t)
    (hgone : ∃ change ∈ changes, ∀ t, ¬ P (change.apply t)) (t : Text) : ¬ P (mapTypes t) := by
  have hfold : ∀ steps ⊆ changes, ∀ t, P (steps.foldl (fun code change => change.apply code) t) →
      P t := by
    intro steps
    induction steps with
    | nil => exact fun _ _ h => h
    | cons change steps ih =>
      intro hsteps t h
      obtain ⟨hchange, hsteps⟩ := List.cons_subset.mp hsteps
      exact hback change hchange t (ih hsteps _ h)
  obtain ⟨change, hchange, hgone⟩ := hgone
  obtain ⟨front, back, hsplit⟩ := List.append_of_mem hchange
  have hlater : back ⊆ changes := fun c hc => by simp [hsplit, hc]
  rw [mapTypes, hsplit, List.foldl_append, List.foldl_cons]
  exact fun h => hgone _ (hfold back hlater _ h)

/-- **No type of the dump's dialect is left** after all changes. -/
theorem not_hasWord_mapTypes (hw : w ∈ vendorTypes) (t : Text) :
    ¬ HasWord w.toList (mapTypes t) := by
  have hmem : w ∈ vendorTypes ++ vendorModifiers := List.mem_append_left _ hw
  have hword := isKeyword_of_mem_vendor w hmem
  refine not_of_mapTypes ?_ ?_ t
  · exact fun change hchange t => (keepsBorders_of_mem_changes change hchange).hasWord hword
      (omits_of_mem_changes change hchange w hmem)
  · obtain ⟨change, hchange, hfits⟩ := exists_change_of_mem_vendorTypes w hw
    exact ⟨change, hchange, fun t => (keepsBorders_of_mem_changes change hchange).not_hasWord hword
      (omits_of_mem_changes change hchange w hmem) hfits⟩

/-- **No modifier is left** behind a blank. -/
theorem not_hasWordAfterBlank_mapTypes (hw : w ∈ vendorModifiers) (t : Text) :
    ¬ HasWordAfterBlank w.toList (mapTypes t) := by
  have hmem : w ∈ vendorTypes ++ vendorModifiers := List.mem_append_right _ hw
  have hword := isKeyword_of_mem_vendor w hmem
  have hremoved : ∃ change ∈ changes, change.source = letters (' ' :: w.toList) ++ edge := by
    simp only [vendorModifiers, List.mem_cons, List.not_mem_nil, or_false] at hw
    rcases hw with rfl | rfl
    · exact ⟨_, List.mem_of_getElem? (i := 19) rfl, rfl⟩
    · exact ⟨_, List.mem_of_getElem? (i := 18) rfl, rfl⟩
  refine not_of_mapTypes ?_ ?_ t
  · exact fun change hchange t => (keepsBorders_of_mem_changes change hchange).hasWordAfterBlank
      hword
      (omits_of_mem_changes change hchange w hmem)
  · obtain ⟨change, hchange, hsource⟩ := hremoved
    refine ⟨change, hchange, fun t =>
      (keepsBorders_of_mem_changes change hchange).not_hasWordAfterBlank
      hword (omits_of_mem_changes change hchange w hmem) ?_⟩
    rw [hsource]
    exact fun before d t hd ht => fits_modifier hword hd ht

/-! ## Texts without types -/

/-- A change leaves a text without its words. -/
theorem OpensWith.replaceFrom_eq_self (h : OpensWith words p)
    (hnone : ∀ w ∈ words, ¬ HasWord w.toList t) : p.replaceFrom new before 0 t = t := by
  refine Pattern.replaceFrom_eq_self new ?_
  rintro a b rfl ⟨x, rest, rfl, hx⟩
  obtain ⟨hout, w, hw, y, z, rfl, hy, hend⟩ := h _ x rest hx
  have hstarts : StartsWord w.toList (y ++ z ++ rest) := ⟨y, z ++ rest, by simp, hy, hend⟩
  refine hnone w hw ⟨a, y ++ z ++ rest, rfl, ?_, hstarts⟩
  cases hlast : a.getLast? with
  | none => rfl
  | some c => simpa [hlast] using hout

/-- Where a modifier is found, the text has it as a word. -/
theorem hasWordAfterBlank_of_fits {word : Text} (hword : isKeyword word)
    (h : (letters (' ' :: word) ++ edge).Fits before t) (front : Text) :
    HasWordAfterBlank word (front ++ t) := by
  obtain ⟨x, rest, rfl, hx⟩ := h
  obtain ⟨space, y, rfl, hne, hblank, hy, hrest⟩ := (takes_modifier hword).mp hx
  -- The last of the blanks stands before the word.
  have hspace : space = space.dropLast ++ [space.getLast hne] :=
    (List.dropLast_append_getLast hne).symm
  refine ⟨front ++ space.dropLast, space.getLast hne, y ++ rest, ?_, ?_, y, rest, rfl, hy, hrest⟩
  · conv => lhs; rw [hspace]
    simp
  · exact hblank _ (List.getLast_mem hne)

/-- A modifier is taken out of no text that lacks it. -/
theorem replaceFrom_modifier_eq_self {word : Text} (hword : isKeyword word)
    (hnone : ¬ HasWordAfterBlank word t) :
    (letters (' ' :: word) ++ edge).replaceFrom new before 0 t = t := by
  refine Pattern.replaceFrom_eq_self new ?_
  intro a b hsplit hfits
  rw [hsplit] at hnone
  exact hnone (hasWordAfterBlank_of_fits hword hfits a)

/-- Changes that do nothing one by one do nothing in a row. -/
theorem foldl_eq_self {steps : List Change} (h : ∀ change ∈ steps, change.apply t = t) :
    steps.foldl (fun code change => change.apply code) t = t := by
  induction steps with
  | nil => rfl
  | cons change steps ih =>
    obtain ⟨hchange, hsteps⟩ := List.forall_mem_cons.mp h
    rw [List.foldl_cons, hchange, ih hsteps]

/-- A text without the words of any change stays as it is. -/
theorem mapTypes_eq_self (hwords : ∀ words ∈ openingWords, ∀ w ∈ words, ¬ HasWord w.toList t)
    (hmodifiers : ∀ w ∈ vendorModifiers, ¬ HasWordAfterBlank w.toList t) : mapTypes t = t := by
  refine foldl_eq_self fun change hmem => ?_
  rcases mem_changes_cases hmem with ⟨row, hrow, rfl⟩ | ⟨w, hw, rfl⟩
  · exact (opensWith_of_mem_wordTable row hrow).replaceFrom_eq_self
      (hwords row.1 (List.of_mem_zip hrow).1)
  · exact replaceFrom_modifier_eq_self (isKeyword_of_mem_vendorModifiers w hw) (hmodifiers w hw)

/-- **No word of the dump's dialect is left.** After all changes, no type that only the dump's
dialect has stands in a text as a whole word, in any case, and none of its modifiers behind a
blank.  A text in which no change finds its words stays as it is. -/
theorem mapTypes_leaves_no_vendorWord (t : Text) :
    (∀ w ∈ vendorTypes, ¬ HasWord w.toList (mapTypes t)) ∧
      (∀ w ∈ vendorModifiers, ¬ HasWordAfterBlank w.toList (mapTypes t)) ∧
      ((∀ words ∈ openingWords, ∀ w ∈ words, ¬ HasWord w.toList t) →
        (∀ w ∈ vendorModifiers, ¬ HasWordAfterBlank w.toList t) → mapTypes t = t) :=
  ⟨fun _ hw => not_hasWord_mapTypes hw t, fun _ hw => not_hasWordAfterBlank_mapTypes hw t,
    mapTypes_eq_self⟩

/-- The word `int` is there before the changes, and not after them. -/
theorem mapTypes_leaves_no_int : HasWord "INT".toList "id int(11) unsigned".toList ∧
    ¬ HasWord "INT".toList (mapTypes "id int(11) unsigned".toList) :=
  ⟨⟨"id ".toList, "int(11) unsigned".toList, rfl, by decide, "int".toList,
    "(11) unsigned".toList, rfl,
    by decide, by decide⟩, (mapTypes_leaves_no_vendorWord _).1 "INT" (by decide)⟩

end DumpBridge.ColumnType
