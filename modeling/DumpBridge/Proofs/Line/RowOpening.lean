import DumpBridge.Proofs.Line.DataFront
import DumpBridge.Proofs.Line.TypeWords
import DumpBridge.Proofs.Literal.Calls

/-!
# Clauses in the opening of a row

A line that is no row becomes one without its clauses only if a clause stands in
the opening of the row: behind blanks, or behind blanks and the first letters of one
of the words (`opensRow`, `inOpening_of_erase`).  So the text tells whether a rule
can uncover a row.

Types are changed in many rounds.  Those that write another type make no row, and
none brings a modifier to the front of the text.  So only a text that begins with a
modifier becomes a row (`leadsModifier_columnTypes`).
-/

namespace DumpBridge.Line

open Text (Pattern Cursor StartsWord isBlank isWord)
open Text.Pattern
open Literal (Quoting isQuote mapCode)

variable {line front part rest s t k : Text} {p : Pattern} {new : Cursor → Text}

/-! ## Openings -/

/-- `PartOfWord part`: the text begins one of the words and is not all of it. -/
def PartOfWord (part : Text) : Prop :=
  ∃ w ∈ dataWords, part.map Char.toUpper <+: w ∧ part.map Char.toUpper ≠ w

/-- Whether a text opens a row: blanks, and then a part of one of the words that may be
empty. -/
def opensRow (front : Text) : Bool :=
  dataWords.any fun w => ((Text.trimStart front).map Char.toUpper).isPrefixOf w &&
    (Text.trimStart front).map Char.toUpper != w

theorem opensRow_iff_trimStart : opensRow front ↔ PartOfWord (Text.trimStart front) := by
  simp [opensRow, PartOfWord, List.isPrefixOf_iff_prefix]

theorem partOfWord_nil : PartOfWord [] :=
  ⟨"INSERT".toList, by decide, List.nil_prefix, by decide⟩

/-- A part of a word has letters only. -/
theorem PartOfWord.isWord (h : PartOfWord part) : ∀ c ∈ part, isWord c := by
  obtain ⟨w, hw, hprefix, hne⟩ := h
  have hall : ∀ w ∈ dataWords, ∀ u ∈ w.inits, u ≠ w →
      u = [] ∨ isKeyword u ∧ ∀ a ∈ u, a.isUpper := by decide
  rcases hall w hw _ ((List.mem_inits _ _).mpr hprefix) hne with hnil | ⟨hkeyword, hupper⟩
  · simp [List.map_eq_nil_iff.mp hnil]
  · exact (isWord_of_spells hkeyword (spells_of_map_toUpper hupper rfl)).2

/-- A text opens a row if it is blanks and a part of a word. -/
theorem opensRow_iff : opensRow front ↔
    ∃ lead part, front = lead ++ part ∧ (∀ c ∈ lead, isBlank c) ∧ PartOfWord part := by
  rw [opensRow_iff_trimStart]
  constructor
  · intro h
    refine ⟨front.takeWhile isBlank, _, ?_, fun c hc => List.mem_takeWhile_imp hc, h⟩
    exact List.takeWhile_append_dropWhile.symm
  · rintro ⟨lead, part, rfl, hlead, hpart⟩
    have hsolid : part.head?.any isBlank = false := by
      cases part with
      | nil => rfl
      | cons c part => simpa using Text.isBlank_eq_false_of_isWord (hpart.isWord c (by simp))
    rwa [Text.trimStart_append hlead hsolid]

/-- An opening in front of no letter is blank. -/
theorem isBlank_of_opensRow (h : opensRow s) (hlast : s.getLast?.any isWord = false) :
    ∀ c ∈ s, isBlank c := by
  obtain ⟨lead, part, rfl, hlead, hpart⟩ := opensRow_iff.mp h
  by_cases hne : part = []
  · simpa [hne] using hlead
  · have hletter := hpart.isWord _ (List.getLast_mem hne)
    rw [List.getLast?_append_of_ne_nil _ hne, List.getLast?_eq_some_getLast hne] at hlast
    simp [hletter] at hlast

/-- **A beginning that is no row yet** opens one, if the line is a row. -/
theorem opensRow_of_isData (h : isData (s ++ t)) (hs : isData s = false) :
    opensRow s := by
  rw [opensRow_iff_trimStart]
  rcases isData_append_cases h hs with ⟨hblank, -⟩ | ⟨w, hw, before, after, rfl, -, hne, rfl, -⟩
  · rw [Text.trimStart, List.dropWhile_eq_nil_iff.mpr hblank]
    exact partOfWord_nil
  · exact ⟨_, hw, List.prefix_append _ _, by simpa using hne⟩

/-! ## Clauses that are taken away -/

/-- `InOpening p t`: what the pattern looks for stands in the opening of a row. -/
def InOpening (p : Pattern) (t : Text) : Prop :=
  ∃ front rest, t = front ++ rest ∧ opensRow front ∧ p.Fits front.getLast? rest

/-- **A row is uncovered** only where a clause stands in its opening. -/
theorem inOpening_of_erase (hline : isData line = false) (h : isData (p.erase line)) :
    InOpening p line := by
  rw [erase, replace, replaceWith] at h
  rcases exists_replaceFrom_eq p (fun _ => []) none line with
    hsame | ⟨s, n, found, last, rfl, hfound, hsplit⟩
  · rw [hsame, hline] at h
    exact Bool.noConfusion h
  · have hs : isData s = false := isData_left hline
    rw [hsplit] at h
    refine ⟨s, n, rfl, opensRow_of_isData h hs, matchAfter_isSome_iff.mp ?_⟩
    rw [Option.or_none] at hfound
    simp [hfound]

theorem inOpening_of_mapCode {q : Quoting} (hline : isData line = false)
    (h : isData (mapCode q p.erase line)) : InOpening p (firstCode line) := by
  rw [isData_mapCode rfl] at h
  exact inOpening_of_erase ((isData_firstCode line).trans hline) h

/-! ## Words that are put in -/

/-- Whether a text has letters only and neither begins like one of the words nor begins
one of them. -/
def startsForeign (k : Text) : Bool :=
  !k.isEmpty && k.all isWord && dataWords.all fun w =>
    !w.isPrefixOf (k.map Char.toUpper) && !(k.map Char.toUpper).isPrefixOf w

theorem startsForeign_iff : startsForeign k ↔ k ≠ [] ∧ (∀ c ∈ k, isWord c) ∧
    ∀ w ∈ dataWords, ¬ w <+: k.map Char.toUpper ∧ ¬ k.map Char.toUpper <+: w := by
  simp [startsForeign, and_assoc, ← List.isPrefixOf_iff_prefix]

/-- Such a word makes no row where a word may begin. -/
theorem isData_foreign (hk : startsForeign k) (hs : isData s = false)
    (hlast : s.getLast?.any isWord = false) (r : Text) : isData (s ++ (k ++ r)) = false := by
  obtain ⟨hne, hletters, hapart⟩ := startsForeign_iff.mp hk
  rw [← Bool.not_eq_true]
  intro hdata
  have hblank := isBlank_of_opensRow (opensRow_of_isData hdata hs) hlast
  obtain ⟨w, hw, hprefix⟩ := isData_iff.mp hdata
  rw [Text.trimStart_append hblank (head_append_of_isWord hne hletters r), List.map_append]
    at hprefix
  rcases List.prefix_or_prefix_of_prefix hprefix (List.prefix_append _ _) with hle | hle
  · exact (hapart w hw).1 hle
  · exact (hapart w hw).2 hle

/-- `WritesWords p new`: a match starts where a word may begin, and what takes its place
begins with a word that is not a row's. -/
def WritesWords (p : Pattern) (new : Cursor → Text) : Prop :=
  ∀ before t found, p.matchAfter before t = some found →
    before.any isWord = false ∧ ∃ k r, new found = k ++ r ∧ startsForeign k

/-- Writing words makes no rows. -/
theorem WritesWords.hidesData (h : WritesWords p new) : HidesData (p.replaceWith new) := by
  intro line hline
  rw [replaceWith]
  rcases exists_replaceFrom_eq p new none line with
    hsame | ⟨s, n, found, last, rfl, hfound, hsplit⟩
  · rw [hsame, hline]
  · have hs : isData s = false := isData_left hline
    obtain ⟨hlast, k, r, hk, hforeign⟩ := h _ _ _ hfound
    rw [hsplit, hk, List.append_assoc]
    exact isData_foreign hforeign hs (by simpa using hlast) _

/-! ## Types -/

/-- Each change to another type writes words that are not a row's. -/
theorem writesWords_of_mem_wordTable :
    ∀ row ∈ ColumnType.wordTable, WritesWords row.2.source row.2.target := by
  have htarget : ∀ row ∈ ColumnType.wordTable, ∀ found,
      ∃ k r, row.2.target found = k ++ r ∧ startsForeign k := by
    have hinto : ∀ s : String, startsForeign (s.toList.takeWhile isWord) →
        ∃ k r, s.toList = k ++ r ∧ startsForeign k :=
      fun s hs => ⟨_, _, List.takeWhile_append_dropWhile.symm, hs⟩
    simp only [ColumnType.wordTable, ColumnType.openingWords, ColumnType.changes,
      List.zip_cons_cons, List.zip_nil_left, List.forall_mem_cons, List.not_mem_nil, false_imp_iff,
      implies_true, and_true, ColumnType.Change.into]
    repeat' apply And.intro
    all_goals intro found
    all_goals first
      | exact hinto _ (by decide)
      | exact ⟨"TIMESTAMPTZ".toList, _, List.append_assoc _ _ _, by decide⟩
  intro row hrow before t found hfound
  refine ⟨?_, htarget row hrow found⟩
  obtain ⟨x, rfl, -, hx⟩ := takes_of_matchAfter hfound
  exact (ColumnType.opensWith_of_mem_wordTable row hrow before x found.rest hx).1

/-- `LeadsModifier t`: the text begins with a modifier, after any blanks. -/
def LeadsModifier (t : Text) : Prop :=
  ∃ w ∈ ColumnType.vendorModifiers, StartsWord w.toList (Text.trimStart t)

/-- A modifier behind blanks is what the text begins with. -/
theorem startsWord_of_modifier {word : Text} (hword : isKeyword word)
    (hs : ∀ c ∈ s, isBlank c) {before : Option Char}
    (h : (letters (' ' :: word) ++ edge).Fits before t) :
    StartsWord word (Text.trimStart (s ++ t)) := by
  obtain ⟨_, rest, rfl, htakes⟩ := h
  obtain ⟨space, y, rfl, -, hblank, hy, hrest⟩ := (ColumnType.takes_modifier hword).mp htakes
  refine ⟨y, rest, ?_, hy, hrest⟩
  rw [List.append_assoc, ← List.append_assoc,
    Text.trimStart_append (List.forall_mem_append.mpr ⟨hs, hblank⟩)
      (head_append_of_spells hword hy rest)]

/-- **A modifier that is taken away** uncovers a row only where the text begins with it. -/
theorem startsWord_of_erase {word : Text} (hword : isKeyword word) (hline : isData line = false)
    (h : isData ((letters (' ' :: word) ++ edge).erase line)) :
    StartsWord word (Text.trimStart line) := by
  have hborders := ColumnType.keepsBorders_modifier hword
  rw [erase, replace, replaceWith] at h
  rcases exists_replaceFrom_eq (letters (' ' :: word) ++ edge) (fun _ => []) none line with
    hsame | ⟨s, n, found, last, rfl, hfound, hsplit⟩
  · rw [hsame, hline] at h
    exact Bool.noConfusion h
  · have hs : isData s = false := isData_left hline
    rw [hsplit, List.nil_append] at h
    obtain ⟨-, ⟨-, -, hnew⟩ | ⟨-, -, hbehind⟩⟩ := hborders _ _ _ hfound
    · simp at hnew
    have hafter : ((letters (' ' :: word) ++ edge).replaceFrom (fun _ => []) last 0
        found.rest).head?.any isWord = false := hborders.head_replaceFrom hbehind
    generalize (letters (' ' :: word) ++ edge).replaceFrom (fun _ => []) last 0 found.rest = after
      at h hafter
    rcases isData_append_cases h hs with
      ⟨hblank, -⟩ | ⟨_, hw, _, more, rfl, hpart, hne, rfl, hmore⟩
    · exact startsWord_of_modifier hword hblank
        (matchAfter_isSome_iff.mp (Option.isSome_of_eq_some hfound))
    · -- No letter follows the modifier, so that no word goes on there.
      obtain ⟨r, hr⟩ := hmore
      obtain ⟨u, v, rfl, rfl, -⟩ := List.map_eq_append_iff.mp hr.symm
      cases u with
      | nil => exact absurd rfl hne
      | cons c u =>
        rw [← List.map_append] at hw
        rcases isWord_of_dataWord hw with hparen | ⟨-, hletters⟩
        · have hlength := congrArg List.length hparen
          have hsome := List.length_pos_iff.mpr hpart
          simp only [List.length_append, List.length_cons, List.length_map, List.length_nil]
            at hlength hsome
          omega
        · simp [hletters c (by simp)] at hafter

/-- Changes bring no modifier to the front. -/
theorem leadsModifier_of_apply {change : ColumnType.Change} (hchange : change ∈ ColumnType.changes)
    (h : LeadsModifier (change.apply t)) : LeadsModifier t := by
  obtain ⟨w, hw, hstarts⟩ := h
  have hvendor : w ∈ ColumnType.vendorTypes ++ ColumnType.vendorModifiers :=
    List.mem_append_right _ hw
  rcases (ColumnType.keepsBorders_of_mem_changes change hchange).startsWord_behind
      (ColumnType.isKeyword_of_mem_vendor w hvendor)
      (ColumnType.omits_of_mem_changes change hchange w hvendor) hstarts with
    hfront | ⟨lead, n, last, stop, rfl, hlead, hstop, hgone⟩
  · exact ⟨w, hw, hfront⟩
  · have hfits := matchAfter_isSome_iff.mp (Option.isSome_of_eq_some hstop)
    rcases ColumnType.mem_changes_cases hchange with ⟨row, hmem, rfl⟩ | ⟨v, hv, rfl⟩
    · have hlast := ColumnType.getLast?_target_of_mem_wordTable row hmem stop
      simp [hgone] at hlast
    · have hkeyword := ColumnType.isKeyword_of_mem_vendorModifiers v hv
      exact ⟨v, hv, startsWord_of_modifier hkeyword hlead hfits⟩

/-- One change makes a row only of a text that begins with a modifier. -/
theorem leadsModifier_of_isData {change : ColumnType.Change} (hchange : change ∈ ColumnType.changes)
    (ht : isData t = false) (h : isData (change.apply t)) : LeadsModifier t := by
  rcases ColumnType.mem_changes_cases hchange with ⟨row, hmem, rfl⟩ | ⟨w, hw, rfl⟩
  · have hnone := (writesWords_of_mem_wordTable row hmem).hidesData t ht
    exact absurd (hnone.symm.trans h) (by decide)
  · exact ⟨w, hw, startsWord_of_erase (ColumnType.isKeyword_of_mem_vendorModifiers w hw) ht h⟩

/-- **All changes together** do so too. -/
theorem leadsModifier_columnTypes {code : Text} (hcode : isData code = false)
    (h : isData (ColumnType.mapTypes code)) : LeadsModifier code := by
  -- Whatever a change leaves, a row or a modifier in front of it tells of one in the code.
  have hboth : (isData (ColumnType.mapTypes code) → LeadsModifier code) ∧
      (LeadsModifier (ColumnType.mapTypes code) → LeadsModifier code) := by
    refine List.foldlRecOn (motive := fun t : Text => (isData t → LeadsModifier code) ∧
      (LeadsModifier t → LeadsModifier code)) _ _ ⟨fun hdata => ?_, id⟩ ?_
    · exact absurd (hcode.symm.trans hdata) (by decide)
    · rintro t ⟨hrow, hleads⟩ change hchange
      refine ⟨fun hdata => ?_, fun hstarts => hleads (leadsModifier_of_apply hchange hstarts)⟩
      cases ht : isData t with
      | true => exact hrow ht
      | false => exact hleads (leadsModifier_of_isData hchange ht hdata)
  exact hboth.1 h

/-- A `SET` type becomes a word that is not a row's. -/
theorem hidesData_setsToText : HidesData ColumnType.setsToText := by
  have hlast : ∀ before t, (Literal.callOpener "SET").Fits before t →
      before.any isWord = false := by
    intro before t hfits
    rw [Literal.callOpener, fits_append_assoc, fits_append_assoc, fits_edge_append] at hfits
    have hhead := isWord_of_fits_keyword (w := "SET".toList) (by decide) hfits.2
    simpa [hhead] using hfits.1
  -- What stands in front of the text is no row, nor is it one together with the text.
  have hfrom : ∀ n t s, t.length = n → isData (s ++ t) = false →
      isData (s ++ (Literal.piecesFrom .standard (Literal.callOpener "SET") s.getLast? 0 t).flatMap
        ColumnType.setText) = false := by
    intro n
    induction n using Nat.strongRecOn with
    | ind n ih =>
      intro t s hlength hst
      cases t with
      | nil => exact hst
      | cons c t =>
        have hset : isKeyword "SET".toList := by decide
        rcases Literal.piecesFrom_cases .standard hset s.getLast? c t with
          ⟨-, hplain⟩ | hrest | ⟨head, inner, r, hsplit, htakes, -, hcall⟩
        · rw [hplain, ColumnType.flatMap_setText_pushPlain]
          have hnext := ih t.length (by simp [← hlength]) t (s ++ [c]) rfl (by simpa using hst)
          simpa using hnext
        · simpa [hrest, ColumnType.setText] using hst
        · rw [hcall, List.flatMap_cons]
          rw [hsplit] at hst hlength
          rw [ColumnType.setText]
          split
          · exact isData_foreign (by decide) (isData_left hst) (hlast _ _ ⟨_, _, rfl, htakes⟩) _
          · have hshorter : r.length < n := by
              simp only [List.length_append, List.length_cons] at hlength
              omega
            have hnext := ih r.length hshorter r (s ++ (head ++ (inner ++ [')']))) rfl
              (by simpa using hst)
            simpa [Literal.Piece.text, ← List.append_assoc] using hnext
  intro line hline
  rw [ColumnType.setsToText_eq]
  exact hfrom _ line [] rfl hline

end DumpBridge.Line
