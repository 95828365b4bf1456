import DumpBridge.Proofs.Line.RowOpening
import DumpBridge.Proofs.Line.KeyText
import DumpBridge.Proofs.Line.Survival

/-!
# Lines of rows through the rules

From the rule that takes the quotes off names on, every rule keeps lines of rows
(`Rule.keepsData`).  Only the rules that take something away can make a line look
like one that was none before (`Rule.hidesData`, `uncovering`), and only where what
they take away stands in the opening of a row (`Rule.Uncovers.hidesRow`).  So whether
a line is taken for rows changes in a conversion just if one of these rules uncovers
the beginning of a row (`isData_convert_iff`).
-/

namespace DumpBridge.Line

open Text (Pattern Cursor isBlank isWord)
open Text.Pattern
open Literal (Quoting isQuote mapCode)

variable {line word rest : Text} {f : Text → Text} {p : Pattern}

/-! ## Rules for every line -/

/-- The characters that rows begin with are blanks, letters and marks. -/
theorem class_front {lead : Text} (hlead : ∀ c ∈ lead, isBlank c)
    (hword : word.map Char.toUpper ∈ dataWords) :
    ∀ c ∈ lead ++ word, isBlank c ∨ isWord c ∨ isMark c := by
  intro c hc
  rcases List.mem_append.mp hc with hc | hc
  · exact Or.inl (hlead c hc)
  · rcases isWord_of_dataWord hword with rfl | ⟨-, hletters⟩
    · obtain rfl := List.mem_singleton.mp hc
      exact Or.inr (Or.inr (by decide))
    · exact Or.inr (Or.inl (hletters c hc))

/-- So nothing that rows begin with is changed by the rules for every line. -/
theorem isInert_front {lead : Text} (hlead : ∀ c ∈ lead, isBlank c)
    (hword : word.map Char.toUpper ∈ dataWords) : ∀ c ∈ lead ++ word, isInert c :=
  fun c hc => (isInert_of_class (class_front hlead hword c hc)).1

/-- A rule that passes over inert characters keeps rows. -/
theorem keepsData_of_inert (h : ∀ x r, (∀ c ∈ x, isInert c) → f (x ++ r) = x ++ f r) :
    KeepsData f := by
  intro line hline
  obtain ⟨lead, word, rest, rfl, hlead, hword⟩ := isData_iff_front.mp hline
  rw [← List.append_assoc, h _ _ (isInert_front hlead hword), List.append_assoc]
  exact isData_iff_front.mpr ⟨lead, word, _, rfl, hlead, hword⟩

theorem keepsData_stripNameQuotes : KeepsData stripNameQuotes :=
  keepsData_of_inert fun _ r hx => stripNameQuotes_append hx r

theorem keepsData_normalizeEscapes : KeepsData normalizeEscapes :=
  keepsData_of_inert fun _ r hx => normalizeEscapes_append hx r

theorem keepsData_nullZeroDates : KeepsData nullZeroDates :=
  keepsData_of_inert fun _ r hx => nullZeroDates_append hx r

/-- Restated escapes begin with a backslash or a quote mark, which no row begins with. -/
theorem hidesData_normalizeEscapes : HidesData normalizeEscapes := by
  have hreplace := (hidesData_textReplace ['\\', '\\'] backslashMark (by decide)).comp
    ((hidesData_textReplace ['\\', '\''] ['\'', '\''] (by decide)).comp
      (hidesData_textReplace backslashMark ['\\'] (by decide)))
  intro line hline
  unfold normalizeEscapes
  split
  · exact hreplace line hline
  · exact hline

/-- A zero date becomes a word that no row begins with. -/
theorem hidesData_nullZeroDates : HidesData nullZeroDates :=
  (hidesData_textReplace "'0000-00-00 00:00:00'".toList "NULL".toList (by decide)).comp
    (hidesData_textReplace "'0000-00-00'".toList "NULL".toList (by decide))

/-! ## Rules for statements -/

/-- A comment is no row. -/
theorem isData_commentOut (line : Text) : isData (commentOut line) = false :=
  isData_blocked (s := []) (k := "-- ".toList) (by decide) (by decide) line

/-- A rule that only makes some lines comments makes no rows. -/
theorem hidesData_commentOut (comment : Text → Bool) :
    HidesData fun line => if comment line then commentOut line else line := by
  intro line hline
  dsimp only
  split
  · exact isData_commentOut line
  · exact hline

/-- The comment that a block becomes begins with dashes. -/
theorem hidesData_commentConditionalBlocks : HidesData commentConditionalBlocks := by
  unfold commentConditionalBlocks
  exact hidesData_replaceWith fun found => ⟨"-- ".toList, found.captured 1, rfl, by decide⟩

/-- A block begins with a slash, and so in front of no row. -/
theorem keepsData_commentConditionalBlocks : KeepsData commentConditionalBlocks := by
  unfold commentConditionalBlocks
  refine keepsData_replaceWith (fun lead word rest hlead hword => ?_) _
  refine passes_of_head (q := fun c => c ≠ '/') ?_ ?_
  · intro c hc
    simpa using (isInert_of_class (class_front hlead hword c hc)).2
  · intro before t hfits
    have hslash := fits_first hfits
    have hfirst : conditionalBlock.first = one (sameLetter '/') := rfl
    rw [hfirst, fits_one] at hslash
    cases t with
    | nil => rfl
    | cons c t =>
      have hc : c = '/' := Text.eq_of_sameLetter (by decide) (by simpa using hslash)
      simp [hc]

/-- The statement for the time zone goes on with a word of its own. -/
theorem hidesData_renameTimeZone : HidesData renameTimeZone := by
  unfold renameTimeZone
  exact hidesData_replaceWith fun _ => ⟨"SET timezone =".toList, [], by simp, by decide⟩

/-- That statement begins with another word than rows. -/
theorem keepsData_renameTimeZone : KeepsData renameTimeZone := by
  unfold renameTimeZone
  refine keepsData_replaceWith (passesData_edge ["SET time_zone"] ?_ (by decide)) _
  exact fun _ _ h => fits_cutLast 2 h

/-- A pattern that begins, after any blanks, with another word does not start a line
of rows. -/
theorem not_starts_data {a : Pattern} (hline : isData line)
    (hfits : ∀ before t, a.Fits before t → ∃ w, isForeign w ∧ (letters w).Fits before t) :
    ¬ (blanks ++ a).Fits none line := by
  obtain ⟨lead, word, rest, rfl, hlead, hword⟩ := isData_iff_front.mp hline
  rw [fits_blanks_append hlead (isBlank_head_dataWord hword rest)]
  intro h
  obtain ⟨w, hw, hfound⟩ := hfits _ _ h
  exact not_fits_foreign hw hword rest hfound

/-- So do all statements that only concern the session. -/
theorem keepsData_commentSessionStatements : KeepsData commentSessionStatements := by
  intro line hline
  have hstarts : sessionStatement.starts line = false := by
    rw [← Bool.not_eq_true, starts_iff, sessionStatement]
    refine not_starts_data hline fun before t h => ?_
    rw [fits_anyOf] at h
    simp only [List.mem_cons, List.not_mem_nil, or_false, exists_eq_or_imp, exists_eq_left] at h
    rcases h with h | h | h | h
    · exact ⟨"SET ".toList, by decide, fits_cutLast 2 h⟩
    · exact ⟨"SET @".toList, by decide, h⟩
    · exact ⟨"LOCK TABLES".toList, by decide, fits_cutLast 1 h⟩
    · exact ⟨"UNLOCK TABLES".toList, by decide, fits_cutLast 1 h⟩
  rw [commentSessionStatements, hstarts]
  exact hline

/-- A row is not the end of a table. -/
theorem keepsData_stripTableOptions : KeepsData stripTableOptions := by
  intro line hline
  have hnone : tableEnd.matchStart line = none := by
    obtain ⟨lead, word, rest, rfl, hlead, hword⟩ := isData_iff_front.mp hline
    apply matchAfter_eq_none_iff.mpr
    intro hfits
    have hclose : (blanks ++ char ')').Fits none (lead ++ (word ++ rest)) := fits_cutLast 3 hfits
    rw [fits_blanks_append hlead (isBlank_head_dataWord hword rest)] at hclose
    have hhead := head?_of_fits_char (c := ')') rfl hclose
    rcases isWord_of_dataWord hword with rfl | ⟨hne, hletters⟩
    · simp at hhead
    · obtain ⟨c, word, rfl⟩ := List.exists_cons_of_ne_nil hne
      obtain rfl : c = ')' := by simpa using hhead
      exact absurd (hletters ')' (by simp)) (by decide)
  unfold stripTableOptions
  rw [hnone]
  exact hline

/-- What is left of a table's end begins with its parenthesis. -/
theorem hidesData_stripTableOptions : HidesData stripTableOptions := by
  intro line hline
  unfold stripTableOptions
  split
  · exact hline
  · next found hfound =>
    simp only [matchStart, matchAfter, tableEnd, ends_append_assoc] at hfound
    obtain ⟨y, _, -, htakes, -, hcaptured⟩ :=
      captured_of_mem_ends_append (by decide) (List.mem_of_head? hfound)
    obtain ⟨lead, close, rfl, ⟨hlead, -⟩, hclose⟩ := takes_append.mp htakes
    obtain rfl := takes_char.mp hclose
    -- The parenthesis that ends the table is what the line goes on with.
    have hblank : isData lead = false := by
      have htrim : Text.trimStart lead = [] := List.dropWhile_eq_nil_iff.mpr hlead
      rw [← Bool.not_eq_true, isData_iff, htrim]
      decide
    rw [hcaptured, List.append_assoc, List.append_assoc]
    exact isData_blocked (k := [')']) (by decide) hblank _

/-! ## Rules for keys -/

/-- A row is no unique key. -/
theorem keepsData_dropUniqueKeyName : KeepsData dropUniqueKeyName := by
  intro line hline
  have hnone : uniqueKey.matchStart line = none := by
    apply matchAfter_eq_none_iff.mpr
    intro hfits
    have hwords : (blanks ++ (optional (phrase "ADD ") ++ phrase "UNIQUE ")).Fits none line :=
      fits_append_assoc.mp (fits_cutLast 4 hfits)
    refine not_starts_data hline (fun before t h => ?_) hwords
    rcases fits_optional_append.mp h with h | h
    · exact ⟨"ADD ".toList, by decide, fits_cutLast 1 h⟩
    · exact ⟨"UNIQUE ".toList, by decide, h⟩
  unfold dropUniqueKeyName
  rw [hnone]
  exact hline

/-- A unique key without its name still begins with the word for it. -/
theorem hidesData_dropUniqueKeyName : HidesData dropUniqueKeyName := by
  intro line hline
  unfold dropUniqueKeyName
  split
  · next found hfound =>
    simp only [matchStart, matchAfter, uniqueKey, ends_append_assoc] at hfound
    obtain ⟨y, _, hsplit, -, -, hcaptured⟩ :=
      captured_of_mem_ends_append (by decide) (List.mem_of_head? hfound)
    obtain rfl : line = y ++ _ := hsplit
    have hy := isData_left hline
    rw [hcaptured, List.append_assoc]
    exact isData_blocked (by decide) hy _
  · exact hline

/-- Shortening the columns of a key changes nothing up to their parenthesis. -/
theorem isData_dropPrefixLengths (line : Text) : isData (dropPrefixLengths line) = isData line := by
  unfold dropPrefixLengths
  split
  · rfl
  · next found hfound =>
    dsimp only
    split
    · rfl
    · next n hclosing =>
      have hparen : ∃ t, line.drop (found.taken - 1) = '(' :: t := by
        unfold Literal.closing? at hclosing
        split at hclosing
        · next hstart =>
          cases hdrop : line.drop (found.taken - 1) with
          | nil => simp [hdrop, Text.startsWith] at hstart
          | cons c t =>
            rw [hdrop] at hstart
            obtain rfl : c = '(' := by simpa [Text.startsWith] using hstart
            exact ⟨t, rfl⟩
        · simp at hclosing
      obtain ⟨t, ht⟩ := hparen
      have hnone : ¬ prefixLength.Fits none ('(' :: t.take n) := by
        intro hfits
        have hword : (one isWord).Fits none ('(' :: t.take n) := fits_cutLast 2 hfits
        exact absurd (fits_one.mp hword) (by simp; decide)
      rw [ht, List.take_succ_cons, replaceWith, replaceFrom_cons_of_not_fits hnone]
      conv_rhs => rw [← List.take_append_drop (found.taken - 1) line, ht]
      rw [List.append_assoc, List.cons_append]
      exact isData_append_paren _ _ _

theorem keepsData_plainKeys : KeepsData plainKeys := by
  intro line hline
  rw [plainKeys, isData_dropPrefixLengths]
  exact keepsData_dropUniqueKeyName line hline

theorem hidesData_plainKeys : HidesData plainKeys := by
  intro line hline
  rw [plainKeys, isData_dropPrefixLengths]
  exact hidesData_dropUniqueKeyName line hline

/-! ## Rules for columns -/

/-- Erasing what begins with blanks and a word of its own keeps rows. -/
theorem keepsData_erase_gap (ws : List String)
    (hfits : ∀ before t, p.Fits before t → (gap ++ anyPhrase ws).Fits before t)
    (hws : ∀ w ∈ ws, isForeign w.toList) : KeepsData p.erase :=
  keepsData_replaceWith (passesData_gap ws hfits hws) _

theorem keepsData_stripColumnComments : KeepsData stripColumnComments := by
  unfold stripColumnComments
  refine keepsData_erase_gap ["COMMENT "] ?_ (by decide)
  exact fun _ _ h => fits_cutLast 1 h

theorem keepsData_stripCollation : KeepsData stripCollation := by
  unfold stripCollation
  refine (keepsData_erase_gap ["COLLATE"] ?_ (by decide)).mapCode rfl .standard
  exact fun _ _ h => fits_cutLast 2 h

theorem keepsData_stripCharset : KeepsData stripCharset := by
  unfold stripCharset
  refine (keepsData_erase_gap ["DEFAULT", "CHARACTER SET", "CHARSET"] ?_
    (by decide)).mapCode rfl .standard
  intro before t h
  have hwords : ((optional (phrase " DEFAULT") ++ gap) ++
      anyPhrase ["CHARACTER SET", "CHARSET"]).Fits before t := fits_cutLast 2 h
  rw [fits_append_assoc, fits_optional_append] at hwords
  rcases hwords with h | h
  · obtain ⟨y, m, rfl, hy, hm⟩ := fits_append.mp (fits_cutLast 1 h)
    exact fits_append.mpr ⟨y, m, rfl, hy, fits_anyOf.mpr ⟨phrase "DEFAULT", by simp, hm⟩⟩
  · obtain ⟨y, m, rfl, hy, hm⟩ := fits_append.mp h
    obtain ⟨w, hw, hm⟩ := fits_anyOf.mp hm
    refine fits_append.mpr ⟨y, m, rfl, hy, fits_anyOf.mpr ⟨w, ?_, hm⟩⟩
    exact List.mem_cons_of_mem _ hw

/-! ## Types -/

/-- **No change of a type starts in front of a row.** -/
theorem passesData_change : ∀ change ∈ ColumnType.changes, PassesData change.source := by
  have hforeign : ∀ words ∈ ColumnType.openingWords, ∀ w ∈ words, isForeign w.toList := by
    decide
  have hmodifier : ∀ w ∈ ColumnType.vendorModifiers, isForeign w.toList := by decide
  intro change hchange
  rcases ColumnType.mem_changes_cases hchange with ⟨row, hmem, rfl⟩ | ⟨w, hw, rfl⟩
  · refine passesData_edge row.1 (fun before t hfits => ?_)
      (hforeign row.1 (List.of_mem_zip hmem).1)
    obtain ⟨_, rest, rfl, hx⟩ := hfits
    obtain ⟨hout, w, hw, y, z, rfl, hy, -⟩ :=
      ColumnType.opensWith_of_mem_wordTable row hmem before _ rest hx
    have hkeyword := ColumnType.isKeyword_of_mem_wordTable row hmem w hw
    exact ⟨y, z ++ rest, by simp, [], y, rfl, (ColumnType.takes_edge_word hkeyword hy).mpr hout,
      takes_anyOf.mpr ⟨phrase w, List.mem_map_of_mem hw,
        (takes_letters (not_mem_of_isKeyword hkeyword)).mpr hy⟩⟩
  · exact passesData_gap [w] (fun _ _ h => fits_cutLast 1 h) (by simpa using hmodifier w hw)

/-- So the changes of types keep rows, one after the other. -/
theorem keepsData_columnTypes : KeepsData ColumnType.mapTypes := by
  have hfold : ∀ cs : List ColumnType.Change, (∀ change ∈ cs, PassesData change.source) →
      KeepsData (cs.foldl fun code change => change.apply code) := by
    intro cs
    induction cs with
    | nil => exact fun _ line hline => hline
    | cons change cs ih =>
      intro hcs line hline
      obtain ⟨hchange, hcs⟩ := List.forall_mem_cons.mp hcs
      exact ih hcs _ (keepsData_replaceWith hchange _ line hline)
  exact hfold _ passesData_change

/-- A `SET` type does not start in front of a row either. -/
theorem keepsData_setsToText : KeepsData ColumnType.setsToText := by
  have hpasses : PassesData (Literal.callOpener "SET") :=
    passesData_edge ["SET"] (fun _ _ h => fits_cutLast 2 h) (by decide)
  intro line hline
  obtain ⟨lead, word, rest, rfl, hlead, hword⟩ := isData_iff_front.mp hline
  rw [ColumnType.setsToText_eq, ← List.append_assoc,
    ColumnType.flatMap_setText_of_passes (hpasses lead word rest hlead hword), List.append_assoc]
  exact isData_iff_front.mpr ⟨lead, word, _, rfl, hlead, hword⟩

/-- What follows a protected name does not matter for rows. -/
theorem isData_protectedName {found : Cursor} (hfound : protectedName.matchStart line = some found)
    (t : Text) : isData (line.take found.taken ++ t) = isData (line.take found.taken) := by
  obtain ⟨y, hsplit, htaken, htakes⟩ := takes_of_matchAfter hfound
  rw [htaken, hsplit, List.take_left]
  cases hy : isData y with
  | true => exact isData_append hy t
  | false =>
    rw [← Bool.not_eq_true]
    intro hdata
    rcases htakes with htakes | htakes
    · -- A statement about a table is no row.
      obtain ⟨_, name, rfl, ⟨_, exist, rfl, ⟨_, table, rfl, htakes, -⟩, -⟩, -⟩ := htakes
      obtain ⟨indent, verb, rfl, ⟨hindent, -⟩, hverb⟩ := takes_append.mp htakes
      obtain ⟨_, hmem, hverb⟩ := takes_anyOf.mp hverb
      obtain ⟨w, hw, rfl⟩ := List.mem_map.mp hmem
      have hwords : ∀ w ∈ ["CREATE", "ALTER", "DROP"],
          isKeyword w.toList ∧ isForeign w.toList := by decide
      obtain ⟨hkeyword, hforeign⟩ := hwords w hw
      have hspells := (takes_letters (not_mem_of_isKeyword hkeyword)).mp hverb
      have hfits : (blanks ++ letters w.toList).Fits none
          (indent ++ (verb ++ (table ++ (exist ++ (name ++ t))))) :=
        (fits_blanks_append hindent (head_append_of_spells hkeyword hspells _)).mpr
          ((fits_letters (not_mem_of_isKeyword hkeyword)).mpr ⟨verb, _, rfl, hspells⟩)
      exact not_starts_data (by simpa using hdata) (fun before t h => ⟨_, hforeign, h⟩) hfits
    · obtain ⟨_, after, rfl, htakes, hafter⟩ := takes_append.mp htakes
      obtain ⟨_, name, rfl, htakes, -⟩ := takes_append.mp htakes
      obtain ⟨indent, _, rfl, hindent, c, rfl, hc⟩ := takes_append.mp htakes
      have hsolid : isBlank c = false := isBlank_of_isFoldedNameStart hc
      obtain ⟨b, after, rfl⟩ := List.exists_cons_of_ne_nil (takes_gap.mp hafter).1
      have hb : isBlank b := (takes_gap.mp hafter).2.1 b (by simp)
      -- The blank after the name is in none of the words.
      have hpart := opensRow_iff_trimStart.mp (opensRow_of_isData hdata hy)
      have hcut : indent ++ [c] ++ name ++ b :: after =
          indent ++ (c :: (name ++ b :: after)) := by simp
      rw [hcut, Text.trimStart_append (takes_gap.mp hindent).2.1 (by simpa using hsolid)] at hpart
      have hletter := hpart.isWord b (by simp)
      simp [Text.isWord_eq_false_of_isBlank hb] at hletter

/-- A name that a line begins with is a row just if the line is. -/
theorem isData_take_protectedName {found : Cursor}
    (hfound : protectedName.matchStart line = some found) :
    isData (line.take found.taken) = isData line := by
  conv_rhs => rw [← List.take_append_drop found.taken line]
  exact (isData_protectedName hfound _).symm

/-- Changing types keeps rows, behind a protected name or without one. -/
theorem keepsData_mapTypes : KeepsData mapTypes := by
  intro line hline
  unfold mapTypes
  split
  · exact hline
  · dsimp only
    split
    · next found hfound => rwa [isData_protectedName hfound, isData_take_protectedName hfound]
    · exact keepsData_setsToText _ (keepsData_columnTypes.mapCode rfl .standard _ hline)

/-- **Changing types** uncovers a row only where the line begins with a modifier. -/
theorem leadsModifier_mapTypes (hline : isData line = false) (h : isData (mapTypes line)) :
    LeadsModifier (firstCode line) := by
  unfold mapTypes at h
  split at h
  · exact absurd h (by simp [hline])
  · dsimp only at h
    split at h
    · next found hfound =>
      rw [isData_protectedName hfound, isData_take_protectedName hfound, hline] at h
      exact Bool.noConfusion h
    · have hcode : isData (mapCode .standard ColumnType.mapTypes line) := by
        rw [← Bool.not_eq_false]
        intro hnone
        have hsets := hidesData_setsToText _ hnone
        exact absurd (hsets.symm.trans h) (by decide)
      rw [isData_mapCode rfl] at hcode
      exact leadsModifier_columnTypes ((isData_firstCode line).trans hline) hcode

/-- The default of a truth value goes on with the word for the type. -/
theorem hidesData_booleanDefaults : HidesData booleanDefaults := by
  unfold booleanDefaults
  refine hidesData_replaceWith fun found => ?_
  rw [List.append_assoc, List.append_assoc]
  exact ⟨"BOOLEAN".toList, _, rfl, by decide⟩

theorem keepsData_booleanDefaults : KeepsData booleanDefaults := by
  unfold booleanDefaults
  refine keepsData_replaceWith (passesData_edge ["BOOLEAN"] ?_ (by decide)) _
  exact fun _ _ h => fits_cutLast 3 h

theorem keepsData_stripOnUpdate : KeepsData stripOnUpdate := by
  unfold stripOnUpdate
  refine (keepsData_erase_gap ["ON UPDATE CURRENT_TIMESTAMP"] ?_ (by decide)).mapCode rfl .standard
  exact fun _ _ h => fits_cutLast 2 h

/-- A call of the current time goes on with its name. -/
theorem hidesData_currentTimestampCalls : HidesData currentTimestampCalls := by
  unfold currentTimestampCalls
  refine HidesData.mapCode ?_ rfl .standard
  exact hidesData_replaceWith fun _ => ⟨"CURRENT_TIMESTAMP".toList, [], by simp, by decide⟩

theorem keepsData_currentTimestampCalls : KeepsData currentTimestampCalls := by
  unfold currentTimestampCalls
  refine KeepsData.mapCode (keepsData_replaceWith (passesData_edge ["CURRENT_TIMESTAMP"]
    ?_ (by decide)) _) rfl .standard
  exact fun _ _ h => fits_cutLast 4 h

/-- Neither kind of automatic numbering starts in front of a row. -/
theorem keepsData_stripAutoIncrement : KeepsData stripAutoIncrement := by
  have hstart : KeepsData numberingFrom.erase := by
    refine keepsData_replaceWith (passesData_of_leadsTo ColumnName.leadsTo_numberingFrom ?_ ?_) _
    · rintro word rest hword ⟨before, hfits⟩
      exact not_fits_foreign (w := "AUTO_INCREMENT".toList) (by decide) hword rest
        (fits_cutLast 1 hfits)
    · intro before rest hfits
      simp only [numberingFrom, fits_append_assoc] at hfits
      rcases fits_optional_append.mp hfits with hfits | hfits
      · exact absurd (head?_of_fits_char (c := ',') rfl hfits) (by simp)
      · have hsolid : ('(' :: rest).head?.any isBlank = false := by
          have hparen : isBlank '(' = false := by decide
          simpa using hparen
        have hword := (fits_blanks_append (List.forall_mem_nil _) hsolid).mp hfits
        have hhead := isWord_of_fits_keyword (w := "AUTO_INCREMENT".toList) (by decide)
          (fits_edge_append.mp hword).2
        exact absurd hhead (by simp; decide)
  unfold stripAutoIncrement
  refine KeepsData.mapCode (hstart.comp (keepsData_erase_gap ["AUTO_INCREMENT"] ?_
    (by decide))) rfl .standard
  exact fun _ _ h => fits_cutLast 1 h

/-- Of the two clauses of automatic numbering, the first is looked for in the line and the
second in what is left. -/
theorem inOpening_stripAutoIncrement (hline : isData line = false)
    (h : isData (stripAutoIncrement line)) :
    InOpening numberingFrom (firstCode line) ∨
      InOpening numbering (numberingFrom.erase (firstCode line)) := by
  rw [stripAutoIncrement, isData_mapCode rfl] at h
  cases hstart : isData (numberingFrom.erase (firstCode line)) with
  | true => exact Or.inl (inOpening_of_erase ((isData_firstCode line).trans hline) hstart)
  | false => exact Or.inr (inOpening_of_erase hstart h)

theorem keepsData_stripIndexMethods : KeepsData stripIndexMethods := by
  unfold stripIndexMethods
  refine (keepsData_erase_gap ["USING "] ?_ (by decide)).mapCode rfl .standard
  exact fun _ _ h => fits_cutLast 2 h

end DumpBridge.Line

namespace DumpBridge

open Line (isComment isData firstCode InOpening LeadsModifier KeepsData HidesData)

namespace Rule

variable {line : Text} {rules : List Rule}

/-! ## All rules -/

/-- The rules that may run after the beginning of a row was uncovered. -/
def keeping : List Rule := [
  .stripNameQuotes, .normalizeEscapes, .nullZeroDates, .commentConditionalBlocks, .renameTimeZone,
  .commentSessionStatements, .stripTableOptions, .stripColumnComments, .stripCollation,
  .stripCharset, .mapTypes, .booleanDefaults, .stripOnUpdate, .currentTimestampCalls,
  .stripAutoIncrement, .stripIndexMethods, .plainKeys]

/-- The rules that take away what may stand before the words of a row, or between
their letters. -/
def uncovering : List Rule := [
  .stripNameQuotes, .stripColumnComments, .stripCollation, .stripCharset, .mapTypes, .stripOnUpdate,
  .stripAutoIncrement, .stripIndexMethods]

/-- **Rows are kept** by each rule that may run after one was uncovered. -/
theorem keepsData {rule : Rule} (h : rule ∈ keeping) : KeepsData rule.apply := by
  cases rule with
  | commentSecondaryKeys | commentIdentityModifications => exact absurd h (by decide)
  | stripNameQuotes => exact Line.keepsData_stripNameQuotes
  | normalizeEscapes => exact Line.keepsData_normalizeEscapes
  | nullZeroDates => exact Line.keepsData_nullZeroDates
  | commentConditionalBlocks => exact Line.keepsData_commentConditionalBlocks
  | renameTimeZone => exact Line.keepsData_renameTimeZone
  | commentSessionStatements => exact Line.keepsData_commentSessionStatements
  | stripTableOptions => exact Line.keepsData_stripTableOptions
  | stripColumnComments => exact Line.keepsData_stripColumnComments
  | stripCollation => exact Line.keepsData_stripCollation
  | stripCharset => exact Line.keepsData_stripCharset
  | mapTypes => exact Line.keepsData_mapTypes
  | booleanDefaults => exact Line.keepsData_booleanDefaults
  | stripOnUpdate => exact Line.keepsData_stripOnUpdate
  | currentTimestampCalls => exact Line.keepsData_currentTimestampCalls
  | stripAutoIncrement => exact Line.keepsData_stripAutoIncrement
  | stripIndexMethods => exact Line.keepsData_stripIndexMethods
  | plainKeys => exact Line.keepsData_plainKeys

/-- **No row is made** by a rule other than those that take something away. -/
theorem hidesData {rule : Rule} (h : rule ∉ uncovering) : HidesData rule.apply := by
  cases rule with
  | commentSecondaryKeys | commentIdentityModifications => exact Line.hidesData_commentOut _
  | stripNameQuotes => exact absurd (by decide) h
  | normalizeEscapes => exact Line.hidesData_normalizeEscapes
  | nullZeroDates => exact Line.hidesData_nullZeroDates
  | commentConditionalBlocks => exact Line.hidesData_commentConditionalBlocks
  | renameTimeZone => exact Line.hidesData_renameTimeZone
  | commentSessionStatements => exact Line.hidesData_commentOut _
  | stripTableOptions => exact Line.hidesData_stripTableOptions
  | stripColumnComments | stripCollation | stripCharset | mapTypes => exact absurd (by decide) h
  | booleanDefaults => exact Line.hidesData_booleanDefaults
  | stripOnUpdate => exact absurd (by decide) h
  | currentTimestampCalls => exact Line.hidesData_currentTimestampCalls
  | stripAutoIncrement | stripIndexMethods => exact absurd (by decide) h
  | plainKeys => exact Line.hidesData_plainKeys

/-! ## Runs of rules -/

/-- `Uncovers rule line`: the rule takes away from a live line what hid that it begins
like a row. -/
structure Uncovers (rule : Rule) (line : Text) : Prop where
  takes : rule ∈ uncovering
  live : isComment line = false
  hidden : isData line = false
  shown : isData (rule.apply line)

/-- `HidesRow rule line`: what the rule takes away stands in the opening of a row, and what
types lose begins the line.  The start values of automatic numbering go first, and may stand
inside the clause itself. -/
def HidesRow : Rule → Text → Prop
  | .stripNameQuotes, line => isData ((firstCode line).filter (· != '\x60'))
  | .stripColumnComments, line => InOpening Line.columnComment line
  | .stripCollation, line => InOpening Line.collation (firstCode line)
  | .stripCharset, line => InOpening Line.charset (firstCode line)
  | .mapTypes, line => LeadsModifier (firstCode line)
  | .stripOnUpdate, line => InOpening Line.onUpdate (firstCode line)
  | .stripAutoIncrement, line => InOpening Line.numberingFrom (firstCode line) ∨
      InOpening Line.numbering (Line.numberingFrom.erase (firstCode line))
  | .stripIndexMethods, line => InOpening Line.indexMethod (firstCode line)
  | _, _ => False

/-- **The text tells** where a rule can uncover a row. -/
theorem Uncovers.hidesRow {rule : Rule} (h : Uncovers rule line) : HidesRow rule line := by
  have hshown := h.shown
  cases rule with
  | stripNameQuotes => exact (Line.isData_mapCode rfl _ line).symm.trans hshown
  | stripColumnComments => exact Line.inOpening_of_erase h.hidden hshown
  | stripCollation | stripCharset => exact Line.inOpening_of_mapCode h.hidden hshown
  | mapTypes => exact Line.leadsModifier_mapTypes h.hidden hshown
  | stripOnUpdate => exact Line.inOpening_of_mapCode h.hidden hshown
  | stripAutoIncrement => exact Line.inOpening_stripAutoIncrement h.hidden hshown
  | stripIndexMethods => exact Line.inOpening_of_mapCode h.hidden hshown
  | _ => exact absurd h.takes (by decide)

/-- A collation before a parenthesis hides a row. -/
example : isData " COLLATE utf8_bin (1)".toList = false ∧
    isData (Rule.stripCollation.apply " COLLATE utf8_bin (1)".toList) := by
  decide +kernel

/-- A row is no comment. -/
theorem isComment_of_isData (h : isData line) : isComment line = false := by
  obtain ⟨lead, word, rest, rfl, hlead, hword⟩ := Line.isData_iff_front.mp h
  rcases Line.isWord_of_dataWord hword with rfl | ⟨hne, hletters⟩
  · exact Line.isComment_append hlead (by decide)
  · obtain ⟨c, word, rfl⟩ := List.exists_cons_of_ne_nil hne
    have hc : Text.isWord c := hletters c (by simp)
    rw [List.cons_append, Line.isComment_append hlead (Text.isBlank_eq_false_of_isWord hc)]
    cases hdash : c == '-' with
    | false => simp [List.isPrefixOf, Bool.beq_comm, hdash]
    | true =>
      obtain rfl : c = '-' := by simpa using hdash
      exact absurd hc (by decide)

/-- **A row stays one** through rules that keep rows, and those that pass over it. -/
theorem isData_foldl_step {data : Bool}
    (hrules : ∀ rule ∈ rules, rule.scope = .schema ∧ data ∨ KeepsData rule.apply)
    (h : isData line) : isData (rules.foldl (step data) line) := by
  induction rules generalizing line with
  | nil => exact h
  | cons rule rules ih =>
    obtain ⟨hrule, hrules⟩ := List.forall_mem_cons.mp hrules
    rw [List.foldl_cons]
    apply ih hrules
    rcases hrule with ⟨hscope, rfl⟩ | hkeeps
    · simpa [step, hscope] using h
    · unfold step
      split
      · exact h
      · exact hkeeps line h

/-- A comment is no row after a rule either. -/
theorem isData_step_comment (data : Bool) (rule : Rule) (h : isComment line) :
    isData (step data line rule) = false := by
  rw [← Bool.not_eq_true]
  intro hdata
  have hlive := isComment_of_isData hdata
  simp [isComment_step data rule h] at hlive

/-- **A run makes a row** of a line that is none just if one of its rules uncovers
it. -/
theorem isData_foldl_iff
    (hrules : rules.Pairwise fun rule later => rule ∈ uncovering → KeepsData later.apply)
    (h : isData line = false) : isData (rules.foldl (step false) line) ↔
      ∃ (before : List Rule) (rule : Rule) (after : List Rule), rules = before ++ rule :: after ∧
        Uncovers rule (before.foldl (step false) line) := by
  induction rules generalizing line with
  | nil => simp [h]
  | cons rule rules ih =>
    obtain ⟨hrule, hrules⟩ := List.pairwise_cons.mp hrules
    rw [List.foldl_cons]
    cases hstep : isData (step false line rule) with
    | true =>
      -- The rule uncovers the row, and the later ones keep it.
      have hlive : isComment line = false := by
        rw [← Bool.not_eq_true]
        intro hcomment
        rw [isData_step_comment false rule hcomment] at hstep
        exact Bool.noConfusion hstep
      rw [step_of_live hlive] at hstep ⊢
      have htakes : rule ∈ uncovering := by
        apply Decidable.byContradiction
        intro hnone
        rw [hidesData hnone line h] at hstep
        exact Bool.noConfusion hstep
      refine iff_of_true ?_ ⟨[], rule, rules, rfl, htakes, hlive, h, hstep⟩
      exact isData_foldl_step (fun later hlater => Or.inr (hrule later hlater htakes)) hstep
    | false =>
      rw [ih hrules hstep]
      constructor
      · rintro ⟨before, found, after, rfl, huncovers⟩
        exact ⟨rule :: before, found, after, rfl, huncovers⟩
      · rintro ⟨before, found, after, hsplit, huncovers⟩
        cases before with
        | nil =>
          obtain ⟨rfl, rfl⟩ := List.cons.inj hsplit
          have hlive : isComment line = false := huncovers.live
          have hshown : isData (rule.apply line) := huncovers.shown
          rw [← step_of_live hlive, hstep] at hshown
          exact Bool.noConfusion hshown
        | cons first before =>
          obtain ⟨rfl, rfl⟩ := List.cons.inj hsplit
          exact ⟨before, found, after, rfl, huncovers⟩

end Rule

namespace Line

open Literal (isQuote)

/-- **Whether a line is taken for rows** stays the same in a conversion just if no rule
uncovers the beginning of a row in a line that had none.  The rule that takes the
quotes off names does so if there is one before the first quote mark, backticks
apart.  The others do so only where a clause that they take away stands in the
opening of a row. -/
theorem isData_convert_iff (options : Options) (line : Text) :
    (isData (convert options line) = isData line ↔
      (isData line = false → ∀ before rule after, Rule.enabled options = before ++ rule :: after →
        ¬ Rule.Uncovers rule (before.foldl (Rule.step false) line))) ∧
      (∀ stage, Rule.Uncovers .stripNameQuotes stage ↔ isComment stage = false ∧
        isData stage = false ∧
        isData ((stage.takeWhile (!isQuote ·)).filter (· != '\x60'))) ∧
      ∀ rule stage, Rule.Uncovers rule stage → Rule.HidesRow rule stage := by
  refine ⟨?_, ?_, fun rule stage => Rule.Uncovers.hidesRow⟩
  · cases hline : isData line with
    | true =>
      have hrules : ∀ rule ∈ Rule.enabled options,
          rule.scope = .schema ∧ true ∨ KeepsData rule.apply := by
        intro rule _
        have hall : ∀ rule : Rule, rule.scope = .schema ∨ rule ∈ Rule.keeping := by
          intro rule
          cases rule <;> decide
        exact (hall rule).imp (fun h => ⟨h, rfl⟩) Rule.keepsData
      have hkept := Rule.isData_foldl_step hrules hline
      rw [convert, hline, hkept]
      simp
    | false =>
      have hpairs : (Rule.enabled options).Pairwise fun rule later =>
          rule ∈ Rule.uncovering → later ∈ Rule.keeping := by
        have hall : Rule.all.Pairwise fun rule later =>
            rule ∈ Rule.uncovering → later ∈ Rule.keeping := by decide
        exact hall.filter _
      have hiff := Rule.isData_foldl_iff
        (hpairs.imp fun h htakes => Rule.keepsData (h htakes)) hline
      rw [convert, hline, ← Bool.not_eq_true, hiff]
      simp only [not_exists, not_and, forall_const]
  · intro stage
    have hcode : isData (stripNameQuotes stage) =
        isData ((stage.takeWhile (!isQuote ·)).filter (· != '\x60')) := isData_mapCode rfl _ stage
    rw [← hcode]
    exact ⟨fun h => ⟨h.live, h.hidden, h.shown⟩, fun h => ⟨by decide, h.1, h.2.1, h.2.2⟩⟩

/-- A column whose name begins like the word of an insert is taken for a row once its
backticks are gone. -/
theorem isData_convert_inserted :
    isData "  \x60inserted\x60 int,".toList = false ∧
      isData (convert {} "  \x60inserted\x60 int,".toList) := by
  decide +kernel

end Line
end DumpBridge
