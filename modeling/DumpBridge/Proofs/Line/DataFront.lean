import DumpBridge.Proofs.Line.Clauses
import DumpBridge.Proofs.Text.WholeWords
import Mathlib.Data.List.Infix

/-!
# What a line of rows begins with

A line holds rows if its first solid characters are a parenthesis or one of two
words (`isData_iff`).  A map of lines keeps rows if it passes over these characters
(`keepsData_replaceWith`), and it hides that a line may have rows if what it puts
in first is no part of them (`hidesData_replaceWith`).  Code is enough to look at,
since none of the characters is a quote mark (`KeepsData.mapCode`,
`HidesData.mapCode`).
-/

namespace DumpBridge.Line

open Text (Pattern Cursor isBlank isWord)
open Text.Pattern
open Literal (Quoting isQuote mapCode)

variable {line lead word rest s t : Text}

/-- What lines of rows begin with, in upper case. -/
def dataWords : List Text :=
  ["(".toList, "INSERT".toList, "REPLACE".toList]

/-- Only a parenthesis has a parenthesis as its upper case. -/
theorem toUpper_eq_paren {c : Char} : c.toUpper = '(' ↔ c = '(' := by
  constructor
  · intro hupper
    have hnat := congrArg Char.toNat hupper
    rw [Text.toNat_toUpper] at hnat
    apply Char.toNat_inj.mp
    have hparen : '('.toNat = 40 := rfl
    split at hnat <;> omega
  · rintro rfl
    rfl

/-- A line holds rows if, trimmed and in upper case, it begins with one of the words. -/
theorem isData_iff : isData line ↔
    ∃ w ∈ dataWords, w <+: (Text.trimStart line).map Char.toUpper := by
  have hparen : Text.startsWith '(' (Text.trimStart line) ↔
      "(".toList <+: (Text.trimStart line).map Char.toUpper := by
    cases Text.trimStart line with
    | nil => simp [Text.startsWith]
    | cons c t => simp [Text.startsWith, eq_comm, ← toUpper_eq_paren (c := c)]
  have hword : ∀ w : Text, w.length ≤ 7 → (w.isPrefixOf (((Text.trimStart line).take 7).map
      Char.toUpper) ↔ w <+: (Text.trimStart line).map Char.toUpper) := by
    intro w hw
    rw [List.isPrefixOf_iff_prefix, List.map_take, List.prefix_take_iff]
    exact and_iff_left hw
  simp only [isData, Bool.or_eq_true, hparen, hword "INSERT".toList (by decide),
    hword "REPLACE".toList (by decide), dataWords, List.mem_cons, List.not_mem_nil, or_false,
    exists_eq_or_imp, exists_eq_left, or_assoc]

/-- The letters of a word in upper case are those of the word. -/
theorem spells_of_map_toUpper {w : Text} (hw : ∀ a ∈ w, a.isUpper)
    (h : word.map Char.toUpper = w) : spells w word := by
  subst h
  induction word with
  | nil => rfl
  | cons c word ih =>
    obtain ⟨hc, hword⟩ := List.forall_mem_cons.mp hw
    have hsame : Pattern.sameLetter c.toUpper c := by
      have hlower : c.toUpper.toLower = c.toLower := by
        apply Char.toNat_inj.mp
        rw [Text.toNat_toLower, Text.toNat_toLower, Text.toNat_toUpper]
        split_ifs <;> omega
      simp [Pattern.sameLetter, hlower]
    rw [List.map_cons, spells, hsame, ih hword]
    rfl

/-- Rows begin with a parenthesis or with one of two words, in any case. -/
theorem dataWord_cases (h : word.map Char.toUpper ∈ dataWords) :
    word = ['('] ∨ spells "INSERT".toList word ∨ spells "REPLACE".toList word := by
  simp only [dataWords, List.mem_cons, List.not_mem_nil, or_false] at h
  rcases h with h | h | h
  · left
    obtain ⟨c, rfl, hc⟩ := List.map_eq_singleton_iff.mp h
    rw [toUpper_eq_paren.mp hc]
  · exact Or.inr (Or.inl (spells_of_map_toUpper (by decide) h))
  · exact Or.inr (Or.inr (spells_of_map_toUpper (by decide) h))

/-- Each word is the parenthesis, or has characters of words only. -/
theorem isWord_of_dataWord (h : word.map Char.toUpper ∈ dataWords) :
    word = ['('] ∨ word ≠ [] ∧ ∀ c ∈ word, isWord c := by
  rcases dataWord_cases h with h | h | h
  · exact Or.inl h
  · exact Or.inr (isWord_of_spells (by decide) h)
  · exact Or.inr (isWord_of_spells (by decide) h)

/-- None of these begins with a blank. -/
theorem isBlank_head_dataWord (h : word.map Char.toUpper ∈ dataWords) (rest : Text) :
    (word ++ rest).head?.any isBlank = false := by
  rcases isWord_of_dataWord h with rfl | ⟨hne, hword⟩
  · have hparen : isBlank '(' = false := by decide
    simpa using hparen
  · exact head_append_of_isWord hne hword rest

/-- **A line of rows** is blanks, one of the words, and the rest. -/
theorem isData_iff_front : isData line ↔ ∃ lead word rest, line = lead ++ (word ++ rest) ∧
    (∀ c ∈ lead, isBlank c) ∧ word.map Char.toUpper ∈ dataWords := by
  rw [isData_iff]
  constructor
  · rintro ⟨w, hw, r, hr⟩
    obtain ⟨word, rest, hsplit, rfl, -⟩ := List.map_eq_append_iff.mp hr.symm
    refine ⟨line.takeWhile isBlank, word, rest, ?_, fun c hc => List.mem_takeWhile_imp hc, hw⟩
    rw [← hsplit, Text.trimStart, List.takeWhile_append_dropWhile]
  · rintro ⟨lead, word, rest, rfl, hlead, hword⟩
    rw [Text.trimStart_append hlead (isBlank_head_dataWord hword rest), List.map_append]
    exact ⟨_, hword, List.prefix_append _ _⟩

/-- A line whose beginning is a row is one. -/
theorem isData_append (h : isData s) (t : Text) : isData (s ++ t) := by
  obtain ⟨lead, word, rest, rfl, hlead, hword⟩ := isData_iff_front.mp h
  exact isData_iff_front.mpr ⟨lead, word, rest ++ t, by simp, hlead, hword⟩

theorem isData_left (h : isData (s ++ t) = false) : isData s = false := by
  rw [← Bool.not_eq_true] at h ⊢
  exact fun hs => h (isData_append hs t)

/-- A beginning that is no row yet: either it is blank, or it has a part of one of
the words, and the rest of the word follows. -/
theorem isData_append_cases (h : isData (s ++ t)) (hs : isData s = false) :
    (∀ c ∈ s, isBlank c) ∧ isData t ∨
      ∃ w ∈ dataWords, ∃ before after, w = before ++ after ∧ before ≠ [] ∧ after ≠ [] ∧
        before = (Text.trimStart s).map Char.toUpper ∧ after <+: t.map Char.toUpper := by
  obtain ⟨w, hw, hprefix⟩ := isData_iff.mp h
  rw [Text.trimStart, List.dropWhile_append] at hprefix
  by_cases hblank : s.dropWhile isBlank = []
  · left
    rw [hblank] at hprefix
    exact ⟨List.dropWhile_eq_nil_iff.mp hblank, isData_iff.mpr ⟨w, hw, hprefix⟩⟩
  · right
    have hsolid : (s.dropWhile isBlank).isEmpty = false := by simpa using hblank
    rw [hsolid, if_neg (by simp), List.map_append] at hprefix
    have hstart : (s.dropWhile isBlank).map Char.toUpper <+:
        (s.dropWhile isBlank).map Char.toUpper ++ t.map Char.toUpper := List.prefix_append _ _
    rcases List.prefix_or_prefix_of_prefix hprefix hstart with hle | ⟨after, rfl⟩
    · exact absurd (isData_iff.mpr ⟨w, hw, hle⟩) (by simp [hs])
    · refine ⟨_, hw, _, after, rfl, by simpa using hblank, ?_, rfl,
        (List.prefix_append_right_inj _).mp hprefix⟩
      rintro rfl
      rw [List.append_nil] at hw
      exact absurd (isData_iff.mpr ⟨_, hw, List.prefix_refl _⟩) (by simp [hs])

/-! ## What cannot be part of the words -/

/-- Whether a text cannot stand inside the words: it does not agree with the rest of
a word, wherever it begins. -/
def blocksData (k : Text) : Bool :=
  k.head?.any (!isBlank ·) && dataWords.all fun w => w.tails.all fun after =>
    after.isEmpty ||
      !(after.isPrefixOf (k.map Char.toUpper)) && !((k.map Char.toUpper).isPrefixOf after)

/-- After such a text, a line is no row unless it was one before. -/
theorem isData_blocked {k : Text} (hk : blocksData k) (hs : isData s = false) (r : Text) :
    isData (s ++ (k ++ r)) = false := by
  rw [blocksData, Bool.and_eq_true] at hk
  obtain ⟨hhead, hwords⟩ := hk
  have hcompare : ∀ w ∈ dataWords, ∀ after, after <:+ w → after ≠ [] →
      ¬ after <+: k.map Char.toUpper ++ r.map Char.toUpper := by
    intro w hw after hsuffix hne hprefix
    have hafter := List.all_eq_true.mp (List.all_eq_true.mp hwords w hw) after
      ((List.mem_tails after w).mpr hsuffix)
    have hstart : k.map Char.toUpper <+: k.map Char.toUpper ++ r.map Char.toUpper :=
      List.prefix_append _ _
    have hapart : ¬ after <+: k.map Char.toUpper ∧ ¬ k.map Char.toUpper <+: after := by
      simpa [hne, ← Bool.not_eq_true, List.isPrefixOf_iff_prefix] using hafter
    rcases List.prefix_or_prefix_of_prefix hprefix hstart with hle | hle
    · exact hapart.1 hle
    · exact hapart.2 hle
  rw [← Bool.not_eq_true]
  intro hdata
  rcases isData_append_cases hdata hs with ⟨-, hrow⟩ | ⟨w, hw, before, after, rfl, -, hne, -, hle⟩
  · obtain ⟨w, hw, hprefix⟩ := isData_iff.mp hrow
    have htrim : Text.trimStart (k ++ r) = k ++ r := by
      cases k with
      | nil => simp at hhead
      | cons c k =>
        have hc : isBlank c = false := by simpa using hhead
        exact Text.trimStart_append (x := []) (by simp) (by simpa using hc)
    rw [htrim, List.map_append] at hprefix
    have hnonempty : ∀ w ∈ dataWords, w ≠ [] := by decide
    exact hcompare w hw w (List.suffix_refl w) (hnonempty w hw) hprefix
  · rw [List.map_append] at hle
    exact hcompare _ hw after (List.suffix_append _ _) hne hle

/-- What begins with a mark that is not in the words does not make a row. -/
theorem isData_append_mark (s : Text) (ht : t.head?.all (fun c => blocksData [c])) :
    isData (s ++ t) = isData s := by
  cases hs : isData s with
  | true => exact isData_append hs t
  | false =>
    cases t with
    | nil => rwa [List.append_nil]
    | cons c t => exact isData_blocked (k := [c]) (by simpa using ht) hs t

theorem blocksData_of_isQuote {c : Char} (hc : isQuote c) : blocksData [c] := by
  rw [isQuote, Bool.or_eq_true, decide_eq_true_eq, decide_eq_true_eq] at hc
  rcases hc with rfl | rfl
  · decide
  · decide

/-- A literal does not make a row. -/
theorem isData_append_literal (s : Text) (ht : t.head?.all isQuote) :
    isData (s ++ t) = isData s := by
  apply isData_append_mark
  cases t with
  | nil => rfl
  | cons c t => simpa using blocksData_of_isQuote (by simpa using ht)

/-- What follows a parenthesis does not matter. -/
theorem isData_append_paren (s t u : Text) : isData (s ++ '(' :: t) = isData (s ++ '(' :: u) := by
  have hparen : ∀ t u, isData (s ++ '(' :: t) → isData (s ++ '(' :: u) := by
    intro t u ht
    cases hs : isData s with
    | true => exact isData_append hs _
    | false =>
      rcases isData_append_cases ht hs with ⟨hblank, -⟩ | ⟨w, hw, before, after, rfl, hne, hafter,
        -, hle⟩
      · exact isData_iff_front.mpr ⟨s, ['('], u, by simp, hblank, by decide⟩
      · -- No word has a parenthesis after its first letter.
        have hnone : ∀ w ∈ dataWords, '(' ∉ w.tail := by decide
        obtain ⟨c, after, rfl⟩ := List.exists_cons_of_ne_nil hafter
        obtain ⟨rfl, -⟩ := List.cons_prefix_cons.mp hle
        obtain ⟨d, before, rfl⟩ := List.exists_cons_of_ne_nil hne
        exact absurd (by simp) (hnone _ hw)
  rw [Bool.eq_iff_iff]
  exact ⟨hparen t u, hparen u t⟩

/-! ## Maps that keep rows -/

/-- `KeepsData f`: a line of rows stays one. -/
def KeepsData (f : Text → Text) : Prop :=
  ∀ line, isData line → isData (f line)

/-- `HidesData f`: a line without rows stays one. -/
def HidesData (f : Text → Text) : Prop :=
  ∀ line, isData line = false → isData (f line) = false

variable {f g : Text → Text} {p : Pattern}

theorem KeepsData.comp (hf : KeepsData f) (hg : KeepsData g) : KeepsData fun t => g (f t) :=
  fun line hline => hg _ (hf line hline)

theorem HidesData.comp (hf : HidesData f) (hg : HidesData g) : HidesData fun t => g (f t) :=
  fun line hline => hg _ (hf line hline)

/-- What stands in a line before its first quote mark. -/
def firstCode (line : Text) : Text :=
  line.takeWhile (!isQuote ·)

/-- The literal in front of a text stays there. -/
theorem head?_mapCode {q : Quoting} (ht : t.head?.all isQuote) :
    (mapCode q f t).head?.all isQuote := by
  cases t with
  | nil => rfl
  | cons m t =>
    have hm : isQuote m := by simpa using ht
    rw [mapCode, Literal.segments, Literal.lexemes, Literal.lexemesFrom, if_pos hm, List.foldr_cons]
    rcases (Literal.lexemesFrom q (some m) t).foldr Literal.Lexeme.before [] with
      _ | ⟨s | s, rest⟩ <;> simpa [Literal.Lexeme.before, Literal.Lexeme.text] using hm

/-- Whether a line is a row can be read off its first run of code. -/
theorem isData_firstCode (line : Text) : isData (firstCode line) = isData line := by
  conv_rhs => rw [← List.takeWhile_append_dropWhile (p := (!isQuote ·)) (l := line)]
  exact (isData_append_literal _ (Literal.head?_dropWhile_isQuote line)).symm

/-- **A map of the code of a line** is one of its first run of code, as far as rows are
concerned. -/
theorem isData_mapCode (hf : f [] = []) (q : Quoting) (line : Text) :
    isData (mapCode q f line) = isData (f (firstCode line)) := by
  have hrest := Literal.head?_dropWhile_isQuote line
  conv_lhs => rw [← List.takeWhile_append_dropWhile (p := (!isQuote ·)) (l := line)]
  rw [firstCode]
  cases hcode : line.takeWhile (!isQuote ·) with
  | nil =>
    rw [hf]
    exact isData_append_literal [] (head?_mapCode hrest)
  | cons c x =>
    have hclear : ∀ d ∈ c :: x, isQuote d = false := by
      rw [← hcode]
      exact fun _ => Literal.isQuote_of_mem_takeWhile
    rw [Literal.mapCode_append f (by simp) hclear hrest]
    exact isData_append_literal _ (head?_mapCode hrest)

theorem KeepsData.mapCode (h : KeepsData f) (hf : f [] = []) (q : Quoting) :
    KeepsData (mapCode q f) := by
  intro line hline
  rw [isData_mapCode hf]
  exact h _ ((isData_firstCode line).trans hline)

theorem HidesData.mapCode (h : HidesData f) (hf : f [] = []) (q : Quoting) :
    HidesData (mapCode q f) := by
  intro line hline
  rw [isData_mapCode hf]
  exact h _ ((isData_firstCode line).trans hline)

/-! ## Replacements -/

/-- Replacing changes nothing before the first match, and goes on behind it. -/
theorem exists_replaceFrom_eq (p : Pattern) (new : Cursor → Text) (before : Option Char)
    (t : Text) :
    p.replaceFrom new before 0 t = t ∨ ∃ s n found last, t = s ++ n ∧
      p.matchAfter (s.getLast?.or before) n = some found ∧
      p.replaceFrom new before 0 t = s ++ (new found ++ p.replaceFrom new last 0 found.rest) := by
  induction t generalizing before with
  | nil => exact Or.inl rfl
  | cons c t ih =>
    rcases Pattern.replaceFrom_cons_cases p new before c t with
      hstep | ⟨_, found, hmatch, -, -, -, -, hreplaced⟩
    · rw [hstep]
      rcases ih (some c) with hsame | ⟨s, n, found, last, rfl, hfound, hsplit⟩
      · exact Or.inl (by rw [hsame])
      · refine Or.inr ⟨c :: s, n, found, last, rfl, ?_, by rw [hsplit]; rfl⟩
        rw [Pattern.getLast?_cons_or]
        exact hfound
    · exact Or.inr ⟨[], c :: t, found, _, rfl, hmatch, hreplaced⟩

/-- What puts in no part of the words first hides rows. -/
theorem hidesData_replaceWith {new : Cursor → Text}
    (hnew : ∀ found, ∃ k r, new found = k ++ r ∧ blocksData k) :
    HidesData (p.replaceWith new) := by
  intro line hline
  rw [Pattern.replaceWith]
  rcases exists_replaceFrom_eq p new none line with hsame | ⟨s, n, found, r, rfl, -, hsplit⟩
  · rw [hsame, hline]
  · have hs : isData s = false := isData_left hline
    obtain ⟨k, r', hk, hblocks⟩ := hnew found
    rw [hsplit, hk, List.append_assoc]
    exact isData_blocked hblocks hs _

/-- Replacing a text by one that cannot stand in the words makes no rows. -/
theorem hidesData_textReplace (old new : Text) (hnew : blocksData new) :
    HidesData (Text.replace old new) := by
  have hsplit : ∀ t, Text.replace old new t = t ∨
      ∃ s n r, t = s ++ n ∧ Text.replace old new t = s ++ (new ++ r) := by
    intro t
    induction t with
    | nil => exact Or.inl rfl
    | cons c t ih =>
      rw [Text.replace] at ih ⊢
      rw [Text.replaceFrom]
      split
      · exact Or.inr ⟨[], c :: t, _, rfl, rfl⟩
      · rcases ih with hsame | ⟨s, n, r, rfl, hr⟩
        · exact Or.inl (by rw [hsame])
        · exact Or.inr ⟨c :: s, n, r, rfl, by rw [hr]; rfl⟩
  intro line hline
  rcases hsplit line with hsame | ⟨s, n, r, rfl, hr⟩
  · rw [hsame, hline]
  · have hs : isData s = false := isData_left hline
    rw [hr]
    exact isData_blocked hnew hs r

/-- `PassesData p`: no match starts in front of a line of rows. -/
def PassesData (p : Pattern) : Prop :=
  ∀ lead word rest, (∀ c ∈ lead, isBlank c) → word.map Char.toUpper ∈ dataWords →
    p.Passes none (lead ++ word) rest

/-- **Replacing matches keeps rows**, if none starts in front of one. -/
theorem keepsData_replaceWith (h : PassesData p) (new : Cursor → Text) :
    KeepsData (p.replaceWith new) := by
  intro line hline
  obtain ⟨lead, word, rest, rfl, hlead, hword⟩ := isData_iff_front.mp hline
  rw [Pattern.replaceWith, ← List.append_assoc,
    replaceFrom_of_passes (h lead word rest hlead hword), List.append_assoc]
  exact isData_iff_front.mpr ⟨lead, word, _, rfl, hlead, hword⟩

/-- A pattern that leads to other words passes over rows. -/
theorem passesData_of_leadsTo {site : Text → Prop} (h : p.LeadsTo site)
    (hsite : ∀ word rest, word.map Char.toUpper ∈ dataWords → ¬ site (word ++ rest))
    (hparen : ∀ before rest, ¬ p.Fits before ('(' :: rest)) : PassesData p := by
  intro lead word rest hlead hword
  rw [passes_append]
  refine ⟨h.passes_blanks hlead (isBlank_head_dataWord hword rest) (hsite word rest hword), ?_⟩
  rcases isWord_of_dataWord hword with rfl | ⟨-, hletters⟩
  · exact ⟨hparen _ _, trivial⟩
  · exact h.passes_words hletters (hsite word rest hword)

/-- The first word of a phrase is a keyword that no row begins with. -/
def isForeign (w : Text) : Bool :=
  let k := w.takeWhile (· ≠ ' ')
  isKeyword k && apart "INSERT".toList k && apart "REPLACE".toList k

/-- A phrase with another first word does not fit before a row. -/
theorem not_fits_foreign {w : Text} (hw : isForeign w) {before : Option Char}
    (hword : word.map Char.toUpper ∈ dataWords) (rest : Text) :
    ¬ (letters w).Fits before (word ++ rest) := by
  rw [isForeign, Bool.and_eq_true, Bool.and_eq_true] at hw
  obtain ⟨⟨hkeyword, hinsert⟩, hreplace⟩ := hw
  intro hfits
  have hsplit : w = w.takeWhile (· ≠ ' ') ++ w.dropWhile (· ≠ ' ') :=
    List.takeWhile_append_dropWhile.symm
  have hfirst : (letters (w.takeWhile (· ≠ ' ')) ++ letters (w.dropWhile (· ≠ ' '))).Fits before
      (word ++ rest) := by
    obtain ⟨y, m, hm, hy⟩ := hfits
    rw [hsplit, takes_letters_append] at hy
    exact ⟨y, m, hm, hy⟩
  rcases dataWord_cases hword with rfl | hspells | hspells
  · have hhead := isWord_of_fits_keyword hkeyword hfirst
    exact absurd hhead (by simp; decide)
  · exact not_fits_of_apart (by decide) hkeyword hinsert hspells hfirst
  · exact not_fits_of_apart (by decide) hkeyword hreplace hspells hfirst

/-- Nor does one of several such phrases. -/
theorem not_fits_foreignPhrase {ws : List String} (hws : ∀ w ∈ ws, isForeign w.toList)
    {before : Option Char} (hword : word.map Char.toUpper ∈ dataWords) (rest : Text) :
    ¬ (anyPhrase ws).Fits before (word ++ rest) := by
  intro hfits
  rw [anyPhrase, fits_anyOf] at hfits
  obtain ⟨_, hmem, hfits⟩ := hfits
  obtain ⟨w, hw, rfl⟩ := List.mem_map.mp hmem
  exact not_fits_foreign (hws w hw) hword rest hfits

/-- The pattern without the last `n` parts of a sequence. -/
def cutLast : Nat → Pattern → Pattern
  | n + 1, .seq a _ => cutLast n a
  | _, p => p

/-- Where a sequence fits, it fits without its last parts. -/
theorem fits_cutLast {before : Option Char} (n : Nat) (h : p.Fits before t) :
    (cutLast n p).Fits before t := by
  fun_induction cutLast n p generalizing t with
  | case1 n a b ih =>
    obtain ⟨y, m, rfl, hy, -⟩ := fits_append.mp h
    exact ih ⟨y, m, rfl, hy⟩
  | case2 => exact h

/-- A pattern that begins with a gap and a word that is not a row's. -/
theorem passesData_gap (ws : List String)
    (hfits : ∀ before t, p.Fits before t → (gap ++ anyPhrase ws).Fits before t)
    (hws : ∀ w ∈ ws, isForeign w.toList) : PassesData p := by
  have hleads : p.LeadsTo fun m => ∃ before, (anyPhrase ws).Fits before m :=
    (leadsTo_gap fun before _ hm => ⟨before, hm⟩).of_fits hfits
  refine passesData_of_leadsTo hleads ?_ ?_
  · rintro word rest hword ⟨before, hfound⟩
    exact not_fits_foreignPhrase hws hword rest hfound
  · intro before rest hfound
    exact absurd (isBlank_of_fits_gap (hfits _ _ hfound)) (by simp; decide)

/-- A pattern that begins with a whole word that is not a row's. -/
theorem passesData_edge (ws : List String)
    (hfits : ∀ before t, p.Fits before t → (edge ++ anyPhrase ws).Fits before t)
    (hws : ∀ w ∈ ws, isForeign w.toList) : PassesData p := by
  have hwords : ∀ before m, (anyPhrase ws).Fits before m → m.head?.any isWord := by
    intro before m hm
    rw [anyPhrase, fits_anyOf] at hm
    obtain ⟨_, hmem, hm⟩ := hm
    obtain ⟨w, hw, rfl⟩ := List.mem_map.mp hmem
    have hforeign := hws w hw
    rw [isForeign, Bool.and_eq_true, Bool.and_eq_true] at hforeign
    have hsplit : w.toList = w.toList.takeWhile (· ≠ ' ') ++ w.toList.dropWhile (· ≠ ' ') :=
      List.takeWhile_append_dropWhile.symm
    obtain ⟨y, r, rfl, hy⟩ := hm
    rw [phrase_eq_letters, hsplit, takes_letters_append] at hy
    exact isWord_of_fits_keyword hforeign.1.1 ⟨y, r, rfl, hy⟩
  have hleads : p.LeadsTo fun m => ∃ before, (anyPhrase ws).Fits before m :=
    (leadsTo_edge hwords fun before _ hm => ⟨before, hm⟩).of_fits hfits
  refine passesData_of_leadsTo hleads ?_ ?_
  · rintro word rest hword ⟨before, hfound⟩
    exact not_fits_foreignPhrase hws hword rest hfound
  · intro before rest hfound
    have hhead := hwords _ _ (fits_edge_append.mp (hfits _ _ hfound)).2
    exact absurd hhead (by simp; decide)

end DumpBridge.Line
