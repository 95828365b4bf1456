import DumpBridge.Rule
import DumpBridge.Proofs.Line.TypeText
import DumpBridge.Proofs.Literal.Calls
import DumpBridge.Proofs.Text.Replace

/-!
# What rules do not add

Each rule puts in words of its own and pieces of the line, and among these there is no
line feed and no parenthesis that opens but for one that goes (`Rule.addsNo_apply`).
So what a line becomes is one line again (`Line.not_mem_convert`), and nothing opens in it
more often than before (`Line.addsNo_convert`).
-/

namespace DumpBridge

open Text (Pattern Cursor)
open Text.Pattern
open Literal (Piece Quoting Segment mapCode segments)

variable {x : Char} {f g : Text → Text} {p : Pattern} {new : Cursor → Text}

/-- `AddsNo x f`: a change writes a character no more often than it is there. -/
def AddsNo (x : Char) (f : Text → Text) : Prop :=
  ∀ t, (f t).count x ≤ t.count x

theorem AddsNo.comp (hf : AddsNo x f) (hg : AddsNo x g) : AddsNo x fun t => f (g t) :=
  fun t => (hf (g t)).trans (hg t)

/-- Where the character is not there, the change does not bring it. -/
theorem AddsNo.not_mem {t : Text} (hf : AddsNo x f) (h : x ∉ t) : x ∉ f t := by
  rw [← List.count_eq_zero] at h ⊢
  exact Nat.le_zero.mp (h ▸ hf t)

/-- Replacing matches adds no more than what takes their place does. -/
theorem addsNo_replaceWith
    (h : ∀ before t stop y, p.matchAfter before t = some stop → t = y ++ stop.rest →
      (new stop).count x ≤ y.count x) : AddsNo x (p.replaceWith new) := by
  have hfrom : ∀ before t, (p.replaceFrom new before 0 t).count x ≤ t.count x := by
    intro before t
    induction before, t using replaceFrom_induction p new with
    | nil => exact Nat.le_refl _
    | kept before c t hstep ih =>
      rw [hstep, List.count_cons, List.count_cons]
      exact Nat.add_le_add_right ih _
    | found before y stop hstop _ hout ih =>
      rw [hout, List.count_append, List.count_append]
      exact Nat.add_le_add (h before _ stop y hstop rfl) ih
  exact fun t => hfrom none t

theorem count_le_of_not_mem {word t : Text} (hword : x ∉ word) : word.count x ≤ t.count x := by
  rw [List.count_eq_zero.mpr hword]
  exact Nat.zero_le _

/-- A word adds only characters of its own. -/
theorem addsNo_patternReplace {word : Text} (hword : x ∉ word) : AddsNo x (p.replace word) :=
  addsNo_replaceWith fun _ _ _ _ _ _ => count_le_of_not_mem hword

theorem addsNo_erase : AddsNo x p.erase :=
  addsNo_patternReplace (by simp)

/-- So does a text that takes the place of another. -/
theorem addsNo_replace {old word : Text} (hold : old ≠ []) (hword : x ∉ word) :
    AddsNo x (Text.replace old word) := by
  intro t
  induction t using Text.replace_induction hold with
  | nil => exact Nat.le_refl _
  | occurrence t ih =>
    rw [Text.replace_append hold, List.count_append, List.count_append,
      List.count_eq_zero.mpr hword]
    omega
  | kept c t hnot ih =>
    rw [Text.replace_cons hnot, List.count_cons, List.count_cons]
    omega

/-- Nor do texts put together, if none of them does. -/
theorem count_flatMap_le {α : Type} {u v : α → Text} (h : ∀ a, (u a).count x ≤ (v a).count x)
    (as : List α) : (as.flatMap u).count x ≤ (as.flatMap v).count x := by
  induction as with
  | nil => exact Nat.le_refl _
  | cons a as ih =>
    rw [List.flatMap_cons, List.flatMap_cons, List.count_append, List.count_append]
    exact Nat.add_le_add (h a) ih

/-- A change of code alone adds what it adds to a run of code. -/
theorem AddsNo.mapCode (hf : AddsNo x f) (q : Quoting) : AddsNo x (mapCode q f) := by
  intro t
  conv_rhs => rw [← Literal.flatMap_text_segments q t]
  refine count_flatMap_le (fun seg => ?_) (segments q t)
  cases seg with
  | code s => exact hf s
  | literal s => exact Nat.le_refl _

/-- The characters that are followed here: the line feed and the parenthesis that opens. -/
def watched : List Char :=
  ['\n', '(']

/-- What a match sets aside has the character no more often than the match. -/
theorem count_captured_le {before : Option Char} {t y : Text} {stop : Cursor}
    (hstop : p.matchAfter before t = some stop) (hsplit : t = y ++ stop.rest) (slot : Nat) :
    (stop.captured slot).count x ≤ y.count x :=
  (captured_infix_taken hstop slot hsplit).sublist.count_le x

/-! ## Types -/

namespace ColumnType

/-- What takes the place of a type has a width of that type at most. -/
theorem count_target_le (hx : x ∈ watched) : ∀ change ∈ changes, ∀ found : Cursor,
    (change.target found).count x ≤ (found.captured 1).count x := by
  have hall : ∀ x ∈ watched, ∀ change ∈ changes, ∀ found : Cursor,
      (change.target found).count x ≤ (found.captured 1).count x := by
    simp only [watched, changes, List.forall_mem_cons, List.not_mem_nil, false_imp_iff,
      implies_true, and_true, Change.into]
    repeat' apply And.intro
    all_goals intro found
    all_goals first
      | exact count_le_of_not_mem (by decide)
      | simp
  exact hall x hx

/-- So no type that is changed adds more. -/
theorem addsNo_mapTypes (hx : x ∈ watched) : AddsNo x mapTypes := by
  intro t
  refine List.foldlRecOn (motive := fun code : Text => code.count x ≤ t.count x) _ _
    (Nat.le_refl _) ?_
  intro code hcode change hchange
  have hchanged : AddsNo x change.apply := addsNo_replaceWith fun _ _ stop _ hstop hsplit =>
    (count_target_le hx change hchange stop).trans (count_captured_le hstop hsplit 1)
  exact (hchanged code).trans hcode

/-- A set becomes one word. -/
theorem addsNo_setsToText (hx : x ∈ watched) : AddsNo x setsToText := by
  have hword : ∀ x ∈ watched, x ∉ "TEXT".toList := by decide
  have hpiece : ∀ piece : Piece, (setText piece).count x ≤ piece.text.count x := by
    intro piece
    cases piece with
    | plain t => exact Nat.le_refl _
    | call head inside =>
      rw [setText]
      split
      · exact count_le_of_not_mem (hword x hx)
      · exact Nat.le_refl _
  intro t
  have hall := count_flatMap_le hpiece
    (Literal.piecesFrom .standard (Literal.callOpener "SET") none 0 t)
  rwa [Literal.flatMap_text_piecesFrom (by decide), ← setsToText_eq] at hall

end ColumnType

/-! ## Rules -/

namespace Line

variable {line : Text}

/-- A line that may become a comment gets a mark that has neither. -/
theorem addsNo_ite_commentOut (hx : x ∈ watched) (comment : Text → Bool) :
    AddsNo x fun line => if comment line then commentOut line else line := by
  have hmark : ∀ x ∈ watched, x ∉ "-- ".toList := by decide
  intro line
  dsimp only
  split
  · rw [commentOut, List.count_append, List.count_eq_zero.mpr (hmark x hx), Nat.zero_add]
  · exact Nat.le_refl _

/-- Taking quotes off names adds nothing. -/
theorem addsNo_stripNameQuotes : AddsNo x stripNameQuotes := by
  have hfilter : AddsNo x fun code => code.filter (· != '\x60') :=
    fun _ => List.filter_sublist.count_le x
  exact hfilter.mapCode .mysql

/-- Restating escapes puts in marks of its own. -/
theorem addsNo_normalizeEscapes (hx : x ∈ watched) : AddsNo x normalizeEscapes := by
  have hmarks : ∀ x ∈ watched, x ∉ backslashMark ∧ x ∉ ['\'', '\''] ∧ x ∉ ['\\'] := by decide
  obtain ⟨hmark, hquotes, hbackslash⟩ := hmarks x hx
  intro line
  unfold normalizeEscapes
  split
  · exact (addsNo_replace (by decide) hbackslash).comp
      ((addsNo_replace (by decide) hquotes).comp (addsNo_replace (by decide) hmark)) line
  · exact Nat.le_refl _

theorem addsNo_nullZeroDates (hx : x ∈ watched) : AddsNo x nullZeroDates := by
  have hword : ∀ x ∈ watched, x ∉ "NULL".toList := by decide
  exact (addsNo_replace (by decide) (hword x hx)).comp (addsNo_replace (by decide) (hword x hx))

/-- A conditional block leaves a piece of itself. -/
theorem addsNo_commentConditionalBlocks (hx : x ∈ watched) :
    AddsNo x commentConditionalBlocks := by
  have hmark : ∀ x ∈ watched, x ∉ "-- ".toList := by decide
  refine addsNo_replaceWith fun before t stop y hstop hsplit => ?_
  rw [commentOut, List.count_append, List.count_eq_zero.mpr (hmark x hx), Nat.zero_add]
  exact count_captured_le hstop hsplit 1

theorem addsNo_renameTimeZone (hx : x ∈ watched) : AddsNo x renameTimeZone := by
  have hword : ∀ x ∈ watched, x ∉ "SET timezone =".toList := by decide
  exact addsNo_patternReplace (hword x hx)

/-- The end of a table leaves its parenthesis and a piece of its options. -/
theorem addsNo_stripTableOptions (hx : x ∈ watched) : AddsNo x stripTableOptions := by
  have hwords : ∀ x ∈ watched, x ∉ " -- COMMENT: ".toList ∧ x ∉ [';'] := by decide
  obtain ⟨hcomment, hend⟩ := hwords x hx
  intro line
  unfold stripTableOptions
  split
  · exact Nat.le_refl _
  · next found hfound =>
    simp only [matchStart, matchAfter, tableEnd, ends_append_assoc] at hfound
    obtain ⟨close, rest, hline, -, -, hclose⟩ :=
      captured_of_mem_ends_append (by decide) (List.mem_of_head? hfound)
    obtain rfl : line = close ++ (rest ++ found.rest) := hline
    dsimp only
    rw [hclose, List.drop_left, List.append_assoc, List.count_append, List.count_append,
      List.count_append]
    have hterminator : ∀ b : Bool, (if b then [';'] else []).count x = 0 := by
      intro b
      cases b with
      | false => rfl
      | true => exact List.count_eq_zero.mpr hend
    rw [hterminator, Nat.zero_add]
    refine Nat.add_le_add_left ?_ _
    split
    · next skipped stop hstop =>
      rw [List.count_append, List.count_eq_zero.mpr hcomment, Nat.zero_add]
      exact (captured_infix_of_findAfter hstop 1).sublist.count_le x
    · exact Nat.zero_le _

/-- The types of a line change after its name. -/
theorem addsNo_mapTypes (hx : x ∈ watched) : AddsNo x mapTypes := by
  have htypes := (ColumnType.addsNo_setsToText hx).comp
    ((ColumnType.addsNo_mapTypes hx).mapCode .standard)
  intro line
  have hafter : ∀ n, (line.take n ++ ColumnType.setsToText
      (mapCode .standard ColumnType.mapTypes (line.drop n))).count x ≤ line.count x := by
    intro n
    conv_rhs => rw [← List.take_append_drop n line]
    rw [List.count_append, List.count_append]
    exact Nat.add_le_add_left (htypes (line.drop n)) _
  unfold mapTypes
  split
  · exact Nat.le_refl _
  · exact hafter _

/-- The default of a truth value keeps what stands in between. -/
theorem addsNo_booleanDefaults (hx : x ∈ watched) : AddsNo x booleanDefaults := by
  have hwords : ∀ x ∈ watched, x ∉ "BOOLEAN".toList ∧ x ∉ " DEFAULT ".toList ∧
      x ∉ "true".toList ∧ x ∉ "false".toList := by decide
  obtain ⟨hboolean, hdefault, htrue, hfalse⟩ := hwords x hx
  unfold booleanDefaults
  refine addsNo_replaceWith fun before t stop y hstop hsplit => ?_
  have hbetween := count_captured_le (x := x) hstop hsplit 1
  rw [List.count_append, List.count_append, List.count_append, List.count_eq_zero.mpr hboolean,
    List.count_eq_zero.mpr hdefault]
  split
  · rwa [List.count_eq_zero.mpr htrue, Nat.zero_add]
  · rwa [List.count_eq_zero.mpr hfalse, Nat.zero_add]

theorem addsNo_currentTimestampCalls (hx : x ∈ watched) : AddsNo x currentTimestampCalls := by
  have hword : ∀ x ∈ watched, x ∉ "CURRENT_TIMESTAMP".toList := by decide
  unfold currentTimestampCalls
  exact (addsNo_patternReplace (hword x hx)).mapCode .standard

/-- A clause that is dropped from code adds nothing. -/
theorem addsNo_strip (p : Pattern) : AddsNo x (mapCode .standard p.erase) :=
  addsNo_erase.mapCode .standard

theorem addsNo_stripAutoIncrement : AddsNo x stripAutoIncrement := by
  have hboth : AddsNo x fun code => numbering.erase (numberingFrom.erase code) :=
    addsNo_erase.comp addsNo_erase
  exact hboth.mapCode .standard

/-- A unique key keeps what stands before its word, and its parenthesis. -/
theorem addsNo_dropUniqueKeyName (hx : x ∈ watched) : AddsNo x dropUniqueKeyName := by
  have hword : ∀ x ∈ watched, x ∉ "UNIQUE ".toList := by decide
  intro line
  unfold dropUniqueKeyName
  split
  · next found hfound =>
    simp only [matchStart, matchAfter, uniqueKey, ends_append_assoc] at hfound
    obtain ⟨front, _, hline, -, hrest, hfront⟩ :=
      captured_of_mem_ends_append (by decide) (List.mem_of_head? hfound)
    simp only [← takes_append_assoc] at hrest
    obtain ⟨z, paren, rfl, -, hparen⟩ := takes_append.mp hrest
    obtain rfl := takes_char.mp hparen
    obtain rfl : line = front ++ (z ++ ['('] ++ found.rest) := hline
    rw [hfront, show "UNIQUE (".toList = "UNIQUE ".toList ++ ['('] from rfl]
    simp only [List.count_append, List.count_eq_zero.mpr (hword x hx)]
    omega
  · exact Nat.le_refl _

/-- A column without its length keeps a character of it. -/
theorem addsNo_dropPrefixLengths : AddsNo x dropPrefixLengths := by
  intro line
  unfold dropPrefixLengths
  split
  · exact Nat.le_refl _
  · next found _ =>
    dsimp only
    split
    · exact Nat.le_refl _
    · next n _ =>
      generalize found.taken - 1 = start
      have hline : line = line.take start ++ (line.drop start).take (n + 1) ++
          line.drop (start + n + 1) := by
        rw [List.append_assoc, Nat.add_assoc, ← List.drop_drop, List.take_append_drop,
          List.take_append_drop]
      have hlist : AddsNo x (prefixLength.replaceWith (·.captured 1)) :=
        addsNo_replaceWith fun _ _ _ _ hstop hsplit => count_captured_le hstop hsplit 1
      conv_rhs => rw [hline]
      simp only [List.count_append]
      exact Nat.add_le_add_right (Nat.add_le_add_left (hlist _) _) _

/-- A key keeps its columns. -/
theorem addsNo_plainKeys (hx : x ∈ watched) : AddsNo x plainKeys := by
  unfold plainKeys
  exact addsNo_dropPrefixLengths.comp (addsNo_dropUniqueKeyName hx)

end Line

/-- **No rule adds** a line feed or a parenthesis that opens. -/
theorem Rule.addsNo_apply (rule : Rule) (hx : x ∈ watched) : AddsNo x rule.apply := by
  cases rule with
  | commentSecondaryKeys => exact Line.addsNo_ite_commentOut hx fun line =>
      Line.secondaryKey.starts line ||
        (Line.addSecondaryKey.occurs line && !Line.addPrimaryOrUnique.occurs line)
  | commentIdentityModifications =>
    exact Line.addsNo_ite_commentOut hx Line.identityModification.starts
  | stripNameQuotes => exact Line.addsNo_stripNameQuotes
  | normalizeEscapes => exact Line.addsNo_normalizeEscapes hx
  | nullZeroDates => exact Line.addsNo_nullZeroDates hx
  | commentConditionalBlocks => exact Line.addsNo_commentConditionalBlocks hx
  | renameTimeZone => exact Line.addsNo_renameTimeZone hx
  | commentSessionStatements => exact Line.addsNo_ite_commentOut hx Line.sessionStatement.starts
  | stripTableOptions => exact Line.addsNo_stripTableOptions hx
  | stripColumnComments => exact addsNo_erase (p := Line.columnComment)
  | stripCollation => exact Line.addsNo_strip Line.collation
  | stripCharset => exact Line.addsNo_strip Line.charset
  | mapTypes => exact Line.addsNo_mapTypes hx
  | booleanDefaults => exact Line.addsNo_booleanDefaults hx
  | stripOnUpdate => exact Line.addsNo_strip Line.onUpdate
  | currentTimestampCalls => exact Line.addsNo_currentTimestampCalls hx
  | stripAutoIncrement => exact Line.addsNo_stripAutoIncrement
  | stripIndexMethods => exact Line.addsNo_strip Line.indexMethod
  | plainKeys => exact Line.addsNo_plainKeys hx

/-- Neither do all rules together. -/
theorem Line.addsNo_convert (hx : x ∈ watched) (options : Options) :
    AddsNo x (convert options) := by
  intro line
  refine List.foldlRecOn (motive := fun t : Text => t.count x ≤ line.count x) _ _
    (Nat.le_refl _) ?_
  intro t ht rule _
  unfold Rule.step
  split
  · exact ht
  · exact (rule.addsNo_apply hx t).trans ht

/-- A line of the dump becomes one line of the script. -/
theorem Line.not_mem_convert {line : Text} (options : Options) (h : '\n' ∉ line) :
    '\n' ∉ convert options line :=
  (addsNo_convert (by decide) options).not_mem h

end DumpBridge
