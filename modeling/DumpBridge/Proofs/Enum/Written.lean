import DumpBridge.Enum.Basic
import DumpBridge.Proofs.Literal.Calls
import DumpBridge.Proofs.Literal.Items
import DumpBridge.Proofs.Literal.Marks

/-!
# Enumerations as they are written

An enumeration is the word `enum` in any case, any blanks, and in parentheses a list
of literals in single quote marks with blanks around them.  Where it stands at the
edge of a word, a scan for enumerations finds it as a whole
(`Enumeration.piecesFrom_text`) and reads its values
(`Enumeration.valueList?_inside`), whatever follows.

In the script's quoting an enumeration of the dump is written with its escapes
restated (`Enumeration.script`).  It then has the same values just if no double
quote mark was escaped (`Enumeration.values_script_iff`).
-/

namespace DumpBridge

open Text (Pattern isBlank isWord)
open Text.Pattern
open Literal

/-! ## Items and enumerations -/

/-- An item of an enumeration: a literal in single quote marks, with any blanks around
it. -/
structure Enumeration.Item (q : Quoting) where
  lead : Text
  literal : Text
  trail : Text
  lead_blank : ∀ c ∈ lead, isBlank c
  isLiteral : IsLiteral q '\'' literal
  trail_blank : ∀ c ∈ trail, isBlank c

/-- An enumeration, as it is written in a quoting. -/
structure Enumeration (q : Quoting) where
  word : Text
  gap : Text
  first : Enumeration.Item q
  others : List (Enumeration.Item q)
  spelled : spells "enum".toList word
  gap_blank : ∀ c ∈ gap, isBlank c

namespace Enumeration

variable {q : Quoting} {t : Text} {before : Option Char}

/-- The characters of an item. -/
def Item.text (item : Item q) : Text :=
  item.lead ++ (item.literal ++ item.trail)

/-- The value of an item. -/
def Item.value (item : Item q) : Text :=
  decode q item.literal.tail.dropLast

/-- The items in order. -/
def items (e : Enumeration q) : List (Item q) :=
  e.first :: e.others

/-- The word up to its parenthesis. -/
def head (e : Enumeration q) : Text :=
  e.word ++ (e.gap ++ ['('])

/-- What stands between the parentheses. -/
def inside (e : Enumeration q) : Text :=
  e.first.text ++ e.others.flatMap fun item => ',' :: item.text

/-- The characters of the enumeration. -/
def text (e : Enumeration q) : Text :=
  e.head ++ (e.inside ++ [')'])

/-- The values in order. -/
def values (e : Enumeration q) : List Text :=
  e.items.map Item.value

/-- What follows the literal of an item with given blanks after it, if other items follow:
code and literals in turn, up to the closing parenthesis. -/
def after (trail : Text) : List (Item q) → Text
  | [] => trail ++ [')']
  | item :: items => (trail ++ ',' :: item.lead) ++ (item.literal ++ after item.trail items)

theorem after_cons_append (trail : Text) (item : Item q) (items : List (Item q)) (t : Text) :
    after trail (item :: items) ++ t =
      (trail ++ ',' :: item.lead) ++ (item.literal ++ (after item.trail items ++ t)) := by
  simp only [after, List.append_assoc]

/-- An enumeration is its first run of code, its first literal, and what follows. -/
theorem text_append (e : Enumeration q) (t : Text) : e.text ++ t =
    (e.head ++ e.first.lead) ++ (e.first.literal ++ (after e.first.trail e.others ++ t)) := by
  have hafter : ∀ (trail : Text) (items : List (Item q)),
      after trail items = trail ++ (items.flatMap (fun item => ',' :: item.text) ++ [')']) := by
    intro trail items
    induction items generalizing trail with
    | nil => rfl
    | cons item items ih => simp [after, ih, Item.text]
  simp [text, inside, Item.text, hafter]

/-! ## Reading an enumeration -/

/-- A literal of an item is not followed by a quote mark. -/
theorem isQuote_head?_after {trail : Text} (htrail : ∀ c ∈ trail, isBlank c)
    (items : List (Item q)) (t : Text) : (after trail items ++ t).head?.any isQuote = false := by
  have hcomma : isQuote ',' = false := by decide
  have hparen : isQuote ')' = false := by decide
  cases trail with
  | nil =>
    cases items with
    | nil => simpa [after] using hparen
    | cons item items => simpa [after] using hcomma
  | cons c trail =>
    have hc := isQuote_of_blank htrail c (by simp)
    cases items with
    | nil | cons item items => simpa [after] using hc

/-- What stands between the literals of two items is code. -/
theorem isQuote_between {trail : Text} (htrail : ∀ c ∈ trail, isBlank c) (item : Item q) :
    ∀ c ∈ trail ++ ',' :: item.lead, isQuote c = false :=
  List.forall_mem_append.mpr ⟨isQuote_of_blank htrail,
    List.forall_mem_cons.mpr ⟨by decide, isQuote_of_blank item.lead_blank⟩⟩

/-- An item is read alike whatever follows, unless that is a quote mark. -/
theorem Item.lexemes_append (item : Item q) (ht : t.head? ≠ some '\'') :
    lexemes q (item.text ++ t) =
      item.lead.map .code ++ (lexemes q item.literal ++ item.trail.map .code) ++ lexemes q t := by
  have htrail : (item.trail ++ t).head? ≠ some '\'' := by
    cases hcut : item.trail with
    | nil => exact ht
    | cons c trail =>
      intro hmark
      obtain rfl : c = '\'' := by simpa using hmark
      have hblank := item.trail_blank '\'' (by rw [hcut]; simp)
      exact absurd hblank (by decide)
  rw [Item.text, List.append_assoc, lexemes_code_append (isQuote_of_blank item.lead_blank),
    List.append_assoc, item.isLiteral.lexemes_append htrail,
    lexemes_code_append (isQuote_of_blank item.trail_blank)]
  simp only [List.append_assoc]

/-- The lexemes of an item: blanks and the parts of a literal. -/
def Item.lexemes (item : Item q) : List Lexeme :=
  item.lead.map .code ++ (Literal.lexemes q item.literal ++ item.trail.map .code)

/-- The lexemes of the inside of an enumeration. -/
theorem lexemes_inside (e : Enumeration q) :
    lexemes q e.inside =
      e.first.lexemes ++ e.others.flatMap fun item => .code ',' :: item.lexemes := by
  have hothers : ∀ others : List (Item q),
      lexemes q (others.flatMap fun item => ',' :: item.text) =
        others.flatMap (fun item => .code ',' :: item.lexemes) ∧
      (others.flatMap fun item => ',' :: item.text).head? ≠ some '\'' := by
    intro others
    induction others with
    | nil => exact ⟨rfl, by simp⟩
    | cons item others ih =>
      refine ⟨?_, by simp⟩
      rw [List.flatMap_cons, List.cons_append, lexemes_code (by decide), item.lexemes_append ih.2,
        ih.1]
      rfl
  rw [inside, e.first.lexemes_append (hothers e.others).2, (hothers e.others).1]
  rfl

/-- A literal has no code. -/
theorem IsLiteral.not_code_mem {m c : Char} (h : IsLiteral q m t) : .code c ∉ lexemes q t := by
  obtain ⟨body, hinner, hlexemes⟩ := h
  rw [hlexemes]
  intro hmem
  have hbody : Lexeme.code c ∈ body := by simpa using hmem
  exact absurd (hinner _ hbody) (by simp [Lexeme.isInner])

/-- Of code, an item has blanks only. -/
theorem Item.not_code_mem (item : Item q) {c : Char} (hc : isBlank c = false) :
    .code c ∉ item.lexemes := by
  have hblank : ∀ x : Text, (∀ d ∈ x, isBlank d) → .code c ∉ x.map Lexeme.code := by
    intro x hx hmem
    obtain ⟨d, hd, heq⟩ := List.mem_map.mp hmem
    obtain rfl := Lexeme.code.inj heq
    simp [hx d hd] at hc
  simp only [Item.lexemes, List.mem_append, not_or]
  exact ⟨hblank _ item.lead_blank, IsLiteral.not_code_mem item.isLiteral, hblank _ item.trail_blank⟩

/-- No literal is open after an item. -/
theorem Item.markAfter (item : Item q) : Literal.markAfter none item.lexemes = none := by
  obtain ⟨body, hinner, hlexemes⟩ := item.isLiteral
  have hliteral : Literal.markAfter none (Literal.lexemes q item.literal) = none := by
    rw [hlexemes, markAfter_cons, markAfter_append, markAfter_inner hinner]
    rfl
  rw [Item.lexemes, markAfter_append, markAfter_code, markAfter_append, hliteral, markAfter_code]

/-- **The inside of an enumeration** has no parentheses outside literals. -/
theorem balanced_inside (e : Enumeration q) : Balanced q e.inside := by
  have hparen : ∀ c, isBlank c = false → c ≠ ',' → .code c ∉ lexemes q e.inside := by
    intro c hc hcomma hmem
    rw [lexemes_inside, List.mem_append, List.mem_flatMap] at hmem
    rcases hmem with hmem | ⟨item, -, hmem⟩
    · exact e.first.not_code_mem hc hmem
    · rcases List.mem_cons.mp hmem with heq | hmem
      · exact hcomma (Lexeme.code.inj heq)
      · exact item.not_code_mem hc hmem
  have hopen := hparen '(' (by decide) (by decide)
  have hclose := hparen ')' (by decide) (by decide)
  refine ⟨?_, ?_, ?_⟩
  · rw [lexemes_inside, markAfter_append, Item.markAfter]
    induction e.others with
    | nil => rfl
    | cons item others ih =>
      rw [List.flatMap_cons, List.cons_append, markAfter_cons, Lexeme.markAfter, markAfter_append,
        Item.markAfter, ih]
  · intro p hp
    rw [closed, List.count_eq_zero.mpr fun hmem => hclose (hp.subset hmem)]
    exact Nat.zero_le _
  · rw [opened, closed, List.count_eq_zero.mpr hopen, List.count_eq_zero.mpr hclose]

theorem Item.flatMap_text (item : Item q) : item.lexemes.flatMap Lexeme.text = item.text := by
  rw [Item.lexemes, List.flatMap_append, List.flatMap_append, flatMap_text_code, flatMap_text_code,
    flatMap_text_lexemes]
  rfl

/-- The inside of an enumeration is cut into its items. -/
theorem items_inside (e : Enumeration q) : Literal.items q e.inside = e.items.map Item.text := by
  have hcomma : ∀ item : Item q, .code ',' ∉ item.lexemes :=
    fun item => item.not_code_mem (by decide)
  have hfold : ∀ (first : Item q) (others : List (Item q)),
      (first.lexemes ++ others.flatMap fun item => .code ',' :: item.lexemes).foldr
        Lexeme.beforeItems [[]] = (first :: others).map Item.text := by
    intro first others
    induction others generalizing first with
    | nil =>
      rw [List.flatMap_nil, List.append_nil, foldr_beforeItems_of_not_mem (hcomma first),
        Item.flatMap_text, List.append_nil]
      rfl
    | cons item others ih =>
      rw [List.flatMap_cons, List.foldr_append, List.cons_append, List.foldr_cons, ih,
        Lexeme.beforeItems, foldr_beforeItems_of_not_mem (hcomma first), Item.flatMap_text,
        List.append_nil]
      rfl
  have hne : e.inside ≠ [] := by
    obtain ⟨body, -, -, -, hliteral⟩ := e.first.isLiteral.exists_inner
    simp [inside, Item.text, hliteral]
  rw [Literal.items, if_neg (by simpa using hne), lexemes_inside, hfold]
  rfl

/-- **The value of an item** is that of its literal. -/
theorem Item.itemValue? (item : Item q) : Literal.itemValue? q item.text = some item.value := by
  have hquote : isBlank '\'' = false := by decide
  have hlast := item.isLiteral.getLast?
  obtain ⟨body, -, -, -, hliteral⟩ := item.isLiteral.exists_inner
  have htrim : Text.trim item.text = item.literal := by
    refine Text.trim_append item.lead_blank ?_ ?_ item.trail_blank
    · rw [hliteral]
      simpa using hquote
    · rw [hlast]
      simpa using hquote
  have hsingle : isSingleQuoted item.literal := by
    rw [isSingleQuoted, Text.endsWith, hlast, hliteral]
    simp [Text.startsWith]
  rw [Literal.itemValue?, htrim, if_pos hsingle]
  rfl

/-- **The values of an enumeration** are read from its inside. -/
theorem valueList?_inside (e : Enumeration q) : valueList? q e.inside = some e.values := by
  have hmap : ∀ items : List (Item q),
      (items.map Item.text).mapM (Literal.itemValue? q) = some (items.map Item.value) := by
    intro items
    induction items with
    | nil => rfl
    | cons item items ih =>
      rw [List.map_cons, List.mapM_cons, item.itemValue?, ih]
      rfl
  rw [valueList?, items_inside]
  exact hmap e.items

theorem isKeyword_enum : isKeyword "enum".toList := by decide

/-- The letters of the word, each in one of its cases. -/
theorem exists_word (e : Enumeration q) : ∃ c w, e.word = c :: w ∧ c ∈ ['e', 'E'] ∧
    ∀ d ∈ w, d ∈ ['n', 'N', 'u', 'U', 'm', 'M'] := by
  obtain ⟨a, b, c, d, hword⟩ : ∃ a b c d, e.word = [a, b, c, d] := by
    have hlength := length_eq_of_spells e.spelled
    match e.word, hlength with
    | [a, b, c, d], _ => exact ⟨a, b, c, d, rfl⟩
  have hsame : sameLetter 'e' a ∧ sameLetter 'n' b ∧ sameLetter 'u' c ∧
      sameLetter 'm' d := by
    have hspelled := e.spelled
    rw [hword] at hspelled
    simpa [spells] using hspelled
  have ha : a = 'e' ∨ a = 'E' :=
    Text.eq_or_eq_of_sameLetter (by decide) (by decide) (by decide) hsame.1
  have hb : b = 'n' ∨ b = 'N' :=
    Text.eq_or_eq_of_sameLetter (by decide) (by decide) (by decide) hsame.2.1
  have hc : c = 'u' ∨ c = 'U' :=
    Text.eq_or_eq_of_sameLetter (by decide) (by decide) (by decide) hsame.2.2.1
  have hd : d = 'm' ∨ d = 'M' :=
    Text.eq_or_eq_of_sameLetter (by decide) (by decide) (by decide) hsame.2.2.2
  refine ⟨a, [b, c, d], hword, by simpa using ha, ?_⟩
  simp only [List.mem_cons, List.not_mem_nil, or_false, forall_eq_or_imp, forall_eq]
  grind

/-- What stands before the first literal: letters, blanks and the parenthesis. -/
theorem mem_front (e : Enumeration q) {c : Char} (hc : c ∈ e.head ++ e.first.lead) :
    isWord c ∨ isBlank c ∨ c = '(' := by
  simp only [head, List.mem_append, List.mem_singleton] at hc
  rcases hc with (hc | hc | hc) | hc
  · exact Or.inl ((isWord_of_spells isKeyword_enum e.spelled).2 c hc)
  · exact Or.inr (Or.inl (e.gap_blank c hc))
  · exact Or.inr (Or.inr hc)
  · exact Or.inr (Or.inl (e.first.lead_blank c hc))

/-- No quote mark stands before the first literal. -/
theorem isQuote_front (e : Enumeration q) : ∀ c ∈ e.head ++ e.first.lead, isQuote c = false := by
  intro c hc
  rcases e.mem_front hc with hword | hblank | rfl
  · exact isQuote_eq_false (Or.inr hword)
  · exact isQuote_eq_false (Or.inl hblank)
  · rfl

/-- The first letter of an enumeration, and its last parenthesis. -/
theorem exists_text (e : Enumeration q) : ∃ c u, e.text = c :: (u ++ [')']) ∧ c ∈ ['e', 'E'] := by
  obtain ⟨c, w, hword, hc, -⟩ := e.exists_word
  refine ⟨c, w ++ (e.gap ++ ['(']) ++ e.inside, ?_, hc⟩
  rw [text, head, hword]
  simp

/-- An enumeration does not begin with a quote mark. -/
theorem isQuote_head?_text (e : Enumeration q) (t : Text) :
    (e.text ++ t).head?.any isQuote = false := by
  obtain ⟨c, u, htext, hc⟩ := e.exists_text
  have hletters : ∀ c ∈ ['e', 'E'], isQuote c = false := by decide
  rw [htext]
  exact hletters c hc

/-- The search for enumerations takes everything up to the parenthesis. -/
theorem takes_head (e : Enumeration q) (hbefore : before.any isWord = false) (t : Text) :
    EnumType.opener.Takes before e.head t :=
  (takes_callOpener isKeyword_enum).mpr ⟨hbefore, e.word, e.gap, rfl, e.spelled, e.gap_blank⟩

theorem fits_text (e : Enumeration q) (hbefore : before.any isWord = false) (t : Text) :
    EnumType.opener.Fits before (e.text ++ t) :=
  ⟨e.head, e.inside ++ [')'] ++ t, by rw [text, List.append_assoc], e.takes_head hbefore _⟩

/-- **An enumeration is found** as a whole. -/
theorem piecesFrom_text (e : Enumeration q) (hbefore : before.any isWord = false) (t : Text) :
    piecesFrom q EnumType.opener before 0 (e.text ++ t) =
      .call e.head e.inside :: piecesFrom q EnumType.opener (some ')') 0 t := by
  have hsplit : e.text ++ t = e.head ++ (e.inside ++ ')' :: t) := by simp [text]
  rw [hsplit]
  exact piecesFrom_call isKeyword_enum (takes_head e hbefore _) e.balanced_inside

/-! ## The script's quoting -/

open Escapes (onePass)

/-- The item with its escapes restated. -/
def Item.script (item : Item .mysql) : Item .standard where
  lead := item.lead
  literal := onePass item.literal
  trail := item.trail
  lead_blank := item.lead_blank
  isLiteral := item.isLiteral.onePass (Or.inl rfl)
  trail_blank := item.trail_blank

/-- The enumeration as it is written in the script. -/
def script (e : Enumeration .mysql) : Enumeration .standard where
  word := e.word
  gap := e.gap
  first := e.first.script
  others := e.others.map Item.script
  spelled := e.spelled
  gap_blank := e.gap_blank

/-- Whether an escaped double quote mark stands in one of the literals. -/
def escapesDouble (e : Enumeration .mysql) : Bool :=
  e.items.any fun item => .pair '\\' (some '"') ∈ lexemes .mysql item.literal

/-- **The script's values** are those of the dump just if no double quote mark is
escaped. -/
theorem values_script_iff (e : Enumeration .mysql) :
    e.script.values = e.values ↔ e.escapesDouble = false := by
  have hitems : e.script.items = e.items.map Item.script := rfl
  rw [values, values, hitems, List.map_map, List.map_inj_left, escapesDouble, List.any_eq_false]
  constructor
  · intro h item hitem
    simpa using (item.isLiteral.decode_onePass_iff).mp (h item hitem)
  · intro h item hitem
    exact (item.isLiteral.decode_onePass_iff).mpr (by simpa using h item hitem)

theorem onePass_blank {x : Text} (h : ∀ c ∈ x, isBlank c) (t : Text) :
    onePass (x ++ t) = x ++ onePass t := by
  refine Escapes.onePass_append (fun hmem => ?_) t
  exact absurd (h _ hmem) (by decide)

/-- **An item restated** is the item of the script. -/
theorem Item.onePass_append (item : Item .mysql) (t : Text) :
    onePass (item.text ++ t) = item.script.text ++ onePass t := by
  rw [Item.text, List.append_assoc, onePass_blank item.lead_blank, List.append_assoc,
    item.isLiteral.onePass_append, onePass_blank item.trail_blank]
  simp only [Item.text, Item.script, List.append_assoc]

/-- **Restating the escapes** makes an enumeration that of the script. -/
theorem onePass_text (e : Enumeration .mysql) (t : Text) :
    onePass (e.text ++ t) = e.script.text ++ onePass t := by
  have hothers : ∀ others : List (Item .mysql),
      onePass (others.flatMap (fun item => ',' :: item.text) ++ ')' :: t) =
        (others.map Item.script).flatMap (fun item => ',' :: item.text) ++ ')' :: onePass t := by
    intro others
    induction others with
    | nil => exact Escapes.onePass_cons (by decide) t
    | cons item others ih =>
      rw [List.flatMap_cons, List.cons_append, List.cons_append, Escapes.onePass_cons (by decide),
        List.append_assoc, item.onePass_append, ih]
      simp
  have hword : '\\' ∉ e.word := by
    intro hmem
    exact absurd ((isWord_of_spells isKeyword_enum e.spelled).2 _ hmem) (by decide)
  have hsplit : e.text ++ t = e.word ++ (e.gap ++ '(' ::
      (e.first.text ++ (e.others.flatMap (fun item => ',' :: item.text) ++ ')' :: t))) := by
    simp [text, head, inside]
  rw [hsplit, Escapes.onePass_append hword, onePass_blank e.gap_blank,
    Escapes.onePass_cons (by decide), e.first.onePass_append, hothers e.others]
  simp [text, head, inside, script]

end Enumeration
end DumpBridge
