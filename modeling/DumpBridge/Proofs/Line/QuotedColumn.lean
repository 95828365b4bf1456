import DumpBridge.Rule
import DumpBridge.Proofs.Line.ColumnName
import DumpBridge.Proofs.Text.Replace

/-!
# Column definitions with quoted names

A column definition of a dump has its name in backticks.  Until the clauses of
character sets are gone, a rule might take the type itself for part of a clause:
`CHARACTER` begins two of them, and `SET` ends one.  `Lead` says which characters
after the type every rule leaves as they are: one is enough for most types, and
where the attributes are firm (`isFirm`) it is all up to a word or mark that keeps
the type out of such a clause (`exists_lead_of_isFirm`).
-/

namespace DumpBridge.Line

open Text (Pattern Cursor isBlank isNameStart isWord)
open Text.Pattern
open ColumnType (beginsType clauseWords typeWords)
open Literal (Quoting isQuote mapCode)

/-- A mark that ends a type or the definition of a column. -/
def isMark (c : Char) : Bool :=
  "(),;".toList.contains c

/-- The words of clauses that may follow a type, without which the type would stand
in front of the word after them, and the word that makes `CHARACTER` a clause. -/
def followers : List String := ["COMMENT", "COLLATE", "SET"]

theorem isKeyword_follower {w : String} (hw : w ∈ followers) : isKeyword w.toList := by
  have hall : ∀ w ∈ followers, isKeyword w.toList := by decide
  exact hall w hw

/-- Whether what follows a type is nothing, a mark, or another word than the
followers. -/
def isFirm (attributes : Text) : Bool :=
  let start := attributes.dropWhile isBlank
  start.isEmpty || start.head?.any isMark
    || followers.all fun w => diverges w.toList (start.takeWhile isWord)

/-- A column definition whose name is in backticks. -/
structure QuotedColumn extends ColumnName where
  type : Text
  /-- What follows the word of the type. -/
  attributes : Text
  type_known : ∃ w ∈ typeWords, spells w.toList type
  attributes_head : attributes.head?.all (fun c => isBlank c || isMark c)
  /-- A set has its members in parentheses. -/
  attributes_set : spells "SET".toList type →
    (attributes.dropWhile isBlank).head? = some '('

namespace QuotedColumn

variable (c : QuotedColumn) {s o more r v : Text} {a p : Pattern} {before : Option Char} {k : Text}

/-- The line that holds the definition. -/
def text : Text :=
  c.indent ++ '\x60' :: (c.name ++ '\x60' :: (c.space ++ (c.type ++ c.attributes)))

/-! ## The type -/

/-- The type of a column is a word. -/
theorem type_word : c.type ≠ [] ∧ ∀ d ∈ c.type, isWord d := by
  obtain ⟨w, hw, hspells⟩ := c.type_known
  exact isWord_of_spells (ColumnType.isKeyword_typeWord hw) hspells

theorem beginsType_type (v : Text) : beginsType (c.type ++ v) := by
  obtain ⟨w, hw, hspells⟩ := c.type_known
  exact ColumnType.beginsType_iff.mpr ⟨w, hw, c.type, v, rfl, hspells⟩

/-- A keyword at the type is the type. -/
theorem fits_type_iff (hk : isKeyword k) (ha : a.Stops) (hv : v.head?.any isWord = false) :
    (letters k ++ a).Fits before (c.type ++ v) ↔
      spells k c.type ∧ a.Fits c.type.getLast? v :=
  fits_keyword_append (fun _ => id) hk ha c.type_word.2 hv

/-- The type is called as no other keyword. -/
theorem spells_type_eq_false (hk : isKeyword k)
    (hne : ∀ w ∈ typeWords, w.toList.map Char.toLower ≠ k.map Char.toLower) :
    spells k c.type = false := by
  obtain ⟨w, hw, hspells⟩ := c.type_known
  exact spells_eq_false hspells (ColumnType.isKeyword_typeWord hw) hk (hne w hw)

/-! ## What follows the type -/

/-- `c.Lead s o more`: the attributes begin with the blanks `s` and the word or mark
`o`, which stay where they are. -/
structure Lead (s o more : Text) : Prop where
  attributes_eq : c.attributes = s ++ (o ++ more)
  blank : ∀ d ∈ s, isBlank d
  form : (∀ d ∈ o, isWord d) ∨ ∃ d, o = [d] ∧ isMark d
  start : s = [] → (o = [] → more = []) ∧ o.head?.any isWord = false
  free : o ≠ [] → ∀ w ∈ followers, ∀ a before r, ¬ (letters w.toList ++ a).Fits before (o ++ r)
  set : spells "SET".toList c.type → o = ['(']

theorem isWord_of_isMark {d : Char} (hd : isMark d) :
    isWord d = false ∧ isBlank d = false := by
  have hall : ∀ d ∈ "(),;".toList, isWord d = false ∧ isBlank d = false := by decide
  exact hall d (by simpa [isMark] using hd)

/-- A keyword does not fit before a mark. -/
theorem not_fits_mark {d : Char} (hd : isMark d) (hk : isKeyword k) :
    ¬ (letters k ++ a).Fits before (d :: r) := by
  intro hfits
  have hword := isWord_of_fits_keyword hk hfits
  simp [(isWord_of_isMark hd).1] at hword

/-- Where the attributes are firm, the blanks and the word or mark behind them
stay. -/
theorem exists_lead_of_isFirm (hfirm : isFirm c.attributes) :
    ∃ s o more, c.Lead s o more ∧ (o = [] → more = []) := by
  have hset := c.attributes_set
  have hhead := c.attributes_head
  have hblank : ∀ d ∈ c.attributes.takeWhile isBlank, isBlank d :=
    fun d hd => List.mem_takeWhile_imp hd
  have hsplit : c.attributes = c.attributes.takeWhile isBlank ++ c.attributes.dropWhile isBlank :=
    List.takeWhile_append_dropWhile.symm
  have hsolid := Text.head?_dropWhile_any isBlank c.attributes
  rw [isFirm] at hfirm
  generalize c.attributes.takeWhile isBlank = s at hblank hsplit
  generalize c.attributes.dropWhile isBlank = start at hfirm hset hsplit hsolid
  cases start with
  | nil =>
    exact ⟨s, [], [], ⟨hsplit, hblank, Or.inl (by simp), by simp, by simp,
      fun h => by simpa using hset h⟩, fun _ => rfl⟩
  | cons d rest =>
    by_cases hd : isMark d
    · exact ⟨s, [d], rest, ⟨hsplit, hblank, Or.inr ⟨d, rfl, hd⟩,
        by simp [(isWord_of_isMark hd).1],
        fun _ w hw a before r => not_fits_mark hd (isKeyword_follower hw),
        fun h => by simpa using hset h⟩, by simp⟩
    · have hdiverges : ∀ w ∈ followers, diverges w.toList ((d :: rest).takeWhile isWord) := by
        simpa [hd] using hfirm
      have hne : (d :: rest).takeWhile isWord ≠ [] := by
        intro hnil
        have hcomment := hdiverges "COMMENT" (by decide)
        simp [hnil, diverges] at hcomment
      refine ⟨s, (d :: rest).takeWhile isWord, (d :: rest).dropWhile isWord, ⟨?_, hblank,
        Or.inl fun e he => List.mem_takeWhile_imp he, ?_, fun _ w hw a before r =>
        not_fits_of_diverges (not_mem_of_isKeyword (isKeyword_follower hw)) (hdiverges w hw),
        ?_⟩, fun hnil => absurd hnil hne⟩
      · rw [List.takeWhile_append_dropWhile]
        exact hsplit
      · rintro rfl
        rw [hsplit] at hhead
        have hd' : isBlank d := by simpa [hd] using hhead
        simp [hd'] at hsolid
      · intro h
        obtain rfl : d = '(' := by simpa using hset h
        exact absurd (by decide) hd

/-- After the type `SET` all up to the parenthesis stays, and after another type one
character is enough. -/
theorem exists_lead : ∃ s o more, c.Lead s o more := by
  by_cases hset : spells "SET".toList c.type
  · have hmark : isMark '(' := by decide
    have hfirm : isFirm c.attributes := by simp [isFirm, c.attributes_set hset, hmark]
    obtain ⟨s, o, more, h, -⟩ := c.exists_lead_of_isFirm hfirm
    exact ⟨s, o, more, h⟩
  · have hhead := c.attributes_head
    cases hattributes : c.attributes with
    | nil =>
      exact ⟨[], [], [], hattributes, by simp, Or.inl (by simp), by simp, by simp,
        fun h => absurd h hset⟩
    | cons d more =>
      have hd : isBlank d ∨ isMark d := by simpa [hattributes] using hhead
      rcases hd with hd | hd
      · exact ⟨[d], [], more, hattributes, by simpa using hd, Or.inl (by simp), by simp, by simp,
          fun h => absurd h hset⟩
      · exact ⟨[], [d], more, hattributes, by simp, Or.inr ⟨d, rfl, hd⟩,
          by simp [(isWord_of_isMark hd).1],
          fun _ w hw a before r => not_fits_mark hd (isKeyword_follower hw),
          fun h => absurd h hset⟩

namespace Lead

variable {c}

/-- No word follows the type at once. -/
theorem head (h : c.Lead s o more) (hr : more = [] → r = []) :
    (s ++ (o ++ r)).head?.any isWord = false := by
  cases s with
  | cons d s => simpa using Text.isWord_eq_false_of_isBlank (h.blank d (by simp))
  | nil =>
    obtain ⟨hnil, hhead⟩ := h.start rfl
    cases o with
    | nil => simp [hr (hnil rfl)]
    | cons d o => simpa using hhead

/-- What follows the blanks begins with none of the followers. -/
theorem not_fits (h : c.Lead s o more) (hfirm : o = [] → more = []) (hr : more = [] → r = [])
    {w : String} (hw : w ∈ followers) : ¬ (letters w.toList ++ a).Fits before (o ++ r) := by
  by_cases ho : o = []
  · subst ho
    obtain rfl := hr (hfirm rfl)
    intro hfits
    have hword := isWord_of_fits_keyword (isKeyword_follower hw) hfits
    simp at hword
  · exact h.free ho w hw a before r

/-- What follows the blanks is solid. -/
theorem head_solid (h : c.Lead s o more) (hfirm : o = [] → more = [])
    (hr : more = [] → r = []) : (o ++ r).head?.any isBlank = false := by
  cases ho : o with
  | nil =>
    obtain rfl := hr (hfirm ho)
    rfl
  | cons d t =>
    rcases h.form with hword | ⟨e, he, hmark⟩
    · simpa using Text.isBlank_eq_false_of_isWord (hword d (by simp [ho]))
    · obtain ⟨rfl, -⟩ := List.cons.inj (ho.symm.trans he)
      simpa using (isWord_of_isMark hmark).2

end Lead

end QuotedColumn
end DumpBridge.Line
