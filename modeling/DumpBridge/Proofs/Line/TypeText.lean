import DumpBridge.ColumnType
import DumpBridge.Proofs.Text.Passing

/-!
# Texts that begin with a type

The word of a type is none of the words that begin the clauses of a column or a
key, nor does it begin like one (`not_fits_clauseWord`).  Changing types keeps
this: a text that begins with a type still does when every type in it has been
changed (`beginsType_mapTypes`, `beginsType_setsToText`).
-/

namespace DumpBridge.ColumnType

open Text (Pattern Cursor isBlank isNameStart isWord)
open Text.Pattern
open Literal (Piece callOpener pieces piecesFrom pushPlain closing?)

/-- The words with which types begin, in either dialect. -/
def typeWords : List String := [
  "TINYINT", "SMALLINT", "MEDIUMINT", "MIDDLEINT", "INT", "INTEGER", "BIGINT", "SERIAL",
  "INT1", "INT2", "INT3", "INT4", "INT8", "DECIMAL", "DEC", "NUMERIC", "FIXED", "FLOAT", "FLOAT4",
  "FLOAT8", "DOUBLE", "REAL", "BIT", "BOOL", "BOOLEAN",
  "DATE", "DATETIME", "TIME", "TIMESTAMP", "YEAR",
  "CHAR", "CHARACTER", "NCHAR", "NATIONAL", "VARCHAR", "VARCHARACTER", "NVARCHAR", "LONG",
  "BINARY", "VARBINARY", "TINYBLOB", "BLOB", "MEDIUMBLOB", "LONGBLOB", "BYTEA",
  "TINYTEXT", "TEXT", "MEDIUMTEXT", "LONGTEXT", "ENUM", "SET", "JSON", "UUID", "INET", "INET4",
  "INET6",
  "GEOMETRY", "GEOMETRYCOLLECTION", "GEOMCOLLECTION", "POINT", "MULTIPOINT", "LINESTRING",
  "MULTILINESTRING", "POLYGON", "MULTIPOLYGON", "VECTOR"]

/-- Words of clauses that no type begins like. -/
def clauseWords : List String := [
  "TABLE", "TABLES", "SQL_MODE", "FOREIGN_KEY_CHECKS", "UNIQUE_CHECKS", "AUTOCOMMIT", "NAMES",
  "COLLATION_CONNECTION", "SQL_NOTES", "COMMENT", "COLLATE", "DEFAULT", "NULL", "NOT",
  "ON", "UPDATE", "CURRENT_TIMESTAMP", "AUTO_INCREMENT", "USING", "BTREE", "HASH", "PRIMARY",
  "UNIQUE", "KEY", "INDEX"]

/-- Whether a text begins with the word of a type. -/
def beginsType (u : Text) : Bool :=
  typeWords.any fun w => spells w.toList (u.take w.toList.length)

variable {u v : Text} {p : Pattern} {before : Option Char}

/-- A text begins with a type just if one of the words for types is spelled there. -/
theorem beginsType_iff : beginsType u ↔
    ∃ w ∈ typeWords, ∃ t v, u = t ++ v ∧ spells w.toList t := by
  rw [beginsType, List.any_eq_true]
  constructor
  · rintro ⟨w, hw, hspells⟩
    exact ⟨w, hw, _, _, (List.take_append_drop _ u).symm, hspells⟩
  · rintro ⟨w, hw, t, v, rfl, hspells⟩
    refine ⟨w, hw, ?_⟩
    rwa [← length_eq_of_spells hspells, List.take_left]

theorem isKeyword_typeWord {w : String} (hw : w ∈ typeWords) : isKeyword w.toList := by
  have hall : ∀ w ∈ typeWords, isKeyword w.toList := by decide
  exact hall w hw

theorem beginsType_append (hu : beginsType u) : beginsType (u ++ v) := by
  obtain ⟨w, hw, t, r, rfl, hspells⟩ := beginsType_iff.mp hu
  exact beginsType_iff.mpr ⟨w, hw, t, r ++ v, by simp, hspells⟩

/-- The word of the type, with its first letter. -/
theorem exists_typeWord (hu : beginsType u) : ∃ c t v, u = c :: (t ++ v) ∧
    isWord c ∧ (∀ d ∈ t, isWord d) ∧ ∀ r, beginsType (c :: (t ++ r)) := by
  obtain ⟨w, hw, t, v, rfl, hspells⟩ := beginsType_iff.mp hu
  obtain ⟨hne, hword⟩ := isWord_of_spells (isKeyword_typeWord hw) hspells
  obtain ⟨c, t, rfl⟩ := List.exists_cons_of_ne_nil hne
  obtain ⟨hc, hword⟩ := List.forall_mem_cons.mp hword
  exact ⟨c, t, v, rfl, hc, hword, fun r => beginsType_iff.mpr ⟨w, hw, c :: t, r, rfl, hspells⟩⟩

/-- A type begins with a character of words. -/
theorem head?_of_beginsType (hu : beginsType u) : u.head?.any isWord := by
  obtain ⟨c, t, v, rfl, hc, -⟩ := exists_typeWord hu
  simpa using hc

theorem isBlank_of_beginsType (hu : beginsType u) : u.head?.any isBlank = false := by
  obtain ⟨c, t, v, rfl, hc, -⟩ := exists_typeWord hu
  simpa using Text.isBlank_eq_false_of_isWord hc

/-- The words for clauses are keywords. -/
theorem isKeyword_clauseWord {k : String} (hk : k ∈ clauseWords) :
    isKeyword k.toList := by
  have hall : ∀ k ∈ clauseWords, isKeyword k.toList := by decide
  exact hall k hk

/-- **No type begins like a clause.** -/
theorem not_fits_clauseWord (hu : beginsType u) {k : String} (hk : k ∈ clauseWords)
    {a : Pattern} : ¬ (letters k.toList ++ a).Fits before u := by
  have hapart : ∀ w ∈ typeWords, ∀ k ∈ clauseWords, apart w.toList k.toList := by
    decide +kernel
  obtain ⟨w, hw, t, v, rfl, hspells⟩ := beginsType_iff.mp hu
  have hclause := isKeyword_clauseWord hk
  refine not_fits_of_diverges (not_mem_of_isKeyword hclause) ?_
  exact diverges_of_spells (isKeyword_typeWord hw) hclause hspells (hapart w hw k hk)

/-- A phrase that begins with a word of a clause. -/
theorem not_fits_clausePhrase (hu : beginsType u) {k : String} (hk : k ∈ clauseWords)
    {a : Pattern} {v : Text} : ¬ (letters (k.toList ++ ' ' :: v) ++ a).Fits before u := by
  rw [fits_phrase_split (not_mem_of_isKeyword (isKeyword_clauseWord hk))]
  exact not_fits_clauseWord hu hk

/-- A mark does not begin a type. -/
theorem not_fits_char (hu : beginsType u) {c : Char} {a : Pattern}
    (hfirst : a.first = char c) (hc : isWord c = false) : ¬ a.Fits before u := by
  intro hfits
  have hhead := head?_of_beginsType hu
  rw [head?_of_fits_char hfirst hfits] at hhead
  simp [hc] at hhead

/-! ## Changing types -/

/-- Replacements that keep inside of words, and put a type where they change a
word, keep the type in front. -/
theorem beginsType_replaceFrom {new : Cursor → Text}
    (hinside : ∀ before t, before.any isWord → t.head?.any isWord → ¬ p.Fits before t)
    (hnew : p.Fits before u → ∀ found, beginsType (new found))
    (hu : beginsType u) : beginsType (p.replaceFrom new before 0 u) := by
  obtain ⟨c, t, v, rfl, hc, hword, hkept⟩ := exists_typeWord hu
  have hpass : p.Passes (some c) t v := passes_inside hinside (by simpa using hc) hword
  rw [replaceFrom]
  split
  · next found hfound =>
    split
    · rw [replaceFrom_of_passes hpass]
      exact hkept _
    · have hfits : p.Fits before (c :: (t ++ v)) := matchAfter_isSome_iff.mp (by simp [hfound])
      exact beginsType_append (hnew hfits found)
  · rw [replaceFrom_of_passes hpass]
    exact hkept _

/-- A pattern that leads to something else keeps the type in front. -/
theorem beginsType_of_leadsTo {new : Cursor → Text} {site : Text → Prop} (h : p.LeadsTo site)
    (hsite : ¬ site u) (hu : beginsType u) :
    beginsType (p.replaceFrom new before 0 u) := by
  refine beginsType_replaceFrom (fun _ _ => h.not_fits_inside) (fun hfits => ?_) hu
  exact absurd (h.start_of_word hfits (head?_of_beginsType hu)).2 hsite

/-- A change that is made where a word starts or ends and puts a type there, or
that is made at a blank. -/
def Change.Apt (change : Change) : Prop :=
  (change.source.first = edge ∧ ∀ found, beginsType (change.target found)) ∨
    change.source.first = one isBlank

theorem Change.Apt.into {target : String} {source : Pattern} (hsource : source.first = edge)
    (htarget : beginsType target.toList) : (Change.into target source).Apt :=
  Or.inl ⟨hsource, fun _ => htarget⟩

/-- **All changes are apt.** -/
theorem apt_of_mem_changes : ∀ change ∈ changes, change.Apt := by
  simp only [changes, List.forall_mem_cons, List.not_mem_nil, false_imp_iff, implies_true, and_true]
  have hsmall : beginsType "SMALLINT".toList := by decide
  have hinteger : beginsType "INTEGER".toList := by decide
  have hbig : beginsType "BIGINT".toList := by decide
  have hbytes : beginsType "BYTEA".toList := by decide
  have htime : beginsType "TIMESTAMPTZ".toList := by decide
  -- The last two take a modifier with the blanks before it.
  exact ⟨.into rfl (by decide), .into rfl hsmall, .into rfl hsmall, .into rfl hinteger,
    .into rfl hsmall, .into rfl hinteger, .into rfl hbig, .into rfl hinteger, .into rfl hbig,
    .into rfl (by decide), .into rfl (by decide),
    Or.inl ⟨rfl, fun _ => beginsType_append (beginsType_append htime)⟩,
    .into rfl htime, .into rfl (by decide), .into rfl hbytes, .into rfl hbytes, .into rfl hbytes,
    .into rfl (by decide), Or.inr rfl, Or.inr rfl⟩

/-- **An apt change** leaves a type where one was. -/
theorem beginsType_apply {change : Change} (hapt : change.Apt) (hu : beginsType u) :
    beginsType (change.apply u) := by
  rcases hapt with ⟨hedge, htarget⟩ | hblank
  · refine beginsType_replaceFrom (fun before t hbefore ht hfits => ?_)
      (fun _ => htarget) hu
    have hdiffer := fits_first hfits
    rw [hedge, fits_edge, hbefore, ht] at hdiffer
    exact hdiffer rfl
  · have hsolid : ∀ before t, t.head?.any isWord → ¬ change.source.Fits before t := by
      intro before t ht hfits
      have hgap := fits_first hfits
      rw [hblank, fits_one] at hgap
      cases t with
      | nil => simp at ht
      | cons c t =>
        have hc := Text.isBlank_eq_false_of_isWord (c := c) (by simpa using ht)
        simp [hc] at hgap
    exact beginsType_replaceFrom (fun before t _ ht => hsolid before t ht)
      (fun hfits => absurd hfits (hsolid _ _ (head?_of_beginsType hu))) hu

/-- So all changes do, one after the other. -/
theorem beginsType_mapTypes (hu : beginsType u) : beginsType (mapTypes u) := by
  have hfold : ∀ (cs : List Change) (u : Text), (∀ change ∈ cs, change.Apt) →
      beginsType u →
      beginsType (cs.foldl (fun code change => change.apply code) u) := by
    intro cs
    induction cs with
    | nil => exact fun u _ hu => hu
    | cons change cs ih =>
      intro u hcs hu
      obtain ⟨hchange, hcs⟩ := List.forall_mem_cons.mp hcs
      exact ih _ hcs (beginsType_apply hchange hu)
  exact hfold changes u apt_of_mem_changes hu

/-! ## Sets -/

/-- What becomes of a piece of a line in which sets are changed. -/
def setText : Piece → Text
  | .call head inside =>
    if allQuoted inside then "TEXT".toList else (Piece.call head inside).text
  | .plain t => t

/-- A line with its `SET` types changed, piece by piece. -/
theorem setsToText_eq (line : Text) :
    setsToText line = (piecesFrom .standard (callOpener "SET") none 0 line).flatMap setText := by
  rw [setsToText, pieces]
  congr 1
  funext piece
  cases piece <;> rfl

theorem flatMap_setText_pushPlain (c : Char) (ps : List Piece) :
    (pushPlain c ps).flatMap setText = c :: ps.flatMap setText := by
  rcases ps with _ | ⟨t | ⟨head, inside⟩, ps⟩ <;> rfl

/-- What is passed over is plain. -/
theorem flatMap_setText_of_passes {x t : Text} (h : p.Passes before x t) :
    (piecesFrom .standard p before 0 (x ++ t)).flatMap setText =
      x ++ (piecesFrom .standard p (x.getLast?.or before) 0 t).flatMap setText := by
  induction x generalizing before with
  | nil => simp
  | cons c x ih =>
    rw [List.cons_append, piecesFrom, matchAfter_eq_none_iff.mpr h.1]
    simp only
    rw [flatMap_setText_pushPlain, ih h.2, getLast?_cons_or]
    rfl

/-- A call that starts a text starts it with the word. -/
theorem beginsType_take_callOpener {found : Cursor}
    (hfound : (callOpener "SET").matchAfter before u = some found) :
    beginsType (u.take found.taken) := by
  have hmem : found ∈ (callOpener "SET").ends (.start before u) := List.mem_of_head? hfound
  obtain ⟨x, hreach, htakes⟩ := reaches_of_mem_ends _ hmem
  have hu : u = x ++ found.rest := hreach.rest
  have htaken : found.taken = x.length := by simpa [Cursor.start] using hreach.taken
  obtain ⟨_, paren, rfl, ⟨_, gap, rfl, ⟨_, word, rfl, ⟨rfl, -⟩, hword⟩, -⟩, -⟩ := htakes
  have hspells : spells "SET".toList word := (takes_letters (by decide)).mp hword
  rw [hu, htaken, List.take_left]
  exact beginsType_append (beginsType_append (beginsType_iff.mpr
    ⟨"SET", by decide, word, [], by simp, hspells⟩))

/-- What begins with a type does so after `SET` types are changed. -/
theorem beginsType_setsToText (hu : beginsType u) : beginsType (setsToText u) := by
  obtain ⟨c, t, v, rfl, hc, hword, hkept⟩ := exists_typeWord hu
  have hinside : ∀ before t, before.any isWord → t.head?.any isWord →
      ¬ (callOpener "SET").Fits before t := by
    intro before t hbefore ht hfits
    rw [callOpener, fits_append_assoc, fits_append_assoc, fits_edge_append] at hfits
    simp [hbefore, ht] at hfits
  rw [setsToText_eq, piecesFrom]
  split
  · rw [flatMap_setText_pushPlain,
      flatMap_setText_of_passes (passes_inside hinside (by simpa using hc) hword)]
    exact hkept _
  · next found hfound =>
    split
    · simpa [setText] using hu
    · rw [List.flatMap_cons, setText]
      split
      · exact beginsType_append (by decide)
      · exact beginsType_append (beginsType_append (beginsType_append
          (beginsType_take_callOpener hfound)))

end DumpBridge.ColumnType
