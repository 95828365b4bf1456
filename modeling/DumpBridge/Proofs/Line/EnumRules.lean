import DumpBridge.Line.Keys
import DumpBridge.Proofs.Enum.Sets
import DumpBridge.Proofs.ZeroDates

/-!
# What each rule leaves of the enumerations

For each rule on the script's side there is a lemma that the enumerations of a line
stay in their places, under the conditions on which the rule can harm them.  Rules
that look at code only are steady, unless their pattern takes any word.  The others
see literals too, so that a literal of an enumeration must not hold what they look for.
Types and keys are changed behind or in the front of a line, where no enumeration may
open (`placed_of_front`).
-/

namespace DumpBridge

open Text (Pattern Cursor isBlank isWord blankChars mem_blankChars)
open Text.Pattern
open Literal
open Enumeration
open ZeroDates (ZeroDate)

namespace Line

variable {es : List (Enumeration .standard)} {t y rest : Text} {before : Option Char}

/-! ## Code only -/

/-- Taking away what keeps a time stamp up to date reaches into no enumeration. -/
theorem placed_stripOnUpdate (h : Placed ScriptGap es t) : Placed ScriptGap es (stripOnUpdate t) :=
  (steady_erase (by decide)).placed h

/-- Neither does writing the current time as a name. -/
theorem placed_currentTimestampCalls (h : Placed ScriptGap es t) :
    Placed ScriptGap es (currentTimestampCalls t) :=
  (steady_replaceWith (by decide) (plain_const (by decide))).placed h

/-- Neither does taking automatic numbering away. -/
theorem placed_stripAutoIncrement (h : Placed ScriptGap es t) :
    Placed ScriptGap es (stripAutoIncrement t) :=
  ((steady_erase (by decide)).comp (steady_erase (by decide))).placed h

theorem placed_stripIndexMethods (h : Placed ScriptGap es t) :
    Placed ScriptGap es (stripIndexMethods t) :=
  (steady_erase (by decide)).placed h

/-- A collation reaches into an enumeration only if it takes the word for it as its name. -/
theorem placed_stripCollation (h : Placed ScriptGap es t)
    (hspared : (collationWord ++ EnumType.opener).occurs t = false) :
    Placed ScriptGap es (stripCollation t) :=
  placed_of_spared (by decide +kernel) (by decide +kernel) (plain_const (by simp)) h hspared

theorem placed_stripCharset (h : Placed ScriptGap es t)
    (hspared : (charsetWord ++ EnumType.opener).occurs t = false) :
    Placed ScriptGap es (stripCharset t) :=
  placed_of_spared (by decide +kernel) (by decide +kernel) (plain_const (by simp)) h hspared

/-- What takes the place of a type has no quote mark. -/
theorem plain_target {change : ColumnType.Change} (hchange : change ∈ ColumnType.changes) :
    Plain change.source change.target := by
  have hcongr : ∀ change ∈ ColumnType.changes, ∀ c d : Cursor, c.captures = d.captures →
      change.target c = change.target d := by
    have hcaptured : ∀ c d : Cursor, c.captures = d.captures → c.captured 1 = d.captured 1 := by
      intro c d h
      rw [Cursor.captured, Cursor.captured, Cursor.capture?, Cursor.capture?, h]
    simp only [ColumnType.changes, ColumnType.Change.into, List.forall_mem_cons, List.not_mem_nil,
      false_imp_iff, implies_true, and_true, true_and]
    intro c d h
    rw [hcaptured c d h]
  have hsingle : ∀ change ∈ ColumnType.changes, ∀ found : Cursor,
      '\'' ∉ found.captured 1 → '\'' ∉ change.target found := by
    simp [ColumnType.changes, ColumnType.Change.into]
  have hdouble : ∀ change ∈ ColumnType.changes, ∀ found : Cursor,
      '"' ∉ found.captured 1 → '"' ∉ change.target found := by
    simp [ColumnType.changes, ColumnType.Change.into]
  refine ⟨hcongr change hchange, fun before t stop hstop m hm ht => ?_⟩
  have hcaptured : m ∉ stop.captured 1 :=
    fun hmem => ht ((captured_infix_text hstop 1).subset hmem)
  rw [isQuote, Bool.or_eq_true, decide_eq_true_eq, decide_eq_true_eq] at hm
  rcases hm with rfl | rfl
  · exact hsingle change hchange stop hcaptured
  · exact hdouble change hchange stop hcaptured

/-- **The changes of types** keep enumerations. -/
theorem steady_mapTypes : Steady ColumnType.mapTypes := by
  have hapart : ∀ change ∈ ColumnType.changes, change.source.isApart := by decide +kernel
  have hfold : ∀ changes : List ColumnType.Change,
      (∀ change ∈ changes, change ∈ ColumnType.changes) →
      Steady fun code => changes.foldl (fun code change => change.apply code) code := by
    intro changes
    induction changes with
    | nil => exact fun _ => steady_id
    | cons change changes ih =>
      intro hchanges
      obtain ⟨hchange, hchanges⟩ := List.forall_mem_cons.mp hchanges
      exact (steady_replaceWith (hapart change hchange) (plain_target hchange)).comp (ih hchanges)
  exact hfold ColumnType.changes fun _ h => h

/-! ## Behind the front of a line -/

/-- Whether no enumeration opens in the first characters of a line. -/
def opensBehind (n : Nat) (line : Text) : Bool :=
  decide (EnumType.openings line ≤ EnumType.openingsFrom (line.take n).getLast? (line.drop n))

/-- If no enumeration opens in the first characters of a line, the search for one passes over
them. -/
theorem passes_of_opensBehind {n : Nat} (h : opensBehind n t) :
    EnumType.opener.Passes none (t.take n) (t.drop n) := by
  refine EnumType.passes_of_openingsFrom_le ?_
  rw [List.take_append_drop, Option.or_none]
  exact of_decide_eq_true h

/-- **Behind a front** in which no enumeration starts, the first of them has its own gap. -/
theorem exists_behind {front : Text} (h : Placed ScriptGap es (front ++ rest))
    (hshut : front.foldl markStep none = none) (hpasses : EnumType.opener.Passes none front rest) :
    es = [] ∨ ∃ e others x t, es = e :: others ∧ rest = x ++ (e.text ++ t) ∧ ScriptGap x ∧
      (front ++ x).getLast?.all isBlank ∧ Placed ScriptGap others t := by
  generalize hline : front ++ rest = line at h
  cases h with
  | rest => exact Or.inl rfl
  | @cons others x t hx e hothers =>
    obtain ⟨x, rfl, rfl⟩ : ∃ x', x = front ++ x' ∧ rest = x' ++ (e.text ++ t) := by
      rcases List.append_eq_append_iff.mp hline with hfront | ⟨w, rfl, htext⟩
      · exact hfront
      · cases w with
        | nil => exact ⟨[], by simp, by simpa using htext.symm⟩
        | cons c w =>
          have hbefore : (x.getLast?.or none).any isWord = false :=
            any_getLast?_of_blank hx.blank rfl
          have hfits := e.fits_text hbefore t
          rw [htext] at hfits
          exact absurd hfits (passes_append.mp hpasses).2.1
    have hgap : ScriptGap x := by
      refine ⟨?_, ?_⟩
      · have hwhole := hx.shut
        rwa [List.foldl_append, hshut] at hwhole
      · have hwhole := hx.blank
        cases hlast : x.getLast? with
        | none => rfl
        | some d => simpa [hlast] using hwhole
    exact Or.inr ⟨e, others, x, t, rfl, rfl, hgap, hx.blank, hothers⟩

/-- **Another front** keeps the enumerations behind it, if neither leaves a literal open and
none of them stands right behind the old one. -/
theorem placed_of_front {front front' : Text} (h : Placed ScriptGap es (front ++ rest))
    (hpasses : EnumType.opener.Passes none front rest) (hshut : front.foldl markStep none = none)
    (hend : front.getLast?.all isBlank = false) (hshut' : front'.foldl markStep none = none) :
    Placed ScriptGap es (front' ++ rest) := by
  rcases exists_behind h hshut hpasses with rfl | ⟨e, others, x, t, rfl, rfl, hx, hblank, hothers⟩
  · exact .rest _
  · have hne : x ≠ [] := by
      rintro rfl
      rw [List.append_nil, hend] at hblank
      exact Bool.noConfusion hblank
    rw [← List.append_assoc]
    refine .cons ⟨?_, ?_⟩ e hothers
    · rw [List.foldl_append, hshut', hx.shut]
    · rw [getLast?_suffix hne]
      exact hx.blank

/-! ## Types -/

/-- The length of the name that a line starts with, if it is no type. -/
def nameLength (line : Text) : Nat :=
  match protectedName.matchStart line with
  | some found => found.taken
  | none => 0

/-- Changing types, with the length of the protected name given a name. -/
theorem mapTypes_eq (line : Text) :
    mapTypes line = if isKeyClause line || addKeyClause.starts line then line
      else line.take (nameLength line) ++ ColumnType.setsToText
          (mapCode .standard ColumnType.mapTypes (line.drop (nameLength line))) := by
  unfold mapTypes nameLength
  rfl

/-- Whether the types of a line are changed beside its enumerations: the name that the line
starts with opens no literal and no enumeration, and the sets behind it are apart. -/
def typesApart (line : Text) : Bool :=
  let name := line.take (nameLength line)
  let rest := line.drop (nameLength line)
  isKeyClause line || addKeyClause.starts line ||
    (name.foldl markStep none).isNone && opensBehind (nameLength line) line &&
      setsApart none (setPieces none (mapCode .standard ColumnType.mapTypes rest))

/-- **Behind a name** in which no enumeration starts, types and sets are changed in the gaps. -/
theorem placed_behind_name {name : Text} (h : Placed ScriptGap es (name ++ rest))
    (hshut : name.foldl markStep none = none) (hpasses : EnumType.opener.Passes none name rest)
    (hsets : setsApart none (setPieces none (mapCode .standard ColumnType.mapTypes rest))) :
    Placed ScriptGap es
      (name ++ ColumnType.setsToText (mapCode .standard ColumnType.mapTypes rest)) := by
  rcases exists_behind h hshut hpasses with rfl | ⟨e, es, x, t, rfl, rfl, hx, hblank, others⟩
  · exact .rest _
  · obtain ⟨z, hz, hlast, hmap⟩ :=
      steady_mapTypes.carried hx e (fun _ c _ _ => steady_mapTypes.front e c) t
    rw [hmap] at hsets
    obtain ⟨z', r, hshut', hlast', hr, htext⟩ :=
      e.exists_flatMap_gap (steady_mapTypes.placed others)
      (fun _ => placed_setPieces (steady_mapTypes.placed others)) hz.shut hz.blank hsets
    rw [hmap, setsToText_eq_setPieces, htext, ← List.append_assoc]
    refine .cons ⟨?_, ?_⟩ e hr
    · rw [List.foldl_append, hshut, hshut']
    · rw [List.getLast?_append, hlast', hlast, ← List.getLast?_append]
      exact hblank

/-- **Changing types** keeps enumerations in their places, if the types are apart from them. -/
theorem placed_mapTypes (h : Placed ScriptGap es t) (hapart : typesApart t) :
    Placed ScriptGap es (mapTypes t) := by
  rw [mapTypes_eq]
  split
  · exact h
  · next hkey =>
    rw [typesApart, Bool.or_eq_true, Bool.and_eq_true, Bool.and_eq_true] at hapart
    obtain ⟨⟨hshut, hopens⟩, hsets⟩ := hapart.resolve_left hkey
    have hname : t.take (nameLength t) ++ t.drop (nameLength t) = t := List.take_append_drop _ t
    exact placed_behind_name (by rwa [hname]) (by simpa using hshut)
      (passes_of_opensBehind hopens) hsets

/-! ## Zero dates -/

/-- Replacing a text keeps the enumerations that do not have it, if it steers the scan alike. -/
theorem placed_replace {old : Text} (new : Text) (h : Placed ScriptGap es t) (hold : old ≠ [])
    (hmarks : ∀ s, new.foldl markStep s = old.foldl markStep s)
    (hlast : old.getLast?.any isBlank = false) (hword : 'e' ∉ old ∧ 'E' ∉ old ∧ ')' ∉ old)
    (hnone : ∀ e ∈ es, ¬ old <:+: e.text) : Placed ScriptGap es (Text.replace old new t) := by
  refine h.carried (C := fun _ => True) (fun x hx e he t _ => ⟨trivial, ?_⟩) trivial
  have hend : (Text.replace old new x).getLast? = x.getLast? := by
    refine Text.getLast?_replace hold _ fun hsame => ?_
    have hblank := hx.blank
    rw [hsame] at hblank
    rw [List.getLast?_eq_some_getLast hold] at hblank hlast
    simp only [Option.all_some, Option.any_some] at hblank hlast
    simp [hblank] at hlast
  refine ⟨Text.replace old new x, ⟨?_, by rw [hend]; exact hx.blank⟩, hend, ?_⟩
  · rw [Text.foldl_replace hold hmarks]
    exact hx.shut
  · obtain ⟨c, u, htext, hc⟩ := e.exists_text
    have hc' : c ∉ old := by
      simp only [List.mem_cons, List.not_mem_nil, or_false] at hc
      rcases hc with rfl | rfl
      · exact hword.1
      · exact hword.2.1
    have hinner : ¬ old <:+: u := by
      intro hinside
      refine hnone e he (hinside.trans ⟨[c], [')'], ?_⟩)
      rw [htext]
      rfl
    have hsplit : x ++ (e.text ++ t) = x ++ c :: (u ++ ')' :: t) := by
      rw [htext]
      simp
    rw [hsplit, Text.replace_append_cons hold hc', Text.replace_append_cons hold hword.2.2,
      Text.replace_of_not_infix hinner, htext]
    simp

/-- The marks of a zero date cancel out. -/
theorem foldl_markStep_zeroDate (z : ZeroDate) (s : Option Char) :
    "NULL".toList.foldl markStep s = z.literal.foldl markStep s := by
  rw [foldl_markStep_code (by decide)]
  cases z with
  | date => exact (foldl_markStep_quoted (t := "0000-00-00".toList) (by decide) (by decide) s).symm
  | dateTime =>
    exact (foldl_markStep_quoted (t := "0000-00-00 00:00:00".toList) (by decide) (by decide)
      s).symm

/-- **Zero dates** outside enumerations leave these in their places. -/
theorem placed_nullZeroDates (h : Placed ScriptGap es t)
    (hnone : ∀ e ∈ es, ∀ z : ZeroDate, ¬ z.literal <:+: e.text) :
    Placed ScriptGap es (nullZeroDates t) := by
  have hdateTime : Placed ScriptGap es (Text.replace ZeroDate.dateTime.literal "NULL".toList t) :=
    placed_replace _ h (by decide) (foldl_markStep_zeroDate _) (by decide) (by decide)
      fun e he => hnone e he .dateTime
  exact placed_replace _ hdateTime (by decide) (foldl_markStep_zeroDate .date) (by decide)
    (by decide)
    fun e he => hnone e he .date

/-! ## The time zone and truth values -/

/-- The two quote marks. -/
def quoteMarks : List Char := ['\'', '"']

theorem isQuote_of_not_mem {c : Char} (h : c ∉ quoteMarks) : isQuote c = false := by
  simpa [isQuote, quoteMarks] using h

/-- A pattern that takes no quote mark takes code only. -/
theorem isQuote_of_uses {p : Pattern} (hp : p.uses quoteMarks = false) (h : p.Takes before y rest) :
    ∀ c ∈ y, isQuote c = false :=
  fun c hc => isQuote_of_not_mem ((within_of_uses hp).of_takes h c hc)

/-- The statement for the time zone, outside them, does so too. -/
theorem placed_renameTimeZone (h : Placed ScriptGap es t)
    (hnone : ∀ e ∈ es, timeZone.occurs e.text = false) :
    Placed ScriptGap es (renameTimeZone t) := by
  refine placed_of_not_occurs (p := timeZone) (by decide) (by decide) (fun _ _ _ => rfl) ?_
    h hnone
  intro before t stop y _ _ hy s
  rw [foldl_markStep_code (by decide), foldl_markStep_code (isQuote_of_uses (by decide) hy)]

/-- A digit in quote marks or without, as a default of a truth value. -/
theorem foldl_markStep_booleanDefault (h : booleanDefault.Takes before y rest) (s : Option Char) :
    y.foldl markStep s = s := by
  obtain ⟨y₁, y₂, rfl, h₁, h₂⟩ := takes_append.mp h
  rw [List.foldl_append, foldl_markStep_code (isQuote_of_uses (by decide) h₁)]
  obtain ⟨p, hp, h₂⟩ := takes_anyOf.mp h₂
  have hquoted : ∀ m, isQuote m →
      (char m ++ capture 2 (one fun c => c = '0' || c = '1') ++ char m).Takes
      (y₁.getLast?.or before) y₂ rest → y₂.foldl markStep s = s := by
    intro m hm h
    obtain ⟨z, w, rfl, hz, hw⟩ := takes_append.mp h
    obtain ⟨z, w', rfl, hz, hd⟩ := takes_append.mp hz
    obtain rfl := takes_char.mp hz
    obtain rfl := takes_char.mp hw
    refine foldl_markStep_quoted hm (isQuote_of_uses (by decide) hd) s
  simp only [List.mem_cons, List.not_mem_nil, or_false] at hp
  rcases hp with rfl | rfl | rfl
  · exact hquoted '\'' (by decide) h₂
  · exact hquoted '"' (by decide) h₂
  · exact foldl_markStep_code (isQuote_of_uses (by decide) h₂) s

/-- What stands between a truth value and its default is code. -/
theorem isQuote_captured {stop : Cursor} (h : booleanDefault.matchAfter before t = some stop) :
    ∀ c ∈ stop.captured 1, isQuote c = false := by
  have hsets : booleanDefault.Sets t fun k => k.slot = 1 → ∀ c ∈ k.text, isQuote c = false := by
    refine ⟨⟨⟨sets_of_isPlain (by rfl), ⟨⟨sets_of_isPlain (by rfl), ?_⟩, trivial⟩⟩,
      sets_of_isPlain (by rfl)⟩, ?_⟩
    · intro before y rest _ hy _
      rw [Text.Capture.text, List.take_left]
      exact isQuote_of_uses (by decide) hy
    · have hdigit : (capture 2 (one fun c => c = '0' || c = '1')).Sets t fun k =>
          k.slot = 1 → ∀ c ∈ k.text, isQuote c = false :=
        ⟨trivial, fun _ _ _ _ _ hslot => absurd hslot (by simp)⟩
      exact ⟨⟨⟨trivial, hdigit⟩, trivial⟩, ⟨⟨trivial, hdigit⟩, trivial⟩, ⟨hdigit, trivial⟩⟩
  exact Sets.captured (P := fun y => ∀ c ∈ y, isQuote c = false) hsets h (by simp)

/-- **Defaults of truth values** outside enumerations leave these in their places. -/
theorem placed_booleanDefaults (h : Placed ScriptGap es t)
    (hnone : ∀ e ∈ es, booleanDefault.occurs e.text = false) :
    Placed ScriptGap es (booleanDefaults t) := by
  refine placed_of_not_occurs (by decide) (by decide) ?_ ?_ h hnone
  · intro c d hcd
    have hcaptured : ∀ slot, c.captured slot = d.captured slot := by
      intro slot
      rw [Cursor.captured, Cursor.captured, Cursor.capture?, Cursor.capture?, hcd]
    rw [hcaptured 1, hcaptured 2]
  · intro before t stop y hstop _ hy s
    have hcode : ∀ c ∈ "BOOLEAN".toList ++ stop.captured 1 ++ " DEFAULT ".toList ++
        (if stop.captured 2 = ['1'] then "true".toList else "false".toList), isQuote c = false := by
      refine List.forall_mem_append.mpr ⟨List.forall_mem_append.mpr ⟨List.forall_mem_append.mpr
        ⟨by decide, isQuote_captured hstop⟩, by decide⟩, ?_⟩
      split
      · decide
      · decide
    rw [foldl_markStep_booleanDefault hy, foldl_markStep_code hcode]

/-! ## Keys -/

/-- Whether the name of a unique key is dropped before the enumerations of a line. -/
def keyNameApart (line : Text) : Bool :=
  (uniqueKey.matchStart line).all fun found => opensBehind found.taken line

/-- Whether the columns of a key stand before the enumerations of a line. -/
def keyColumnsApart (line : Text) : Bool :=
  (keyList.matchStart line).all fun found =>
    (closing? .standard (line.drop (found.taken - 1))).all fun n =>
      opensBehind (found.taken - 1 + n + 1) line

/-- The name of a unique key goes without a trace if no enumeration opens before its columns. -/
theorem placed_dropUniqueKeyName (h : Placed ScriptGap es t) (hapart : keyNameApart t) :
    Placed ScriptGap es (dropUniqueKeyName t) := by
  unfold dropUniqueKeyName
  split
  · next found hfound =>
    rw [keyNameApart, hfound, Option.all_some] at hapart
    obtain ⟨y, hsplit, htaken, hy⟩ := takes_of_matchAfter hfound
    have hcode : ∀ c ∈ y, isQuote c = false := isQuote_of_uses (by decide) hy
    have hpasses := passes_of_opensBehind hapart
    rw [hsplit, htaken, List.take_left, List.drop_left] at hpasses
    rw [hsplit] at h
    refine placed_of_front h hpasses (foldl_markStep_code hcode none) ?_
      (foldl_markStep_code ?_ none)
    · obtain ⟨front, close, rfl, -, hclose⟩ := takes_append.mp hy
      obtain rfl := takes_char.mp hclose
      rw [List.getLast?_concat]
      decide
    · exact List.forall_mem_append.mpr
        ⟨fun c hc => hcode c (captured_subset hfound 1 hsplit hc), by decide⟩
  · exact h

/-- Dropping lengths leaves no literal open. -/
theorem foldl_markStep_dropLengths (t : Text) (s : Option Char) :
    (prefixLength.replaceWith (·.captured 1) t).foldl markStep s = t.foldl markStep s := by
  refine foldl_replaceWith (fun before t stop y hstop hsplit hy s => ?_) t s
  have hcode : ∀ c ∈ y, isQuote c = false := isQuote_of_uses (by decide) hy
  rw [foldl_markStep_code hcode,
    foldl_markStep_code fun c hc => hcode c (captured_subset hstop 1 hsplit hc)]

/-- Lengths in the list of a key go likewise. -/
theorem placed_dropPrefixLengths (h : Placed ScriptGap es t) (hapart : keyColumnsApart t) :
    Placed ScriptGap es (dropPrefixLengths t) := by
  unfold dropPrefixLengths
  split
  · exact h
  · next found hfound =>
    dsimp only
    split
    · exact h
    · next n hclosing =>
      rw [keyColumnsApart, hfound, Option.all_some, hclosing, Option.all_some] at hapart
      obtain ⟨y, hsplit, htaken, hy⟩ := takes_of_matchAfter hfound
      have hcode : ∀ c ∈ t.take (found.taken - 1), isQuote c = false := by
        intro c hc
        rw [hsplit, htaken, List.take_append_of_le_length (Nat.sub_le _ _)] at hc
        exact isQuote_of_uses (by decide) hy c (List.mem_of_mem_take hc)
      obtain ⟨inner, r, hdrop, hbalanced⟩ := balanced_of_closing? hclosing
      rw [hdrop, closing?_parenthesised hbalanced] at hclosing
      obtain rfl := Option.some.inj hclosing
      -- The columns with their parentheses are the front, and what follows them the rest.
      have hcut : t.drop (found.taken - 1) = '(' :: (inner ++ [')']) ++ r := by
        rw [hdrop]
        simp
      have hlength : ('(' :: (inner ++ [')'])).length = inner.length + 1 + 1 := by simp
      have hlist : (t.drop (found.taken - 1)).take (inner.length + 1 + 1) =
          '(' :: (inner ++ [')']) := by
        rw [hcut, List.take_left' hlength]
      have hrest : t.drop (found.taken - 1 + (inner.length + 1) + 1) = r := by
        rw [Nat.add_assoc, ← List.drop_drop, hcut, List.drop_left' hlength]
      have hfront : t.take (found.taken - 1 + (inner.length + 1) + 1) =
          t.take (found.taken - 1) ++ '(' :: (inner ++ [')']) := by
        rw [Nat.add_assoc, List.take_add, hlist]
      have hshut : ('(' :: (inner ++ [')'])).foldl markStep none = none := by
        rw [List.foldl_cons, show markStep none '(' = none from rfl, List.foldl_append,
          foldl_markStep_balanced hbalanced]
        rfl
      have hpasses := passes_of_opensBehind hapart
      have hwhole := List.take_append_drop (found.taken - 1 + (inner.length + 1) + 1) t
      rw [hfront, hrest] at hpasses hwhole
      rw [← hwhole] at h
      rw [hlist, hrest]
      refine placed_of_front h hpasses ?_ ?_ ?_
      · rw [List.foldl_append, foldl_markStep_code hcode, hshut]
      · rw [← List.cons_append, ← List.append_assoc, List.getLast?_concat]
        decide
      · rw [List.foldl_append, foldl_markStep_code hcode, foldl_markStep_dropLengths, hshut]

/-- **The rules for keys** keep enumerations that stand apart from keys. -/
theorem placed_plainKeys (h : Placed ScriptGap es t) (hname : keyNameApart t)
    (hcolumns : keyColumnsApart (dropUniqueKeyName t)) :
    Placed ScriptGap es (plainKeys t) := by
  rw [plainKeys]
  exact placed_dropPrefixLengths (placed_dropUniqueKeyName h hname) hcolumns

/-! ## Conditional blocks -/

/-- A conditional block that starts outside literals and has no quote mark. -/
def isBareBlock (mark : Option Char) (block : Text) : Bool :=
  mark.isNone && block.all (!isQuote ·)

/-- **Conditional blocks** that start outside literals and have no quote mark leave enumerations
in their places. -/
theorem placed_commentConditionalBlocks (h : Placed ScriptGap es t)
    (hblocks : everyMatch conditionalBlock isBareBlock none none t) :
    Placed ScriptGap es (commentConditionalBlocks t) := by
  refine placed_of_everyMatch (by decide) ?_ ?_ ?_ h hblocks
  · intro c d hcd
    rw [Cursor.captured, Cursor.captured, Cursor.capture?, Cursor.capture?, hcd]
  · intro mark y hgood
    rw [isBareBlock, Bool.and_eq_true] at hgood
    simpa using hgood.1
  · intro before v t e stop y hv hblank _ hgood hstop hsplit hy
    have hcode : ∀ c ∈ y, isQuote c = false := by
      rw [isBareBlock, Bool.and_eq_true, List.all_eq_true] at hgood
      intro c hc
      simpa using hgood.2 c hc
    constructor
    · exact length_lt_of_code (by decide) hv hblank e hcode hy hsplit
    · have hcaptured : ∀ c ∈ commentOut (stop.captured 1), isQuote c = false :=
        List.forall_mem_append.mpr
          ⟨by decide, fun c hc => hcode c (captured_subset hstop 1 hsplit hc)⟩
      rw [foldl_markStep_code hcode, foldl_markStep_code hcaptured]

/-! ## Comments of columns -/

/-- One character of a comment, or a doubled mark. -/
def commentRound : Pattern :=
  .alt (.one (· != '\'')) (.phrase "''")

/-- A round in the text of a comment is a doubled mark or another character. -/
theorem takes_commentRound (h : commentRound.Takes before y rest) :
    y = ['\'', '\''] ∨ ∃ c, y = [c] ∧ c ≠ '\'' := by
  have hmark : ∀ c, sameLetter '\'' c → c = '\'' :=
    fun c => Text.eq_of_sameLetter (by decide)
  rcases h with ⟨c, rfl, hc⟩ | h
  · exact Or.inr ⟨c, rfl, by simpa using hc⟩
  · rw [phrase_eq_letters, takes_letters (by decide)] at h
    have hlength := length_eq_of_spells h
    match y, h, hlength with
    | [c, d], h, _ =>
      have hsame : sameLetter '\'' c ∧ sameLetter '\'' d := by
        simpa [spells] using h
      rw [hmark c hsame.1, hmark d hsame.2]
      exact Or.inl rfl

/-- Between its marks, a comment stays open, up to the half of a doubled mark. -/
theorem foldl_markStep_comment (h : Rounds commentRound.Takes before y rest) :
    y.foldl markStep (some '\'') = some '\'' ∧ ∀ u v, y = u ++ v →
      u.foldl markStep (some '\'') = none → u.getLast? = some '\'' := by
  induction h with
  | done =>
    refine ⟨rfl, fun u v hcut hopen => ?_⟩
    obtain ⟨rfl, -⟩ := List.append_eq_nil_iff.mp hcut.symm
    simp at hopen
  | @more before x y rest hne first others ih =>
    obtain ⟨hopen, hhalf⟩ := ih
    have hquote : isQuote '\'' := by decide
    -- Where the cut lies behind the first round, the others decide.
    have hothers : ∀ u v, x ++ y = u ++ v → x.foldl markStep (some '\'') = some '\'' → x <+: u →
        u.foldl markStep (some '\'') = none → u.getLast? = some '\'' := by
      rintro _ v hcut hround ⟨u, rfl⟩ hshut
      rw [List.foldl_append, hround] at hshut
      rw [List.append_assoc, List.append_cancel_left_eq] at hcut
      rw [List.getLast?_append, hhalf u v hcut hshut]
      rfl
    rcases takes_commentRound first with rfl | ⟨c, rfl, hc⟩
    · have hround : ['\'', '\''].foldl markStep (some '\'') = some '\'' := by decide
      refine ⟨by rw [List.foldl_append, hround, hopen], fun u v hcut hshut => ?_⟩
      match u, hcut, hshut with
      | [], _, hshut => simp at hshut
      | [d], hcut, _ =>
        obtain ⟨rfl, -⟩ := List.cons.inj hcut
        rfl
      | d :: d' :: u, hcut, hshut =>
        have hfront : ['\'', '\''] <+: d :: d' :: u := by
          have hcut' : '\'' = d ∧ '\'' = d' ∧ y = u ++ v := by simpa using hcut
          exact ⟨u, by rw [← hcut'.1, ← hcut'.2.1]; rfl⟩
        exact hothers _ v hcut hround hfront hshut
    · have hround : [c].foldl markStep (some '\'') = some '\'' := by simp [markStep, hc]
      refine ⟨by rw [List.foldl_append, hround, hopen], fun u v hcut hshut => ?_⟩
      cases u with
      | nil => simp at hshut
      | cons d u =>
        obtain ⟨rfl, -⟩ := List.cons.inj hcut
        exact hothers _ v hcut hround ⟨u, rfl⟩ hshut

/-- A comment that starts outside literals. -/
def isOutside (mark : Option Char) (_ : Text) : Bool :=
  mark.isNone

/-- **Comments of columns** outside literals leave enumerations in their places. -/
theorem placed_stripColumnComments (h : Placed ScriptGap es t)
    (hcomments : everyMatch columnComment isOutside none none t) :
    Placed ScriptGap es (stripColumnComments t) := by
  refine placed_of_everyMatch (p := columnComment) (by decide) (fun _ _ _ => rfl) ?_ ?_ h hcomments
  · intro mark y hgood
    simpa [isOutside] using hgood
  intro before v t e stop y hv hblank hshut _ _ hsplit hy
  obtain ⟨g, ℓ, rfl, hg, hℓ⟩ := takes_append.mp hy
  obtain ⟨_, close, rfl, hopen, hclose⟩ := takes_append.mp hℓ
  obtain ⟨mark, body, rfl, hmark, hbody⟩ := takes_append.mp hopen
  obtain rfl := takes_char.mp hmark
  obtain rfl := takes_char.mp hclose
  have hcode : ∀ c ∈ g, isQuote c = false := isQuote_of_uses (by decide) hg
  obtain ⟨hinside, hhalf⟩ := foldl_markStep_comment hbody
  constructor
  · refine Nat.lt_of_not_le fun hlength => ?_
    obtain ⟨v', b, c, y', rfl, hb, hcut, hletter⟩ :=
      (quiet_of_isQuiet (by decide)).exists_neighbour hv hblank hy hsplit hlength
    have hc : c ∈ ['e', 'E'] := by
      obtain ⟨d, u, htext, hd⟩ := e.exists_text
      rw [htext] at hletter
      obtain ⟨rfl, -⟩ := List.cons.inj hletter
      exact hd
    have hc' : c ≠ '\'' := by
      rintro rfl
      simp at hc
    have hb' : b ≠ '\'' := by
      rintro rfl
      exact absurd (by simpa using hblank) (show ¬ isBlank '\'' = true by decide)
    rcases neighbours_split hcut.symm with ⟨y'', rfl⟩ | ⟨-, hmark⟩ | ⟨u, hmark⟩
    · have hjoin := joins_of_takes hg hb hc
      exact absurd hjoin (by decide)
    · exact hc' (List.cons.inj hmark).1.symm
    · -- The gap ends inside the comment, which is then still open.
      rw [hmark, ← List.append_assoc, List.append_cancel_right_eq] at hcut
      subst hcut
      rw [List.append_assoc, List.foldl_append, foldl_markStep_code hcode] at hshut
      cases u with
      | nil => exact hb' (List.cons.inj hmark).1.symm
      | cons d u =>
        obtain ⟨rfl, hbody'⟩ := List.cons.inj hmark
        have hprefix : u ++ [b] <+: body ++ ['\''] := by
          refine ⟨c :: y', ?_⟩
          rw [List.append_assoc, List.singleton_append]
          exact hbody'.symm
        rcases List.prefix_concat_iff.mp hprefix with hwhole | ⟨z, hz⟩
        · exact hb' (by simpa using (List.append_inj' hwhole rfl).2)
        have hlast := hhalf (u ++ [b]) z hz.symm hshut
        rw [List.getLast?_concat] at hlast
        exact hb' (Option.some.inj hlast)
  · rw [List.foldl_append, foldl_markStep_code hcode, List.foldl_append, List.foldl_append]
    have hstep : ['\''].foldl markStep none = some '\'' := by decide
    rw [hstep, hinside]
    decide

end Line
end DumpBridge
