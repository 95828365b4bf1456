import DumpBridge.Proofs.Line.Constructs
import DumpBridge.Proofs.Line.DataFront
import DumpBridge.Proofs.Rows.Statements

/-!
# Changing values leaves no construct

A value that changes becomes one of three words between separators, and none of them
is part of a construct (`occurs_newWord`).  Since separators cut the search for a
construct, each changed item, each changed row and so each changed line has no
construct that it had not before (`occurs_of_newItem`, `occurs_of_results`).

A line of rows is not looked at, and it stays one (`isData_of_further`,
`isData_of_header_append`).  With a long s its first word may be read as a header and
still make it no line of rows; `marker?_becomes` holds of such lines too.
-/

namespace DumpBridge

open Text (Pattern isBlank isWord blankChars)
open Literal (isQuote isQuote_of_blank markStep)
open Line (foreignConstruct codeMask)

/-- A text is what trimming leaves, between blanks. -/
theorem Text.exists_trim (t : Text) : ∃ lead tail, t = lead ++ (Text.trim t ++ tail) ∧
    (∀ c ∈ lead, isBlank c) ∧ ∀ c ∈ tail, isBlank c := by
  refine ⟨t.takeWhile isBlank, ((t.dropWhile isBlank).reverse.takeWhile isBlank).reverse, ?_,
    fun c hc => List.mem_takeWhile_imp hc,
    fun c hc => List.mem_takeWhile_imp (List.mem_reverse.mp hc)⟩
  rw [Text.trim, Text.trimEnd, Text.dropEndWhile, Text.trimStart, ← List.reverse_append,
    List.takeWhile_append_dropWhile, List.reverse_reverse, List.takeWhile_append_dropWhile]

/-- Without the blanks around it a text starts with its first solid character. -/
theorem Text.startsWith_trim {lead : Text} {c : Char} (hlead : ∀ c ∈ lead, isBlank c)
    (hc : isBlank c = false) (first : Char) (t : Text) :
    Text.startsWith first (Text.trim (lead ++ c :: t)) = decide (c = first) := by
  obtain ⟨t', ht'⟩ := Text.exists_dropEndWhile_append_cons [] hc t
  have htrim : Text.trim (lead ++ c :: t) = c :: t' := by
    rw [Text.trim, Text.trimStart_append hlead (by simpa using hc)]
    exact ht'
  simp [htrim, Text.startsWith]

namespace Rows

variable {targets : Positions} {i : Nat} {item new p q : Text} {d e : Char}

/-- The words that values change to. -/
def newWords : List Text :=
  ["FALSE".toList, "TRUE".toList, "NULL".toList]

/-- The values that change, and what they change to, are few. -/
theorem newWord?_cases {value word : Text} (h : newWord? targets i value = some word) :
    word ∈ newWords ∧ value ∈ ["0".toList, "1".toList, "''".toList, "\"\"".toList] := by
  unfold newWord? at h
  split_ifs at h with h0 h1 h2 <;> obtain rfl := Option.some.inj h
  · exact ⟨by decide, by simp [h0.2]⟩
  · exact ⟨by decide, by simp [h1.2]⟩
  · refine ⟨by decide, ?_⟩
    rcases h2.2 with rfl | rfl <;> decide

/-- A value that may change leaves open what was. -/
theorem foldl_markStep_value {value : Text}
    (h : value ∈ ["0".toList, "1".toList, "''".toList, "\"\"".toList]) (mark : Option Char) :
    value.foldl markStep mark = mark := by
  simp only [List.mem_cons, List.not_mem_nil, or_false] at h
  rcases h with rfl | rfl | rfl | rfl
  · exact Literal.foldl_markStep_code (by decide) mark
  · exact Literal.foldl_markStep_code (by decide) mark
  · exact Literal.foldl_markStep_quoted (m := '\'') (t := []) (by decide) (by simp) mark
  · exact Literal.foldl_markStep_quoted (m := '"') (t := []) (by decide) (by simp) mark

/-- An item that changes leaves open what was, and so does the word with blanks around it that it
changes to. -/
theorem newItem_cases (targets : Positions) (i : Nat) (item : Text) :
    newItem targets i item = item ∨
      (∀ mark, item.foldl markStep mark = mark) ∧
        ∃ lead word tail, newItem targets i item = lead ++ (word ++ tail) ∧ word ∈ newWords ∧
          (∀ c ∈ lead, isBlank c) ∧ ∀ c ∈ tail, isBlank c := by
  unfold newItem
  split
  · next word hword =>
    obtain ⟨hmem, hvalue⟩ := newWord?_cases hword
    refine Or.inr ⟨fun mark => ?_, _, word, _, List.append_assoc .., hmem,
      fun c hc => List.mem_takeWhile_imp hc,
      fun c hc => List.mem_takeWhile_imp (List.mem_reverse.mp hc)⟩
    obtain ⟨lead, tail, hitem, hlead, htail⟩ := Text.exists_trim item
    rw [hitem, List.foldl_append, List.foldl_append,
      Literal.foldl_markStep_code (isQuote_of_blank hlead),
      foldl_markStep_value hvalue,
      Literal.foldl_markStep_code (isQuote_of_blank htail)]
  · exact Or.inl rfl

/-- What the mask of a line is around an item. -/
theorem codeMask_item (hnew : ∀ mark, new.foldl markStep mark = mark) (hd : isQuote d = false)
    (he : isQuote e = false) (p q : Text) :
    let mark := p.foldl markStep none
    let sep (c : Char) := if mark.isNone then c else ','
    codeMask none (p ++ d :: (new ++ e :: q)) =
      codeMask none p ++ sep d :: (codeMask mark new ++ sep e :: codeMask mark q) := by
  rw [Line.codeMask_append, Line.codeMask_cons hd, Line.codeMask_append, hnew,
    Line.codeMask_cons he]

/-- A word that a value changes to has no quote mark, and neither have the blanks around it. -/
theorem isQuote_newWord {lead word tail : Text} (hword : word ∈ newWords)
    (hlead : ∀ c ∈ lead, isBlank c) (htail : ∀ c ∈ tail, isBlank c) :
    ∀ c ∈ lead ++ (word ++ tail), isQuote c = false := by
  have hwords : ∀ word ∈ newWords, ∀ c ∈ word, isQuote c = false := by decide
  intro c hc
  simp only [List.mem_append] at hc
  rcases hc with hc | hc | hc
  · exact isQuote_of_blank hlead c hc
  · exact hwords word hword c hc
  · exact isQuote_of_blank htail c hc

/-- The word is no construct, inside a literal or outside. -/
theorem occurs_newWord {lead word tail : Text} (hword : word ∈ newWords)
    (hlead : ∀ c ∈ lead, isBlank c) (htail : ∀ c ∈ tail, isBlank c)
    (he : e ∈ [',', ')']) (mark : Option Char) :
    foreignConstruct.occurs (codeMask mark (lead ++ (word ++ tail)) ++
      [if mark.isNone then e else ',']) = false := by
  have hwords : ∀ word ∈ newWords, foreignConstruct.leadsIn (word.take 1) = false ∧
      foreignConstruct.startsInside word = false ∧ ∀ c ∈ word, isWord c := by
    decide +kernel
  obtain ⟨hfirst, hinside, hletters⟩ := hwords word hword
  rw [Line.codeMask_of_code (isQuote_newWord hword hlead htail)]
  cases mark with
  | none => simpa using Line.occurs_word hfirst hinside hletters hlead htail he
  | some m =>
    refine Line.occurs_commas fun c hc => ?_
    simp only [List.mem_append, List.mem_map, List.mem_singleton] at hc
    rcases hc with ⟨_, -, rfl⟩ | rfl <;> rfl

/-- **A changed item** adds no construct. -/
theorem occurs_of_newItem (targets : Positions) (i : Nat) (item : Text) (hd : d ∈ [',', '('])
    (he : e ∈ [',', ')']) (p q : Text)
    (h : foreignConstruct.occurs (codeMask none (p ++ d :: (newItem targets i item ++ e :: q)))) :
    foreignConstruct.occurs (codeMask none (p ++ d :: (item ++ e :: q))) := by
  rcases newItem_cases targets i item with
    hsame | ⟨hitem, lead, word, tail, hnew, hword, hlead, htail⟩
  · rwa [hsame] at h
  have hd' : isQuote d = false := by
    simp only [List.mem_cons, List.not_mem_nil, or_false] at hd
    rcases hd with rfl | rfl <;> decide
  have he' : isQuote e = false := by
    simp only [List.mem_cons, List.not_mem_nil, or_false] at he
    rcases he with rfl | rfl <;> decide
  have hmarks : ∀ mark, (newItem targets i item).foldl markStep mark = mark := by
    rw [hnew]
    exact Literal.foldl_markStep_code (isQuote_newWord hword hlead htail)
  rw [codeMask_item hmarks hd' he'] at h
  rw [codeMask_item hitem hd' he']
  generalize p.foldl markStep none = mark at h ⊢
  have hquiet := occurs_newWord hword hlead htail he mark
  rw [← hnew] at hquiet
  -- The separators on both sides cut the search, and between them the word is no construct.
  have hsep : ∀ c ∈ [',', ')', '('], (if mark.isNone then c else ',') ∈ [',', ')', '('] := by
    intro c hc
    split
    · exact hc
    · simp
  have hdsep := hsep d (by simp at hd ⊢; tauto)
  have hesep := hsep e (by simp at he ⊢; tauto)
  rw [Line.occurs_append_cons hdsep, Line.occurs_append_cons hesep, hquiet, Bool.false_or,
    Bool.or_eq_true] at h
  rw [Line.occurs_append_cons hdsep, Line.occurs_append_cons hesep, Bool.or_eq_true,
    Bool.or_eq_true]
  exact h.imp_right Or.inr

/-- **Changed items** add no construct. -/
theorem occurs_of_newItems {items news : List Text}
    (hnews : List.Forall₂ (fun item new => ∃ i, new = newItem targets i item) items news)
    (hd : d ∈ [',', '(']) (he : e ∈ [',', ')']) (p q : Text)
    (h : foreignConstruct.occurs (codeMask none (p ++ d :: (Text.join [','] news ++ e :: q)))) :
    foreignConstruct.occurs (codeMask none (p ++ d :: (Text.join [','] items ++ e :: q))) := by
  induction hnews generalizing p d with
  | nil => exact h
  | @cons item new items news hnew hnews ih =>
    obtain ⟨i, rfl⟩ := hnew
    cases hnews with
    | nil => exact occurs_of_newItem targets i item hd he p q h
    | @cons item' new' items' news' hnew' hnews' =>
      have hjoin : ∀ (first second : Text) (others : List Text),
          Text.join [','] (first :: second :: others) =
            first ++ ',' :: Text.join [','] (second :: others) := by
        intro first second others
        simp [Text.join]
      rw [hjoin] at h ⊢
      -- The items after the first change first, then the first one.
      have hrest := ih (d := ',') (by simp) (p ++ d :: newItem targets i item)
        (by simpa using h)
      have hitem := occurs_of_newItem targets i item hd (e := ',') (by simp) p
        (Text.join [','] (item' :: items') ++ e :: q) (by simpa using hrest)
      simpa using hitem

/-- A map relates each entry to its image. -/
theorem forall₂_mapIdx {α β : Type} {R : α → β → Prop} {f : Nat → α → β} (hf : ∀ i a, R a (f i a))
    (l : List α) : List.Forall₂ R l (l.mapIdx f) := by
  induction l generalizing f with
  | nil => exact .nil
  | cons a l ih =>
    rw [List.mapIdx_cons]
    exact .cons (hf 0 a) (ih fun i => hf (i + 1))

/-- **Changed rows** add no construct. -/
theorem occurs_of_results (rows : List Row) (p q : Text) (h : foreignConstruct.occurs
      (codeMask none (p ++ (rows.flatMap (Row.result targets) ++ q)))) :
    foreignConstruct.occurs (codeMask none (p ++ (rows.flatMap Row.text ++ q))) := by
  induction rows generalizing p with
  | nil => exact h
  | cons row rows ih =>
    have hrows := ih (p ++ row.result targets) (by simpa using h)
    have hnews : List.Forall₂ (fun item new => ∃ i, new = newItem targets i item)
        (itemsOf row.inner) ((itemsOf row.inner).mapIdx (newItem targets)) :=
      forall₂_mapIdx (fun i _ => ⟨i, rfl⟩) _
    have hrow := occurs_of_newItems hnews (d := '(') (e := ')') (by simp) (by simp) (p ++ row.gap)
      (rows.flatMap Row.text ++ q) (by simpa [Row.result, Row.withItems] using hrows)
    simpa [Row.text, Row.withItems] using hrow

end Rows

namespace Line

open Text.Pattern

variable {line : Text} {header : InsertHeader}

/-- A phrase that begins with a gap takes a blank first. -/
theorem exists_blank_of_takes {w x rest : Text} {before : Option Char}
    (h : (letters (' ' :: w)).Takes before x rest) :
    ∃ g more, x = g :: more ∧ isBlank g := by
  obtain ⟨y, z, rfl, hy, -⟩ := h
  obtain ⟨hne, hblank, -⟩ := takes_gap.mp hy
  obtain ⟨g, y, rfl⟩ := List.exists_cons_of_ne_nil hne
  exact ⟨g, y ++ z, rfl, hblank g (by simp)⟩

/-- What a sequence takes starts with what its first part takes. -/
theorem takes_front {a b : Pattern} {before : Option Char} {y : Text}
    (h : ∃ x rest, x <+: y ∧ (a ++ b).Takes before x rest) :
    ∃ x rest, x <+: y ∧ a.Takes before x rest := by
  obtain ⟨_, rest, hle, x, z, rfl, hx, -⟩ := h
  exact ⟨x, z ++ rest, (List.prefix_append x z).trans hle, hx⟩

/-- A header begins with a whole word. -/
theorem exists_front_of_header (h : InsertHeader.parse? line = some header) :
    ∃ lead word g more, line.take header.length = lead ++ (word ++ g :: more) ∧
      (∀ c ∈ lead, isBlank c) ∧ (word ≠ [] ∧ ∀ c ∈ word, isWord c) ∧
      isBlank g := by
  obtain ⟨found, hfound, rfl⟩ := Option.map_eq_some_iff.mp h
  obtain ⟨y, hline, htaken, htakes⟩ := takes_of_matchAfter hfound
  have htake : line.take found.taken = y := by
    rw [hline, htaken, List.take_left]
  obtain ⟨_, rest, ⟨more, rfl⟩, _, into, rfl,
      ⟨_, ignore, rfl, ⟨lead, word, rfl, hlead, hword⟩, hignore⟩,
      hinto⟩ : ∃ x rest, x <+: y ∧ (blanks ++ anyPhrase ["INSERT", "REPLACE"]
        ++ optional (phrase " IGNORE") ++ phrase " INTO ").Takes none x rest :=
    takes_front (takes_front (takes_front (takes_front (takes_front (takes_front (takes_front
      (takes_front ⟨y, _, List.prefix_refl y, htakes⟩)))))))
  have hspelled : word ≠ [] ∧ ∀ c ∈ word, isWord c := by
    have hkeywords : ∀ w ∈ ["INSERT", "REPLACE"], isKeyword w.toList := by decide
    obtain ⟨_, hmem, hspells⟩ := takes_anyOf.mp hword
    obtain ⟨w, hw, rfl⟩ := List.mem_map.mp hmem
    rw [phrase_eq_letters, takes_letters (not_mem_of_isKeyword (hkeywords w hw))] at hspells
    exact isWord_of_spells (hkeywords w hw) hspells
  obtain ⟨g, more', hgap, hg⟩ : ∃ g more, ignore ++ into = g :: more ∧ isBlank g := by
    rcases hignore with hignore | rfl
    · obtain ⟨g, more, rfl, hg⟩ := exists_blank_of_takes (w := "IGNORE".toList) hignore
      exact ⟨g, more ++ into, rfl, hg⟩
    · exact exists_blank_of_takes (w := "INTO ".toList) hinto
  refine ⟨lead, word, g, more' ++ more, ?_, hlead.1, hspelled, hg⟩
  rw [htake, ← List.cons_append, ← hgap]
  simp only [List.append_assoc]

/-- A line whose first solid character is no letter has no header. -/
theorem parse?_eq_none_of_first {lead : Text} {c : Char} (hlead : ∀ c ∈ lead, isBlank c)
    (hc : isBlank c = false) (hword : isWord c = false) (t : Text) :
    InsertHeader.parse? (lead ++ c :: t) = none := by
  refine Option.eq_none_iff_forall_ne_some.mpr fun header hheader => ?_
  obtain ⟨lead', word, g, more, htake, hlead', ⟨hne, hletters⟩, -⟩ := exists_front_of_header hheader
  obtain ⟨d, word, rfl⟩ := List.exists_cons_of_ne_nil hne
  have hd := hletters d (by simp)
  have hsplit := List.take_append_drop header.length (lead ++ c :: t)
  rw [htake, List.append_assoc, List.cons_append] at hsplit
  obtain ⟨-, hrest⟩ := Text.span_inj hlead' hlead
    (by simpa using Text.isBlank_eq_false_of_isWord hd) (by simpa using hc) hsplit
  obtain ⟨rfl, -⟩ := List.cons.inj hrest
  simp [hd] at hword

/-- Values after a header do not change whether the line has rows. -/
theorem isData_of_header_append (h : InsertHeader.parse? line = some header) {v : Text}
    (hdata : isData (line.take header.length ++ v)) :
    isData (line.take header.length) := by
  obtain ⟨lead, word, g, more, hfront, hlead, ⟨hne, hword⟩, hg⟩ := exists_front_of_header h
  rw [hfront] at hdata ⊢
  cases hs : isData (lead ++ (word ++ g :: more)) with
  | true => rfl
  | false =>
    obtain ⟨c, word, rfl⟩ := List.exists_cons_of_ne_nil hne
    have hc := hword c (by simp)
    have hsolid := Text.isBlank_eq_false_of_isWord hc
    rcases isData_append_cases hdata hs with ⟨hblank, -⟩ | ⟨w, hw, _, after, rfl, -, -, rfl, -⟩
    · exact absurd (hblank c (by simp)) (by simp [hsolid])
    · -- The blank after the first word would be part of one of the words.
      rw [Text.trimStart_append hlead (by simpa using hsolid)] at hw
      have hnone : ∀ g ∈ blankChars, ∀ w ∈ dataWords, g.toUpper ∉ w := by decide
      exact absurd (by simp) (hnone g (Text.mem_blankChars hg) _ hw)

/-- A line with the header of an insert is live, whatever follows the header. -/
theorem isComment_of_header (h : InsertHeader.parse? line = some header) (v : Text) :
    isComment (line.take header.length ++ v) = false := by
  obtain ⟨lead, word, g, more, hfront, hlead, ⟨hne, hword⟩, -⟩ := exists_front_of_header h
  obtain ⟨c, word, rfl⟩ := List.exists_cons_of_ne_nil hne
  have hc := hword c (by simp)
  have hdash : c ≠ '-' := by
    rintro rfl
    exact absurd hc (by decide)
  rw [hfront, List.append_assoc, List.cons_append, List.cons_append,
    isComment_append hlead (Text.isBlank_eq_false_of_isWord hc)]
  simp [List.isPrefixOf, hdash.symm]

end Line
namespace Rows

variable {schema : Schema} {before lines : List Text} {line : Text} {effect : Effect}

/-- A line that goes on with rows still begins with one after its values changed. -/
theorem exists_front_of_further (targets : Positions) {rows : List Row} {rest : Text}
    (hreads : Reads line rows rest) (htuple : Text.startsWith '(' (Text.trim line)) :
    ∃ lead more, rows.flatMap (Row.result targets) ++ rest = lead ++ '(' :: more ∧
      ∀ c ∈ lead, isBlank c := by
  obtain ⟨lead, tail, hline, hlead, -⟩ := Text.exists_trim line
  obtain ⟨inner, hinner⟩ : ∃ inner, Text.trim line = '(' :: inner := by
    cases htrim : Text.trim line with
    | nil => simp [htrim, Text.startsWith] at htuple
    | cons c t => exact ⟨t, by simpa [htrim, Text.startsWith] using htuple⟩
  rw [hinner, List.cons_append] at hline
  cases rows with
  | nil => exact ⟨lead, inner ++ tail, hreads.text.symm.trans hline, hlead⟩
  | cons row rows =>
    -- The gap before the first row is all that comes before the first parenthesis.
    have hgap : '(' ∉ row.gap := fun hc => absurd (row.gap_plain _ hc) (by decide)
    have hblank : '(' ∉ lead := fun hc => absurd (hlead _ hc) (by decide)
    have hsplit : lead ++ '(' :: (inner ++ tail) =
        row.gap ++ '(' :: (row.inner ++ ')' :: (rows.flatMap Row.text ++ rest)) := by
      rw [← hline, hreads.text, List.flatMap_cons, Row.text_eq]
      simp
    obtain ⟨rfl, -⟩ := Text.append_cons_inj hblank hgap hsplit
    rw [List.flatMap_cons, Row.result, Row.withItems, List.append_assoc, List.append_assoc,
      List.cons_append]
    exact ⟨row.gap, _, rfl, hlead⟩

/-- A further line of tuples stays one. -/
theorem isData_of_further (targets : Positions) {rows : List Row} {rest : Text}
    (hreads : Reads line rows rest) (htuple : Text.startsWith '(' (Text.trim line)) :
    Line.isData (rows.flatMap (Row.result targets) ++ rest) := by
  obtain ⟨lead, more, hfront, hlead⟩ := exists_front_of_further targets hreads htuple
  rw [hfront]
  exact Line.isData_iff_front.mpr ⟨lead, ['('], more, rfl, hlead, by decide⟩

/-- **Changing values adds no warning**: no construct comes in. -/
theorem marker?_becomes (h : Becomes schema before line effect) (hline : Line.marker? line = none) :
    Line.marker? effect.line = none := by
  cases h with
  | kept => exact hline
  | @values targets start rows rest hvalues hne hreads =>
    cases hvalues with
    | @further header hparse hopen htuple =>
      rw [List.drop_zero] at hreads
      have hdata := isData_of_further (positions schema header) hreads htuple
      rw [List.take_zero, List.nil_append]
      unfold Line.marker?
      rw [hdata, Bool.or_true, if_pos rfl]
    | @first header hparse =>
      rw [← Option.not_isSome_iff_eq_none] at hline ⊢
      rw [Line.isSome_marker?_iff] at hline ⊢
      rintro ⟨-, hdata, hoccurs⟩
      have hsplit : line.take header.length ++ line.drop header.length = line :=
        List.take_append_drop _ _
      have hcomment := Line.isComment_of_header hparse (line.drop header.length)
      have hkept : Line.isData line = false := by
        rw [← hsplit]
        refine Bool.eq_false_iff.mpr fun hrows => ?_
        have hfront := Line.isData_append (Line.isData_of_header_append hparse hrows)
          (rows.flatMap (Row.result (positions schema header)) ++ rest)
        exact absurd (hfront.symm.trans hdata) (by simp)
      have hmask := occurs_of_results rows _ rest hoccurs
      rw [← hreads.text, hsplit] at hmask
      rw [hsplit] at hcomment
      exact hline ⟨hcomment, hkept, hmask⟩

end Rows
end DumpBridge
