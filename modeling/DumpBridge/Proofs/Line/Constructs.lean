import DumpBridge.Conversion
import DumpBridge.Proofs.Literal.Marks
import DumpBridge.Proofs.Text.Reach

/-!
# Constructs of the dump's dialect

`codeMask` puts a comma for each character of a literal.  No construct has a comma, so
that looking for one in every run of code is looking for it in one text
(`isSome_findSome?_iff`); and the mask goes over a line character by character, so
that it is put together from the masks of its parts (`codeMask_append`).

A construct does not reach over a comma or a closing parenthesis, and over an opening
one only with its last character (`occurs_append_cons`).
-/

namespace DumpBridge.Line

open Text (Pattern isBlank isWord blankChars)
open Text.Pattern
open Literal (Segment Lexeme Lexed isQuote markStep segments segmentsOf)

variable {a b x s t : Text} {c : Char} {before : Option Char}

/-! ## Where a construct ends -/

/-- The constructs without a parenthesis. -/
def plainConstructs : List Pattern :=
  [.phrase "/*!",
    .edge ++ .phrase "ENGINE" ++ .blanks ++ .char '=',
    .edge ++ .phrase "UNSIGNED" ++ .edge,
    .edge ++ .phrase "AUTO_INCREMENT" ++ .edge,
    .edge ++ .phrase "LOCK TABLES" ++ .edge]

/-- What stands before the parenthesis of an enumeration. -/
def enumFront : Pattern :=
  .edge ++ .phrase "enum" ++ .blanks

/-- A construct is a plain one, or an enumeration with its parenthesis. -/
theorem takes_foreignConstruct {rest : Text} : foreignConstruct.Takes before x rest ↔
    (∃ p ∈ plainConstructs, p.Takes before x rest) ∨
      (enumFront ++ .char '(').Takes before x rest := by
  have hsplit : foreignConstruct = anyOf (plainConstructs ++ [enumFront ++ .char '(']) := rfl
  rw [hsplit, takes_anyOf]
  simp [or_and_right, exists_or]

theorem nullable_foreignConstruct : foreignConstruct.nullable = false := by decide

/-- A parenthesis ends a construct, whatever follows. -/
theorem takes_foreignConstruct_paren {y rest : Text}
    (h : foreignConstruct.Takes before (x ++ '(' :: y) rest) :
    y = [] ∧ ∀ rest', foreignConstruct.Takes before (x ++ ['(']) rest' := by
  have hplain : ∀ p ∈ plainConstructs, p.uses ['('] = false := by decide
  have hfront : enumFront.uses ['('] = false := by decide
  rcases takes_foreignConstruct.mp h with ⟨p, hp, h⟩ | ⟨y', z, hsplit, hy', c, rfl, hc⟩
  · have hmem := (within_of_uses (hplain p hp)).of_takes h '(' (by simp)
    simp at hmem
  · obtain rfl : c = '(' := by simpa using hc
    have hmem : '(' ∉ y' := fun hmem => (within_of_uses hfront).of_takes hy' '(' hmem (by simp)
    rcases append_cons_split hsplit with ⟨x', rfl⟩ | ⟨s, rfl, hs⟩
    · simp at hmem
    · obtain ⟨rfl, rfl⟩ : s = [] ∧ y = [] := by
        cases s with
        | nil => simpa using hs
        | cons d s => simp at hs
      refine ⟨rfl, fun rest' =>
        takes_foreignConstruct.mpr (Or.inr ⟨y', ['('], by simp, ?_, '(', rfl, hc⟩)⟩
      exact hy'.congr rfl rfl

/-- A construct that has a separator ends with it, and it is a parenthesis. -/
theorem takes_foreignConstruct_cons {y rest : Text} (hc : c ∈ [',', ')', '('])
    (h : foreignConstruct.Takes before (x ++ c :: y) rest) :
    y = [] ∧ ∀ rest', foreignConstruct.Takes before (x ++ [c]) rest' := by
  have hunused : foreignConstruct.uses [',', ')'] = false := by decide
  have hnot := (within_of_uses hunused).of_takes h c (by simp)
  obtain rfl : c = '(' := by simp_all
  exact takes_foreignConstruct_paren h

/-- The last character of a text is the last one of a construct, or it comes after it. -/
theorem takes_foreignConstruct_snoc {u rest : Text} (hsplit : a ++ [c] = u ++ (x ++ rest))
    (h : foreignConstruct.Takes before x rest) :
    (∃ x', x = x' ++ [c] ∧ rest = [] ∧ a = u ++ x') ∨
      ∃ rest', rest = rest' ++ [c] ∧ a = u ++ (x ++ rest') := by
  rcases List.eq_nil_or_concat rest with rfl | ⟨rest', d, rfl⟩
  · rcases List.eq_nil_or_concat x with rfl | ⟨x', d, rfl⟩
    · exact absurd (nullable_of_takes h) (by simp [nullable_foreignConstruct])
    · rw [List.concat_eq_append, List.append_nil, ← List.append_assoc] at hsplit
      obtain ⟨rfl, hd⟩ := List.append_inj' hsplit rfl
      exact Or.inl ⟨x', by rw [List.concat_eq_append, List.singleton_inj.mp hd], rfl, rfl⟩
  · rw [List.concat_eq_append, ← List.append_assoc, ← List.append_assoc] at hsplit
    obtain ⟨rfl, hd⟩ := List.append_inj' hsplit rfl
    exact Or.inr ⟨rest', by rw [List.concat_eq_append, List.singleton_inj.mp hd], by simp⟩

theorem isWord_separator (hc : c ∈ [',', ')', '(']) : isWord c = false := by
  have hall : ∀ c ∈ [',', ')', '('], isWord c = false := by decide
  exact hall c hc

/-- **A separator cuts the search**: a construct stands before it, the separator included, or
after it. -/
theorem occurs_append_cons (hc : c ∈ [',', ')', '(']) (a b : Text) :
    foreignConstruct.occurs (a ++ c :: b) =
      (foreignConstruct.occurs (a ++ [c]) || foreignConstruct.occurs b) := by
  have hword := isWord_separator hc
  have hfront : ∀ u : Text, (a ++ c :: u).getLast?.any isWord = u.getLast?.any isWord := by
    intro u
    cases u with
    | nil => simpa using hword
    | cons d u => simp [List.getLast?_cons]
  rw [Bool.eq_iff_iff, Bool.or_eq_true, occurs_iff, occurs_iff, occurs_iff]
  constructor
  · rintro ⟨u, _, hsplit, x, rest, rfl, htakes⟩
    rcases append_cons_split hsplit with ⟨u', rfl⟩ | ⟨a', rfl, hrest⟩
    · have hb : b = u' ++ (x ++ rest) := by simpa using hsplit
      exact Or.inr ⟨u', x ++ rest, hb, x, rest, rfl, htakes.congr (hfront u') rfl⟩
    · left
      rcases append_cons_split hrest.symm with ⟨x', rfl⟩ | ⟨a'', rfl, rfl⟩
      · obtain ⟨rfl, hany⟩ := takes_foreignConstruct_cons hc htakes
        exact ⟨u, a' ++ [c], by simp, a' ++ [c], [], by simp, hany []⟩
      · exact ⟨u, x ++ (a'' ++ [c]), by simp, x, a'' ++ [c], rfl,
          htakes.congr rfl (by cases a'' <;> rfl)⟩
  · rintro (⟨u, _, hsplit, x, rest, rfl, htakes⟩ | ⟨u, _, rfl, x, rest, rfl, htakes⟩)
    · rcases takes_foreignConstruct_snoc hsplit htakes with ⟨x, rfl, rfl, rfl⟩ | ⟨rest, rfl, rfl⟩
      · obtain ⟨-, hany⟩ := takes_foreignConstruct_cons hc htakes
        exact ⟨u, x ++ c :: b, by simp, x ++ [c], b, by simp, hany b⟩
      · exact ⟨u, x ++ (rest ++ c :: b), by simp, x, rest ++ c :: b, rfl,
          htakes.congr rfl (by cases rest <;> rfl)⟩
    · exact ⟨a ++ c :: u, x ++ rest, by simp, x, rest, rfl, htakes.congr (hfront u).symm rfl⟩

/-- A comma at the end is as good as the end. -/
theorem occurs_append_comma (a : Text) :
    foreignConstruct.occurs (a ++ [',']) = foreignConstruct.occurs a := by
  have hcomma : foreignConstruct.blindTo none (some ',') := by decide
  have hend : foreignConstruct.blindTo (some ',') none := by decide
  rw [Bool.eq_iff_iff, occurs_iff, occurs_iff]
  constructor
  · rintro ⟨u, _, hsplit, x, rest, rfl, htakes⟩
    rcases takes_foreignConstruct_snoc hsplit htakes with ⟨x, rfl, -, -⟩ | ⟨rest, rfl, rfl⟩
    · have hunused : foreignConstruct.uses [','] = false := by decide
      exact absurd ((within_of_uses hunused).of_takes htakes ',' (by simp)) (by simp)
    · refine ⟨u, x ++ rest, by simp, x, rest, rfl, htakes.of_blindTo ?_⟩
      cases rest with
      | nil => exact hend
      | cons d rest => exact blindTo_self _ _
  · rintro ⟨u, _, rfl, x, rest, rfl, htakes⟩
    refine ⟨u, x ++ (rest ++ [',']), by simp, x, rest ++ [','], rfl, htakes.of_blindTo ?_⟩
    cases rest with
    | nil => exact hcomma
    | cons d rest => exact blindTo_self _ _

theorem occurs_cons_comma (a : Text) :
    foreignConstruct.occurs (',' :: a) = foreignConstruct.occurs a := by
  have hcomma : foreignConstruct.occurs [','] = false := by decide
  have hcut := occurs_append_cons (c := ',') (by simp) [] a
  simpa [hcomma] using hcut

/-- Among commas none does. -/
theorem occurs_commas {commas : Text} (h : ∀ c ∈ commas, c = ',') :
    foreignConstruct.occurs commas = false := by
  induction commas with
  | nil => decide
  | cons c commas ih =>
    obtain ⟨hc, hcommas⟩ := List.forall_mem_cons.mp h
    rw [hc, occurs_cons_comma, ih hcommas]

/-! ## One text for all runs of code -/

/-- A line with a comma for each character of a literal; `mark` is the literal that is open at
first. -/
def codeMask : Option Char → Text → Text
  | _, [] => []
  | mark, c :: t => (if mark.isNone && !isQuote c then c else ',') :: codeMask (markStep mark c) t

theorem codeMask_append (mark : Option Char) (a b : Text) :
    codeMask mark (a ++ b) = codeMask mark a ++ codeMask (a.foldl markStep mark) b := by
  induction a generalizing mark with
  | nil => rfl
  | cons c a ih => rw [List.cons_append, codeMask, ih, codeMask, List.foldl_cons]; rfl

theorem codeMask_cons {mark : Option Char} (hc : isQuote c = false) (t : Text) :
    codeMask mark (c :: t) = (if mark.isNone then c else ',') :: codeMask mark t := by
  have hstep : markStep mark c = mark := by simp [markStep, hc]
  rw [codeMask, hstep, hc]
  simp

/-- Code is its own mask, and inside a literal it is all commas. -/
theorem codeMask_of_code {mark : Option Char} (ht : ∀ c ∈ t, isQuote c = false) :
    codeMask mark t = t.map fun c => if mark.isNone then c else ',' := by
  induction t with
  | nil => rfl
  | cons c t ih =>
    obtain ⟨hc, ht⟩ := List.forall_mem_cons.mp ht
    rw [codeMask_cons hc, ih ht, List.map_cons]

/-- A construct stands in one of some segments, outside literals. -/
def OccursIn (segs : List Segment) : Prop :=
  ∃ t, .code t ∈ segs ∧ foreignConstruct.occurs t

theorem occursIn_cons_literal (t : Text) (segs : List Segment) :
    OccursIn (.literal t :: segs) ↔ OccursIn segs := by
  simp [OccursIn]

/-- A lexeme of a literal starts a segment that is none of code. -/
theorem exists_before_of_not_code {l : Lexeme} (hl : l.isCode = false) (segs : List Segment) :
    ∃ t rest, l.before segs = .literal t :: rest ∧ (OccursIn rest ↔ OccursIn segs) := by
  fun_cases Lexeme.before l segs with
  | case1 c t rest | case2 c rest => simp [Lexeme.isCode] at hl
  | case3 c => exact ⟨[c], segs, rfl, Iff.rfl⟩
  | case4 l t rest => exact ⟨_, rest, rfl, (occursIn_cons_literal t rest).symm⟩
  | case5 l rest => exact ⟨_, segs, rfl, Iff.rfl⟩

/-- A run of code is a segment of its own before a literal. -/
theorem segmentsOf_code_append {ls : List Lexeme} (hls : ∀ t rest, segmentsOf ls ≠ .code t :: rest)
    (hx : x ≠ []) : segmentsOf (x.map .code ++ ls) = .code x :: segmentsOf ls := by
  induction x with
  | nil => exact absurd rfl hx
  | cons c x ih =>
    rw [List.map_cons, List.cons_append, Literal.segmentsOf_code]
    cases x with
    | nil =>
      cases hsegs : segmentsOf ls with
      | nil => simp [hsegs, Lexeme.before]
      | cons seg rest =>
        cases seg with
        | code t => exact absurd hsegs (hls t rest)
        | literal t => simp [hsegs, Lexeme.before]
    | cons d x => rw [ih (by simp)]; rfl

/-- **A construct occurs in code or in what follows it**, if that begins with a literal. -/
theorem occursIn_code_append {ls : List Lexeme} (hls : ∀ t rest, segmentsOf ls ≠ .code t :: rest)
    (x : Text) : OccursIn (segmentsOf (x.map .code ++ ls)) ↔
      foreignConstruct.occurs x ∨ OccursIn (segmentsOf ls) := by
  by_cases hx : x = []
  · have hnil : foreignConstruct.occurs [] = false := by decide
    simp [hx, hnil]
  · rw [segmentsOf_code_append hls hx]
    simp [OccursIn, or_and_right, exists_or]

/-- A lexeme of a literal is one comma or more in the mask. -/
theorem occursIn_of_not_code {l : Lexeme} (hl : l.isCode = false) {ls : List Lexeme} {mask : Text}
    (h : OccursIn (segmentsOf ls) ↔ foreignConstruct.occurs mask) (x : Text) :
    OccursIn (segmentsOf (x.map .code ++ l :: ls)) ↔
      foreignConstruct.occurs (x ++ ',' :: mask) := by
  obtain ⟨t, rest, hbefore, hrest⟩ := exists_before_of_not_code hl (segmentsOf ls)
  have hsegs : segmentsOf (l :: ls) = .literal t :: rest := hbefore
  rw [occursIn_code_append (by simp [hsegs]), hsegs, occursIn_cons_literal, hrest, h,
    occurs_append_cons (by simp), occurs_append_comma, Bool.or_eq_true]

/-- **Constructs in code** are those of the mask; `x` is the run of code before. -/
theorem occursIn_iff {mark : Option Char} {ls : List Lexeme} (h : Lexed .standard mark ls)
    (hmark : mark.all isQuote) (x : Text) :
    OccursIn (segmentsOf (x.map .code ++ ls)) ↔
      foreignConstruct.occurs (x ++ codeMask mark (ls.flatMap Lexeme.text)) := by
  induction h generalizing x with
  | nil =>
    rw [occursIn_code_append (by simp [segmentsOf])]
    simp [OccursIn, segmentsOf, codeMask]
  | @code c ls hc _ ih =>
    have hmap : x.map .code ++ Lexeme.code c :: ls = (x ++ [c]).map .code ++ ls := by simp
    rw [hmap, ih rfl, List.flatMap_cons, codeMask_append]
    simp [Lexeme.text, codeMask, hc, markStep]
  | opening hc _ ih =>
    have hsegs := ih (by simpa using hc) []
    rw [occursIn_of_not_code rfl (by simpa using hsegs)]
    simp [Lexeme.text, codeMask, hc, markStep]
  | inside _ hc _ ih =>
    have hsegs := ih hmark []
    rw [occursIn_of_not_code rfl (by simpa using hsegs)]
    simp [Lexeme.text, codeMask, hc, markStep]
  | doubled _ _ ih =>
    have hm : isQuote _ := hmark
    have hsegs := ih hmark []
    rw [occursIn_of_not_code rfl (by rw [occurs_cons_comma]; simpa using hsegs)]
    simp [Lexeme.text, codeMask, hm, markStep]
  | escape he | escapeAtEnd he => simp [Escapes.escapes_standard] at he
  | closing _ _ _ ih =>
    have hm : isQuote _ := hmark
    have hsegs := ih rfl []
    rw [occursIn_of_not_code rfl (by simpa using hsegs)]
    simp [Lexeme.text, codeMask, hm, markStep]

/-- A segment is marked just if it is code with a construct. -/
theorem isSome_segmentMarker?_iff (seg : Segment) :
    (segmentMarker? seg).isSome ↔ ∃ t, seg = .code t ∧ foreignConstruct.occurs t := by
  cases seg with
  | code t => simp [segmentMarker?, occurs]
  | literal t => simp [segmentMarker?]

/-- **What is left on a line** is a construct in its code, unless it is a comment or row data. -/
theorem isSome_marker?_iff {line : Text} : (marker? line).isSome ↔
    isComment line = false ∧ isData line = false ∧
      foreignConstruct.occurs (codeMask none line) := by
  have hmask := occursIn_iff (Literal.lexed_lexemes .standard line) rfl []
  rw [Literal.flatMap_text_lexemes] at hmask
  have hsegs : ((segments .standard line).findSome? segmentMarker?).isSome ↔
      OccursIn (segments .standard line) := by
    rw [List.isSome_findSome?, List.any_eq_true]
    simp only [isSome_segmentMarker?_iff, OccursIn]
    constructor
    · rintro ⟨_, hmem, t, rfl, hoccurs⟩
      exact ⟨t, hmem, hoccurs⟩
    · rintro ⟨t, hmem, hoccurs⟩
      exact ⟨_, hmem, t, rfl, hoccurs⟩
  unfold marker?
  split
  · next hline =>
    refine ⟨by simp, ?_⟩
    rintro ⟨hcomment, hdata, -⟩
    simp [hcomment, hdata] at hline
  · next hline =>
    rw [Bool.or_eq_true, not_or, Bool.not_eq_true, Bool.not_eq_true] at hline
    rw [hsegs, Literal.segments_eq_segmentsOf]
    simpa [hline] using hmask

/-! ## Words that are no constructs -/

/-- A word on its own is no construct if none starts as it does, and none starts inside a word
with one of its characters. -/
theorem occurs_word {word : Text} (hlead : foreignConstruct.leadsIn (word.take 1) = false)
    (hinside : foreignConstruct.startsInside word = false) (hword : ∀ c ∈ word, isWord c)
    (hs : ∀ c ∈ s, isBlank c) (ht : ∀ c ∈ t, isBlank c) (hc : c ∈ [',', ')']) :
    foreignConstruct.occurs (s ++ (word ++ (t ++ [c]))) = false := by
  have hquiet : foreignConstruct.leadsIn (blankChars ++ [',', ')']) = false := by decide
  have hfirst : ∀ {before : Option Char} {d : Char} {x rest : Text} {ds : List Char},
      foreignConstruct.Takes before (d :: x) rest → d ∈ ds → foreignConstruct.leadsIn ds :=
    fun h hd => leadsIn_of_takes (s := []) h (by simp) hd
  cases hoccurs : foreignConstruct.occurs (s ++ (word ++ (t ++ [c]))) with
  | false => rfl
  | true =>
    obtain ⟨u, _, hsplit, x, rest, rfl, htakes⟩ := occurs_iff.mp hoccurs
    cases x with
    | nil => exact absurd (nullable_of_takes htakes) (by simp [nullable_foreignConstruct])
    | cons d x =>
      have hblank : ∀ {ds : Text}, (∀ c ∈ ds, isBlank c) → d ∉ ds := by
        intro ds hds hd
        have hlead :=
          hfirst htakes (List.mem_append_left [',', ')'] (Text.mem_blankChars (hds d hd)))
        simp [hquiet] at hlead
      have hsep : d ≠ c := by
        rintro rfl
        have hlead := hfirst htakes (List.mem_append_right blankChars hc)
        simp [hquiet] at hlead
      rcases append_cons_split hsplit.symm with ⟨x', rfl⟩ | ⟨u', rfl, hrest⟩
      · exact absurd (by simp) (hblank hs)
      rcases append_cons_split hrest.symm with ⟨x', rfl⟩ | ⟨u'', rfl, hafter⟩
      · -- The construct starts with the word or inside it.
        rcases List.eq_nil_or_concat u' with rfl | ⟨u', e, rfl⟩
        · have hlead' : foreignConstruct.leadsIn [d] := hfirst htakes (by simp)
          simp [hlead'] at hlead
        · have hbefore : (s ++ u'.concat e).getLast?.any isWord := by
            simpa using hword e (by simp)
          have hstart : foreignConstruct.startsInside (u'.concat e ++ d :: x') :=
            startsInside_of_takes htakes hbefore (hword d (by simp)) (by simp)
          rw [hinside] at hstart
          cases hstart
      · have hd : d ∈ t ++ [c] := hafter ▸ by simp
        rcases List.mem_append.mp hd with hd | hd
        · exact absurd hd (hblank ht)
        · exact absurd (List.mem_singleton.mp hd) hsep

end DumpBridge.Line
