import DumpBridge.Proofs.Literal.Pairs
import DumpBridge.Proofs.Rows.Tuples

/-!
# A fresh search for each tuple

`coerceTuples` goes over the lexemes of a text once.  `restartFrom` reads the same
tuples by offsets, with a cursor behind the last one: it looks for the next opening
parenthesis in the text that is left, and for the one that closes it in the whole
text.  Each of these searches starts the scan anew, outside literals.

`tuples_restartFrom` says that this gives the same tuples, and
`mem_pairs_of_mem_parens` that it uses no parentheses but those that one scan of the
whole text sees match.
-/

namespace DumpBridge.Rows

open Literal (Lexeme lexemes Balanced OutsideAt SeenAt pairs openingByte? closingByte?
  lexemes_code lexemes_parenthesised flatMap_text_lexemes markAfter markAfter_append outsideAt_iff
  Quoting closing?)
open Text (byteLength byteLength_append byteLength_cons charIndexFrom suffixAt slice
  suffixAt_append slice_append)

/-- What a reading by offsets gives. -/
structure Restarted where
  /-- The byte offsets of the parentheses around each tuple. -/
  parens : List (Nat × Nat)
  tuples : Tuples

/-- Reads the tuples from byte `cursor` on, with a search for each parenthesis. -/
def restartFrom (targets : Positions) (t : Text) (cursor : Nat) : Restarted :=
  match openingByte? .standard (suffixAt t cursor) 0 with
  | none => ⟨[], suffixAt t cursor, 0, none⟩
  | some distance =>
    let start := cursor + distance
    if (slice t cursor start).all isGapChar then
      match _h : closingByte? .standard t start with
      | none => ⟨[], suffixAt t cursor, 0, some (suffixAt t start)⟩
      | some stop =>
        let coerced := coerceItems targets (Literal.items .standard (slice t (start + 1) stop))
        let further := restartFrom targets t (stop + 1)
        ⟨(start, stop) :: further.parens,
          further.tuples.after
            (slice t cursor start ++ '(' :: (Text.join [','] coerced.1 ++ [')'])) coerced.2⟩
    else ⟨[], suffixAt t cursor, 0, none⟩
termination_by byteLength t - cursor
decreasing_by
  have hstop := Literal.lt_of_closingByte? _h
  omega

variable {targets : Positions} {t before s rest gap : Text}

/-! ## One search -/

theorem lexemes_gap (hgap : ∀ c ∈ gap, isGapChar c) (s : Text) :
    lexemes .standard (gap ++ s) = gap.map .code ++ lexemes .standard s :=
  Literal.lexemes_code_append (fun c hc => isQuote_of_isGapChar (hgap c hc)) s

/-- Behind a gap the search finds the parenthesis that stands there. -/
theorem openingByte?_gap (hgap : ∀ c ∈ gap, isGapChar c) (s : Text) :
    openingByte? .standard (gap ++ '(' :: s) 0 = some (byteLength gap) := by
  have hzero : charIndexFrom (gap ++ '(' :: s) 0 = 0 := by cases gap <;> rfl
  have hfirst : Literal.openingFrom 0 (gap.map .code ++ .code '(' :: lexemes .standard s) =
      some gap.length := by
    induction gap with
    | nil => rfl
    | cons c gap ih =>
      obtain ⟨hc, hgap⟩ := List.forall_mem_cons.mp hgap
      have hparen : c ≠ '(' := by
        rintro rfl
        simp [isGapChar, Text.isAsciiBlank] at hc
      have hrest : charIndexFrom (gap ++ '(' :: s) 0 = 0 := by cases gap <;> rfl
      simp [Literal.openingFrom, hparen, ih hgap hrest]
  rw [openingByte?, Literal.opening?, hzero, lexemes_gap hgap, lexemes_code (by decide), hfirst,
    Option.map_some, Text.byteOffset, List.take_left]

/-- What the search finds is a parenthesis. -/
theorem exists_of_openingByte? {n : Nat} (h : openingByte? .standard s 0 = some n) :
    ∃ x u, s = x ++ '(' :: u ∧ byteLength x = n := by
  have hfound : ∀ (ls : List Lexeme) (skip k : Nat), Literal.openingFrom skip ls = some k →
      ∃ x u, ls.flatMap Lexeme.text = x ++ '(' :: u ∧ x.length = k := by
    intro ls
    induction ls with
    | nil => simp [Literal.openingFrom]
    | cons l ls ih =>
      intro skip k hk
      by_cases hl : l = .code '(' ∧ skip = 0
      · obtain ⟨rfl, rfl⟩ := hl
        obtain rfl : 0 = k := by simpa [Literal.openingFrom] using hk
        exact ⟨[], _, rfl, rfl⟩
      · have hnext : ∃ skip, (Literal.openingFrom skip ls).map (· + l.text.length) = some k := by
          cases l with
          | code c =>
            refine ⟨skip - 1, ?_⟩
            have hnot : ¬ (c = '(' ∧ skip = 0) := by simpa using hl
            simpa [Literal.openingFrom, hnot, Lexeme.text] using hk
          | opening | inside | pair | closing => exact ⟨_, hk⟩
        obtain ⟨skip', hnext⟩ := hnext
        obtain ⟨k', hk', rfl⟩ := Option.map_eq_some_iff.mp hnext
        obtain ⟨x, u, htext, rfl⟩ := ih skip' k' hk'
        exact ⟨l.text ++ x, u, by simp [htext], by simp [Nat.add_comm]⟩
  obtain ⟨k, hk, rfl⟩ := Option.map_eq_some_iff.mp h
  obtain ⟨x, u, htext, rfl⟩ := hfound _ _ k hk
  rw [flatMap_text_lexemes] at htext
  exact ⟨x, u, htext, by rw [htext, Text.byteOffset, List.take_left]⟩

/-- **A parenthesis behind a gap** is where the reading goes on or ends. -/
theorem restartFrom_gap (targets : Positions) (before u : Text) (hgap : ∀ c ∈ gap, isGapChar c) :
    restartFrom targets (before ++ (gap ++ '(' :: u)) (byteLength before) =
      match closingByte? .standard (before ++ (gap ++ '(' :: u)) (byteLength (before ++ gap)) with
      | none => ⟨[], gap ++ '(' :: u, 0, some ('(' :: u)⟩
      | some stop =>
        let coerced := coerceItems targets (Literal.items .standard
          (slice (before ++ (gap ++ '(' :: u)) (byteLength (before ++ gap) + 1) stop))
        let further := restartFrom targets (before ++ (gap ++ '(' :: u)) (stop + 1)
        ⟨(byteLength (before ++ gap), stop) :: further.parens,
          further.tuples.after (gap ++ '(' :: (Text.join [','] coerced.1 ++ [')'])) coerced.2⟩ := by
  have hplain : gap.all isGapChar := List.all_eq_true.mpr hgap
  have hsuffix : suffixAt (before ++ (gap ++ '(' :: u)) (byteLength (before ++ gap)) =
      '(' :: u := by
    rw [← List.append_assoc, suffixAt_append]
  rw [byteLength_append] at hsuffix ⊢
  rw [restartFrom, suffixAt_append, openingByte?_gap hgap]
  simp only [slice_append, hplain, if_true]
  split
  · next hnone => rw [hnone, hsuffix]
  · next stop hsome => rw [hsome]

/-! ## One row -/

/-- The byte offsets of the parentheses of a row that stands behind `before`. -/
def Row.parens (row : Row) (before : Text) : Nat × Nat :=
  (byteLength (before ++ row.gap), byteLength (before ++ row.gap) + byteLength ('(' :: row.inner))

theorem Row.text_append (row : Row) (s : Text) :
    row.text ++ s = row.gap ++ '(' :: (row.inner ++ ')' :: s) := by
  simp [row.text_eq]

/-- A row's parentheses match. -/
theorem closingByte?_row (row : Row) (before s : Text) :
    closingByte? .standard (before ++ (row.text ++ s)) (row.parens before).1 =
      some (row.parens before).2 :=
  Literal.closingByte?_eq_some_iff_balanced.mpr
    ⟨before ++ row.gap, row.inner, s, by simp [row.text_append], rfl, row.balanced, rfl⟩

/-- **A row** is read by its own parentheses. -/
theorem restartFrom_row (targets : Positions) (before : Text) (row : Row) (s : Text) :
    let coerced := coerceItems targets (Literal.items .standard row.inner)
    let further := restartFrom targets ((before ++ row.text) ++ s) (byteLength (before ++ row.text))
    restartFrom targets (before ++ (row.text ++ s)) (byteLength before) =
      ⟨row.parens before :: further.parens,
        further.tuples.after (row.gap ++ '(' :: (Text.join [','] coerced.1 ++ [')']))
          coerced.2⟩ := by
  have hone : ∀ c : Char, c.utf8Size = 1 → byteLength [c] = 1 := fun c hc => hc
  -- The inside of the tuple stands between the two offsets, and the next search starts behind them.
  have hinner : slice (before ++ (row.text ++ s)) (byteLength (before ++ row.gap) + 1)
      (row.parens before).2 = row.inner := by
    have hcut : before ++ (row.text ++ s) =
        (before ++ row.gap ++ ['(']) ++ (row.inner ++ ')' :: s) := by simp [row.text_append]
    have hfrom : byteLength (before ++ row.gap) + 1 = byteLength (before ++ row.gap ++ ['(']) := by
      rw [byteLength_append (before ++ row.gap), hone '(' rfl]
    have hto : (row.parens before).2 =
        byteLength (before ++ row.gap ++ ['(']) + byteLength row.inner := by
      rw [← hfrom, Nat.add_assoc]
      rfl
    rw [hcut, hfrom, hto, slice_append]
  have hnext : (row.parens before).2 + 1 = byteLength (before ++ row.text) := by
    rw [row.text_eq, ← List.append_assoc, ← List.cons_append, byteLength_append (before ++ row.gap),
      byteLength_append ('(' :: row.inner), hone ')' rfl, ← Nat.add_assoc]
    rfl
  have hclosing := closingByte?_row row before s
  rw [row.text_append] at hclosing hinner ⊢
  rw [restartFrom_gap targets before _ row.gap_plain]
  change closingByte? _ _ (byteLength (before ++ row.gap)) = _ at hclosing
  simp only [hclosing, hinner, hnext]
  rw [← row.text_append, ← List.append_assoc]
  rfl

/-- **Behind the last row** the reading stops. -/
theorem restartFrom_rest (targets : Positions) (before : Text)
    (hrest : ∀ (row : Row) (more : Text), rest ≠ row.text ++ more) :
    restartFrom targets (before ++ rest) (byteLength before) = ⟨[], rest, 0, unclosed rest⟩ := by
  have hplain : ∀ c ∈ rest.takeWhile isGapChar, isGapChar c := by
    intro c hc
    exact List.all_eq_true.mp List.all_takeWhile c hc
  cases hopens : Text.startsWith '(' (rest.dropWhile isGapChar) with
  | true =>
    -- A parenthesis stands behind the gap, and nothing closes it.
    obtain ⟨u, hu⟩ : ∃ u, rest.dropWhile isGapChar = '(' :: u := by
      cases hdrop : rest.dropWhile isGapChar with
      | nil => simp [hdrop, Text.startsWith] at hopens
      | cons c u => exact ⟨u, by simpa [hdrop, Text.startsWith] using hopens⟩
    have hcut : rest = rest.takeWhile isGapChar ++ '(' :: u := by
      rw [← hu, List.takeWhile_append_dropWhile]
    have hunclosed : unclosed rest = some ('(' :: u) := by
      rw [unclosed, hu]
      simp [Text.startsWith]
    rw [hunclosed]
    generalize rest.takeWhile isGapChar = gap at hplain hcut
    subst hcut
    rw [restartFrom_gap targets before u hplain, ← List.append_assoc, Literal.closingByte?_append]
    cases hfound : closing? .standard ('(' :: u) with
    | none => rfl
    | some n =>
      obtain ⟨inner, more, hbalanced, hinner⟩ := Literal.balanced_of_closing? hfound
      refine absurd ?_ (hrest ⟨gap, inner, hplain, hinner⟩ more)
      rw [hbalanced, Row.text_append]
  | false =>
    have hunclosed : unclosed rest = none := by simp [unclosed, hopens]
    rw [restartFrom, suffixAt_append, hunclosed]
    cases hopening : openingByte? .standard rest 0 with
    | none => rfl
    | some n =>
      obtain ⟨x, u, rfl, rfl⟩ := exists_of_openingByte? hopening
      -- The text before that parenthesis is no gap, or the gap would end there.
      have hother : x.all isGapChar = false := by
        refine Bool.eq_false_iff.mpr fun hall => ?_
        rw [List.dropWhile_append_of_pos (List.all_eq_true.mp hall)] at hopens
        simp [Text.startsWith, isGapChar, Text.isAsciiBlank] at hopens
      simp [slice_append, hother]

/-! ## All rows -/

/-- **The tuples are the same** as in one pass over the lexemes. -/
theorem tuples_restartFrom (targets : Positions) (before s : Text) :
    (restartFrom targets (before ++ s) (byteLength before)).tuples = coerceTuples targets s := by
  obtain ⟨rows, rest, rfl, hlongest⟩ := exists_reads s
  induction rows generalizing before with
  | nil =>
    rw [List.flatMap_nil, List.nil_append, restartFrom_rest targets before hlongest,
      coerceTuples_rest hlongest]
  | cons row rows ih =>
    have hrow := ih (before ++ row.text)
    rw [List.flatMap_cons, List.append_assoc, restartFrom_row]
    simp only [hrow]
    rw [row.text_append, coerceTuples_gap row.gap_plain, coerceTuples_tuple row.balanced]
    simp [Tuples.after]

/-- Where a row begins outside literals, its parenthesis is seen there, and it ends
outside literals. -/
theorem outsideAt_row {row : Row}
    (h : OutsideAt .standard (before ++ (row.text ++ s)) (byteLength before)) :
    SeenAt .standard (before ++ (row.text ++ s)) (.code '(') (row.parens before).1 ∧
      OutsideAt .standard ((before ++ row.text) ++ s) (byteLength (before ++ row.text)) := by
  obtain ⟨hcut, hmark⟩ := outsideAt_iff.mp h
  have hrow : lexemes .standard (row.text ++ s) = row.gap.map Lexeme.code ++ Lexeme.code '(' ::
        (lexemes .standard row.inner ++ Lexeme.code ')' :: lexemes .standard s) := by
    rw [row.text_append, lexemes_gap row.gap_plain, lexemes_parenthesised row.balanced]
  rw [hrow] at hcut
  constructor
  · refine ⟨lexemes .standard before ++ row.gap.map .code,
      lexemes .standard row.inner ++ Lexeme.code ')' :: lexemes .standard s, ?_, ?_⟩
    · rw [hcut, List.append_assoc]
    · rw [List.flatMap_append, flatMap_text_lexemes, Literal.flatMap_text_code]
      rfl
  · refine ⟨lexemes .standard before ++ (row.gap.map .code ++ Lexeme.code '(' ::
      (lexemes .standard row.inner ++ [Lexeme.code ')'])), lexemes .standard s, ?_, ?_, ?_⟩
    · rw [List.append_assoc, hcut]
      simp
    · rw [← List.cons_append, ← List.append_assoc, ← List.append_assoc, markAfter_append]
      rfl
    · rw [List.flatMap_append, flatMap_text_lexemes, List.flatMap_append, Literal.flatMap_text_code,
        List.flatMap_cons, List.flatMap_append, flatMap_text_lexemes, row.text_eq]
      rfl

/-- **The parentheses are the same** as in one scan of the whole text. -/
theorem mem_pairs_of_mem_parens (h : OutsideAt .standard (before ++ s) (byteLength before))
    {pair : Nat × Nat}
    (hpair : pair ∈ (restartFrom targets (before ++ s) (byteLength before)).parens) :
    pair ∈ pairs .standard (before ++ s) := by
  obtain ⟨rows, rest, rfl, hlongest⟩ := exists_reads s
  induction rows generalizing before with
  | nil =>
    rw [List.flatMap_nil, List.nil_append, restartFrom_rest targets before hlongest] at hpair
    simp at hpair
  | cons row rows ih =>
    rw [List.flatMap_cons, List.append_assoc] at h hpair ⊢
    rw [restartFrom_row] at hpair
    obtain ⟨hseen, houtside⟩ := outsideAt_row h
    rcases List.mem_cons.mp hpair with rfl | hpair
    · exact (Literal.closingByte?_eq_some_iff_mem_pairs hseen).mp (closingByte?_row row before _)
    · have hlater := ih houtside hpair
      rwa [List.append_assoc] at hlater

/-- **Starting a search anew is harmless.** From a place outside literals the next opening
parenthesis is the one that a search in the rest of the text finds.  What closes an opening
parenthesis is what one scan of the whole text sees close it.  So a reading of tuples by
offsets, with a search for each parenthesis, gives the same as one pass, and uses no
parenthesis but those that match outside literals. -/
theorem restartFrom_agrees (q : Quoting) (t : Text) :
    (∀ k, OutsideAt q t k → openingByte? q t k = (openingByte? q (suffixAt t k) 0).map (k + ·)) ∧
      (∀ p, SeenAt q t (.code '(') p → ∀ c, closingByte? q t p = some c ↔ (p, c) ∈ pairs q t) ∧
      ∀ targets, (restartFrom targets t 0).tuples = coerceTuples targets t ∧
        ∀ p c, (p, c) ∈ (restartFrom targets t 0).parens → (p, c) ∈ pairs .standard t ∧
          SeenAt .standard t (.code '(') p ∧ SeenAt .standard t (.code ')') c := by
  refine ⟨?_, fun p hp c => Literal.closingByte?_eq_some_iff_mem_pairs hp, fun targets => ⟨?_, ?_⟩⟩
  · intro k h
    obtain ⟨before, s, rfl, rfl⟩ := Literal.exists_of_outsideAt h
    rw [suffixAt_append]
    exact Literal.openingByte?_append h
  · exact tuples_restartFrom targets [] t
  · intro p c hpair
    have hstart : OutsideAt .standard ([] ++ t) (byteLength []) := ⟨[], _, rfl, rfl, rfl⟩
    have hmem := mem_pairs_of_mem_parens hstart hpair
    exact ⟨hmem, Literal.seenAt_of_mem_pairs hmem⟩

end DumpBridge.Rows
