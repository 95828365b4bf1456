import DumpBridge.Proofs.Enum.Spans
import DumpBridge.Proofs.Literal.Matching

/-!
# The search for enumerations

The enumerations of a line can be looked for round by round: from a byte on, the next word and
parenthesis, then the parenthesis that closes it, and the next round begins behind that one
(`Search.step?`).  Every round gets further and stays on the line (`Search.next_lt_of_step?`), so
the search ends, and what it finds are the enumerations among the pieces of the line
(`Search.ends_places`).  They stand one behind the other (`pairwise_placesFrom`), each up to the
parenthesis that closes it (`isWritten_of_mem_places`).

Naming enumerations is then splicing: the bytes between the named ones are kept
(`exists_cuts`, `splice_of_cuts`).
-/

namespace DumpBridge

open Text (Pattern byteLength byteLength_append slice suffixAt)
open Text.Pattern
open Literal

/-! ## The next match -/

namespace Text.Pattern

variable {p : Pattern} {before : Option Char} {t skipped : Text} {stop : Cursor}

/-- The search for a match that fails has passed over the whole text. -/
theorem passes_of_findAfter_eq_none (h : p.findAfter before t = none) : p.Passes before t [] := by
  induction t generalizing before with
  | nil => trivial
  | cons c t ih =>
    rw [findAfter] at h
    cases hmatch : p.matchAfter before (c :: t) with
    | some stop => simp [hmatch] at h
    | none =>
      simp only [hmatch, Option.map_eq_none_iff] at h
      refine ⟨?_, ih h⟩
      rw [List.append_nil]
      exact matchAfter_eq_none_iff.mp hmatch

/-- The first match is behind a text that is passed over. -/
theorem passes_of_findAfter (h : p.findAfter before t = some (skipped, stop)) :
    ∃ rest, t = skipped ++ rest ∧ p.Passes before skipped rest ∧
      p.matchAfter (skipped.getLast?.or before) rest = some stop := by
  induction t generalizing before skipped with
  | nil =>
    rw [findAfter, Option.map_eq_some_iff] at h
    obtain ⟨found, hfound, hpair⟩ := h
    obtain ⟨rfl, rfl⟩ := Prod.mk.inj hpair
    exact ⟨[], rfl, trivial, by simpa using hfound⟩
  | cons c t ih =>
    rw [findAfter] at h
    cases hmatch : p.matchAfter before (c :: t) with
    | some found =>
      simp only [hmatch, Option.some.injEq, Prod.mk.injEq] at h
      obtain ⟨rfl, rfl⟩ := h
      exact ⟨c :: t, rfl, trivial, by simpa using hmatch⟩
    | none =>
      simp only [hmatch, Option.map_eq_some_iff, Prod.mk.injEq] at h
      obtain ⟨found, hfound, rfl, rfl⟩ := h
      obtain ⟨rest, rfl, hpasses, hrest⟩ := ih hfound
      refine ⟨rest, rfl, ⟨matchAfter_eq_none_iff.mp hmatch, hpasses⟩, ?_⟩
      rw [getLast?_cons_or]
      exact hrest

end Text.Pattern

/-! ## Places -/

namespace EnumType

/-- An enumeration on a line: its first byte, the byte behind it, and its values. -/
structure Place where
  start : Nat
  stop : Nat
  values : List Text
  deriving DecidableEq, Repr

/-- The enumeration that a piece at byte `i` is, if it is one. -/
def placeOf (q : Quoting) (i : Nat) (piece : Piece) : List Place :=
  ((pieceValues? q piece).map (Place.mk i (i + byteLength piece.text))).toList

/-- The enumerations among pieces, the first of which starts at byte `i`. -/
def placesFrom (q : Quoting) : Nat → List Piece → List Place
  | _, [] => []
  | i, piece :: ps => placeOf q i piece ++ placesFrom q (i + byteLength piece.text) ps

/-- The enumerations on a line. -/
def places (q : Quoting) (line : Text) : List Place :=
  placesFrom q 0 (pieces q opener line)

/-- The place holds an enumeration: the word with its parenthesis starts there, and right before
its end is the parenthesis that closes this one; the values stand between. -/
def Place.IsWritten (q : Quoting) (line : Text) (place : Place) : Prop :=
  ∃ before word inner rest, line = before ++ (word ++ '(' :: (inner ++ ')' :: rest)) ∧
    opener.Takes before.getLast? (word ++ ['(']) (inner ++ ')' :: rest) ∧
    place.start = byteLength before ∧
    closingByte? q line (byteLength (before ++ word)) =
      some (byteLength (before ++ word ++ '(' :: inner)) ∧
    place.stop = byteLength (before ++ word ++ '(' :: inner) + 1 ∧
    valueList? q inner = some place.values

variable {q : Quoting} {line a b t x : Text} {ps : List Piece} {place : Place} {i : Nat}
  {before : Option Char} {found : List Place}

/-- The place of a piece is where it starts and stops, if it has values. -/
theorem mem_placeOf {piece : Piece} : place ∈ placeOf q i piece ↔
    pieceValues? q piece = some place.values ∧ place.start = i ∧
      place.stop = i + byteLength piece.text := by
  rw [placeOf, Option.mem_toList]
  constructor
  · intro h
    obtain ⟨values, hvalues, rfl⟩ := Option.map_eq_some_iff.mp h
    exact ⟨hvalues, rfl, rfl⟩
  · intro ⟨hvalues, hstart, hstop⟩
    rw [hvalues, ← hstop, ← hstart]
    rfl

/-- The places have the values of the pieces. -/
theorem map_values_placesFrom (q : Quoting) (i : Nat) (ps : List Piece) :
    (placesFrom q i ps).map Place.values = ps.filterMap (pieceValues? q) := by
  induction ps generalizing i with
  | nil => rfl
  | cons piece ps ih =>
    rw [placesFrom, placeOf, List.map_append, ih, List.filterMap_cons]
    cases pieceValues? q piece <;> rfl

/-- Each place is that of a piece. -/
theorem mem_placesFrom (h : place ∈ placesFrom q i ps) :
    ∃ (front : List Piece) (piece : Piece) (back : List Piece), ps = front ++ piece :: back ∧
      place ∈ placeOf q (i + byteLength (front.flatMap Piece.text)) piece := by
  induction ps generalizing i with
  | nil => simp [placesFrom] at h
  | cons piece ps ih =>
    rw [placesFrom, List.mem_append] at h
    rcases h with h | h
    · exact ⟨[], piece, ps, rfl, h⟩
    · obtain ⟨front, piece', back, rfl, hplace⟩ := ih h
      refine ⟨piece :: front, piece', back, rfl, ?_⟩
      rwa [List.flatMap_cons, byteLength_append, ← Nat.add_assoc]

/-- A piece with values is not empty. -/
theorem byteLength_text_pos {piece : Piece} {values : List Text}
    (h : pieceValues? q piece = some values) : 0 < byteLength piece.text := by
  cases piece with
  | plain t => simp [pieceValues?] at h
  | call head inner =>
    have hparen : byteLength [')'] = 1 := rfl
    rw [Piece.text, byteLength_append, hparen]
    omega

/-- An enumeration among pieces is not empty and within their bytes. -/
theorem bounds_of_mem_placesFrom (h : place ∈ placesFrom q i ps) :
    i ≤ place.start ∧ place.start < place.stop ∧
      place.stop ≤ i + byteLength (ps.flatMap Piece.text) := by
  obtain ⟨front, piece, back, rfl, hplace⟩ := mem_placesFrom h
  obtain ⟨hvalues, hstart, hstop⟩ := mem_placeOf.mp hplace
  have hpos := byteLength_text_pos hvalues
  rw [List.flatMap_append, List.flatMap_cons, byteLength_append, byteLength_append]
  omega

/-- **Enumerations stand one behind the other.** -/
theorem pairwise_placesFrom (q : Quoting) (i : Nat) (ps : List Piece) :
    (placesFrom q i ps).Pairwise fun place place' => place.stop ≤ place'.start := by
  induction ps generalizing i with
  | nil => exact List.Pairwise.nil
  | cons piece ps ih =>
    rw [placesFrom, List.pairwise_append]
    refine ⟨?_, ih _, ?_⟩
    · rw [placeOf]
      cases pieceValues? q piece <;> simp
    · intro place hplace place' hplace'
      rw [(mem_placeOf.mp hplace).2.2]
      exact (bounds_of_mem_placesFrom hplace').1

/-- The pieces of a line are the line. -/
theorem flatMap_text_pieces (q : Quoting) (line : Text) :
    (pieces q opener line).flatMap Piece.text = line :=
  flatMap_text_piecesFrom Enumeration.isKeyword_enum none line

/-- The bytes of a call, up to its last parenthesis and with it. -/
theorem byteLength_call (word inner : Text) :
    byteLength (Piece.call (word ++ ['(']) inner).text =
      byteLength word + byteLength ('(' :: inner) + 1 := by
  have hsplit : (Piece.call (word ++ ['(']) inner).text = word ++ '(' :: inner ++ [')'] := by
    simp [Piece.text]
  rw [hsplit, byteLength_append, byteLength_append]
  rfl

/-- What opens an enumeration ends with a parenthesis. -/
theorem exists_concat_of_takes_opener {head : Text} (h : opener.Takes before head t) :
    ∃ word, head = word ++ ['('] := by
  obtain ⟨-, w, gap, rfl, -, -⟩ := (takes_callOpener Enumeration.isKeyword_enum).mp h
  exact ⟨w ++ gap, by rw [List.append_assoc]⟩

/-- **An enumeration ends** behind the parenthesis that closes its own. -/
theorem isWritten_of_mem_places (h : place ∈ places q line) : place.IsWritten q line := by
  obtain ⟨front, piece, back, hpieces, hplace⟩ := mem_placesFrom h
  obtain ⟨hvalues, hstart, hstop⟩ := mem_placeOf.mp hplace
  cases piece with
  | plain t => simp [pieceValues?] at hvalues
  | call head inner =>
    obtain ⟨rest, hlooks, hcall⟩ :=
      (pieces_eq_append_iff Enumeration.isKeyword_enum).mp ⟨front, back, hpieces, rfl⟩
    obtain ⟨word, rfl⟩ := exists_concat_of_takes_opener hcall.opens
    have hline : line = front.flatMap Piece.text ++ (word ++ '(' :: (inner ++ ')' :: rest)) := by
      have happend := hlooks.append
      rwa [List.append_assoc, List.singleton_append] at happend
    refine ⟨_, word, inner, rest, hline, hcall.opens, by omega, ?_, ?_, hvalues⟩
    · refine closingByte?_eq_some_iff_balanced.mpr
        ⟨_, inner, rest, ?_, rfl, hcall.balanced, byteLength_append _ _⟩
      rw [List.append_assoc]
      exact hline
    · rw [hstop, byteLength_call, byteLength_append, byteLength_append]
      omega

/-! ## The search -/

/-- From byte `i` on, the first byte of the next word with a parenthesis, and the byte of the
parenthesis. -/
def nextOpening? (line : Text) (i : Nat) : Option (Nat × Nat) :=
  (opener.findAfter (line.take (line.charIndexFrom i)).getLast? (suffixAt line i)).map fun found =>
    (i + byteLength found.1,
      i + byteLength found.1 +
        byteLength (((suffixAt line i).drop found.1.length).take found.2.taken) - 1)

/-- A search for enumerations: the byte where it goes on, and what it has found. -/
structure Search where
  next : Nat
  found : List Place

/-- One round of the search.  There is none if no word with a parenthesis is left, or if its
parenthesis is not closed. -/
def Search.step? (q : Quoting) (line : Text) (search : Search) : Option Search := do
  let opening ← nextOpening? line search.next
  let closing ← closingByte? q line opening.2
  let values := valueList? q (slice line (opening.2 + 1) closing)
  return { next := closing + 1
           found := search.found ++ (values.map (Place.mk opening.1 (closing + 1))).toList }

/-- `search.Ends q line found`: the search comes to an end, and has then found `found`. -/
inductive Search.Ends (q : Quoting) (line : Text) : Search → List Place → Prop
  | done {search : Search} (h : search.step? q line = none) : Ends q line search search.found
  | round {search next : Search} {found : List Place} (h : search.step? q line = some next)
      (rest : Ends q line next found) : Ends q line search found

/-- **Every round gets further**, and stays on the line. -/
theorem Search.next_lt_of_step? {search next : Search} (h : search.step? q line = some next) :
    search.next < next.next ∧ next.next ≤ byteLength line := by
  simp only [Search.step?, Option.bind_eq_bind, Option.bind_eq_some_iff, Option.pure_def,
    Option.some.injEq] at h
  obtain ⟨opening, hopening, closing, hclosing, rfl⟩ := h
  obtain ⟨found, -, rfl⟩ := Option.map_eq_some_iff.mp hopening
  have hlt := lt_of_closingByte? hclosing
  dsimp only at hlt ⊢
  omega

/-- A search has one end. -/
theorem Search.Ends.unique {search : Search} {found' : List Place} (h : search.Ends q line found)
    (h' : search.Ends q line found') : found = found' := by
  induction h with
  | done hnone =>
    cases h' with
    | done => rfl
    | round hsome => simp [hnone] at hsome
  | round hsome _ ih =>
    cases h' with
    | done hnone => simp [hsome] at hnone
    | round hsome' rest =>
      obtain rfl := Option.some.inj (hsome.symm.trans hsome')
      exact ih rest

/-- **The next opening** behind `a`: none is left, or one stands behind a text that is passed
over. -/
theorem nextOpening?_cases (a b : Text) :
    nextOpening? (a ++ b) (byteLength a) = none ∧ opener.Passes a.getLast? b [] ∨
      ∃ k word rest, b = k ++ (word ++ '(' :: rest) ∧
        opener.Passes a.getLast? k (word ++ '(' :: rest) ∧
        opener.Takes (k.getLast?.or a.getLast?) (word ++ ['(']) rest ∧
        nextOpening? (a ++ b) (byteLength a) =
          some (byteLength (a ++ k), byteLength (a ++ k ++ word)) := by
  rw [nextOpening?, Text.suffixAt_append, Text.charIndexFrom_append, List.take_left]
  cases hfind : opener.findAfter a.getLast? b with
  | none => exact Or.inl ⟨rfl, passes_of_findAfter_eq_none hfind⟩
  | some found =>
    obtain ⟨k, stop⟩ := found
    obtain ⟨r, rfl, hpasses, hmatch⟩ := passes_of_findAfter hfind
    obtain ⟨head, hr, htaken, htakes⟩ := takes_of_matchAfter hmatch
    obtain ⟨word, rfl⟩ := exists_concat_of_takes_opener htakes
    have hcut : r = word ++ '(' :: stop.rest := by
      rw [hr, List.append_assoc, List.singleton_append]
    have hparen : byteLength ['('] = 1 := rfl
    refine Or.inr ⟨k, word, stop.rest, by rw [hcut], by rwa [← hcut], htakes, ?_⟩
    rw [Option.map_some, List.drop_left, htaken, hr, List.take_left]
    simp only [byteLength_append, hparen, Option.some.injEq, Prod.mk.injEq, true_and]
    omega

/-- A character in front moves the places. -/
theorem placesFrom_pushPlain (q : Quoting) (i : Nat) (c : Char) (ps : List Piece) :
    placesFrom q i (pushPlain c ps) = placesFrom q (i + c.utf8Size) ps := by
  fun_cases pushPlain c ps with
  | case1 t rest =>
    have hlength : i + byteLength (c :: t) = i + c.utf8Size + byteLength t := by
      rw [Text.byteLength_cons, Nat.add_assoc]
    simp only [placesFrom, placeOf, pieceValues?, Piece.text, Option.map_none, hlength]
  | case2 rest =>
    have hlength : i + byteLength [c] = i + c.utf8Size := by simp [Text.byteLength_cons]
    rw [placesFrom, Piece.text, hlength]
    rfl

/-- No enumeration starts where the search passes over. -/
theorem placesFrom_of_passes (h : opener.Passes before x t) (i : Nat) :
    placesFrom q i (piecesFrom q opener before 0 (x ++ t)) =
      placesFrom q (i + byteLength x) (piecesFrom q opener (x.getLast?.or before) 0 t) := by
  induction x generalizing before i with
  | nil => rfl
  | cons c x ih =>
    rw [List.cons_append, piecesFrom, matchAfter_eq_none_iff.mpr h.1]
    simp only
    rw [placesFrom_pushPlain, ih h.2, getLast?_cons_or, Text.byteLength_cons, Nat.add_assoc]

/-- A word whose parenthesis stays open makes the rest plain. -/
theorem piecesFrom_of_closing?_eq_none {word rest : Text}
    (hopens : opener.Takes before (word ++ ['(']) rest) (hnone : closing? q ('(' :: rest) = none) :
    piecesFrom q opener before 0 (word ++ '(' :: rest) = [.plain (word ++ '(' :: rest)] := by
  have hsplit : word ++ '(' :: rest = word ++ ['('] ++ rest := by simp
  obtain ⟨c, t, hcons⟩ : ∃ c t, word ++ '(' :: rest = c :: t :=
    List.exists_cons_of_ne_nil (by simp)
  rcases piecesFrom_cases q Enumeration.isKeyword_enum before c t with
    ⟨hfits, -⟩ | hplain | ⟨head, inner, r, hhead, hopens', hbalanced, -⟩
  · exact absurd ⟨_, rest, hcons.symm.trans hsplit, hopens⟩ hfits
  · rw [hcons]
    exact hplain
  · have hword : word ++ ['('] = head :=
      callOpener_unique Enumeration.isKeyword_enum hopens hopens'
        (hsplit.symm.trans (hcons.trans hhead))
    rw [← hcons, hsplit, ← hword, List.append_cancel_left_eq] at hhead
    rw [hhead, closing?_parenthesised hbalanced] at hnone
    exact absurd hnone (Option.some_ne_none _)

/-- Between the parentheses of a call is its list. -/
theorem slice_between (x inner rest : Text) :
    slice (x ++ '(' :: (inner ++ ')' :: rest)) (byteLength x + 1)
      (byteLength x + byteLength ('(' :: inner)) = inner := by
  have hline : x ++ '(' :: (inner ++ ')' :: rest) = x ++ ['('] ++ (inner ++ ')' :: rest) := by simp
  have hopening : byteLength x + 1 = byteLength (x ++ ['(']) := (byteLength_append x ['(']).symm
  have hclosing : byteLength x + byteLength ('(' :: inner) =
      byteLength (x ++ ['(']) + byteLength inner := by
    rw [← byteLength_append, ← byteLength_append, List.append_assoc, List.singleton_append]
  rw [hline, hopening, hclosing, Text.slice_append]

/-- There is no round where the next parenthesis stays open. -/
theorem Search.step?_of_closing?_eq_none {x word rest : Text}
    (hnext : nextOpening? (x ++ word ++ '(' :: rest) i =
      some (byteLength x, byteLength (x ++ word)))
    (hnone : closing? q ('(' :: rest) = none) :
    Search.step? q (x ++ word ++ '(' :: rest) ⟨i, found⟩ = none := by
  have hclosing : closingByte? q (x ++ word ++ '(' :: rest) (byteLength (x ++ word)) = none := by
    rw [closingByte?_append, hnone, Option.map_none]
  rw [Search.step?, hnext]
  simp only [Option.bind_eq_bind, Option.bind_some, hclosing]
  rfl

/-- Where the next parenthesis is closed, the round goes behind the call. -/
theorem Search.step?_of_balanced {x word inner rest : Text}
    (hnext : nextOpening? (x ++ word ++ '(' :: (inner ++ ')' :: rest)) i =
      some (byteLength x, byteLength (x ++ word)))
    (hbalanced : Balanced q inner) :
    Search.step? q (x ++ word ++ '(' :: (inner ++ ')' :: rest)) ⟨i, found⟩ =
      some ⟨byteLength x + byteLength (Piece.call (word ++ ['(']) inner).text,
        found ++ placeOf q (byteLength x) (.call (word ++ ['(']) inner)⟩ := by
  have hclosing : closingByte? q (x ++ word ++ '(' :: (inner ++ ')' :: rest))
      (byteLength (x ++ word)) = some (byteLength (x ++ word) + byteLength ('(' :: inner)) :=
    closingByte?_eq_some_iff_balanced.mpr ⟨_, inner, rest, rfl, rfl, hbalanced, rfl⟩
  have hstop : byteLength (x ++ word) + byteLength ('(' :: inner) + 1 =
      byteLength x + byteLength (Piece.call (word ++ ['(']) inner).text := by
    rw [byteLength_call, byteLength_append]
    omega
  rw [Search.step?, hnext]
  simp only [Option.bind_eq_bind, Option.bind_some, hclosing, slice_between, hstop]
  rfl

/-- **One round**, with `b` ahead: there is none and no enumeration is left, or it goes behind a
call and finds the enumeration that this one is, if any. -/
theorem Search.step?_cases (q : Quoting) (a b : Text) (found : List Place) :
    Search.step? q (a ++ b) ⟨byteLength a, found⟩ = none ∧
        placesFrom q (byteLength a) (piecesFrom q opener a.getLast? 0 b) = [] ∨
      ∃ k head inner rest, b = k ++ ((Piece.call head inner).text ++ rest) ∧
        Search.step? q (a ++ b) ⟨byteLength a, found⟩ =
          some ⟨byteLength (a ++ k ++ (Piece.call head inner).text),
            found ++ placeOf q (byteLength (a ++ k)) (.call head inner)⟩ ∧
        placesFrom q (byteLength a) (piecesFrom q opener a.getLast? 0 b) =
          placeOf q (byteLength (a ++ k)) (.call head inner) ++
            placesFrom q (byteLength (a ++ k ++ (Piece.call head inner).text))
              (piecesFrom q opener (some ')') 0 rest) := by
  rcases nextOpening?_cases a b with
    ⟨hnext, hpasses⟩ | ⟨k, word, r, rfl, hpasses, hopens, hnext⟩
  · refine Or.inl ⟨by rw [Search.step?, hnext]; rfl, ?_⟩
    have hplaces := placesFrom_of_passes (q := q) hpasses (byteLength a)
    rwa [List.append_nil] at hplaces
  · have hline : a ++ (k ++ (word ++ '(' :: r)) = a ++ k ++ word ++ '(' :: r := by simp
    rw [hline] at hnext ⊢
    rw [placesFrom_of_passes hpasses, ← byteLength_append]
    cases hclosing : closing? q ('(' :: r) with
    | none =>
      refine Or.inl ⟨Search.step?_of_closing?_eq_none hnext hclosing, ?_⟩
      rw [piecesFrom_of_closing?_eq_none hopens hclosing]
      rfl
    | some n =>
      obtain ⟨inner, rest, hr, hbalanced, -⟩ := closing?_eq_some_iff.mp hclosing
      obtain ⟨-, rfl⟩ := List.cons.inj hr
      have hcall := piecesFrom_call Enumeration.isKeyword_enum hopens hbalanced
      rw [List.append_assoc, List.singleton_append] at hcall
      refine Or.inr ⟨k, word ++ ['('], inner, rest, by simp [Piece.text], ?_, ?_⟩
      · rw [byteLength_append (a ++ k)]
        exact Search.step?_of_balanced hnext hbalanced
      · rw [opener, hcall, placesFrom, byteLength_append (a ++ k)]

/-- **The search ends**, and has then found what it had and the enumerations ahead. -/
theorem Search.ends_append (q : Quoting) (a b : Text) (found : List Place) :
    Search.Ends q (a ++ b) ⟨byteLength a, found⟩
      (found ++ placesFrom q (byteLength a) (piecesFrom q opener a.getLast? 0 b)) := by
  -- The induction is on the text ahead, which every round makes shorter by a call at least.
  induction hlength : b.length using Nat.strongRecOn generalizing a b found with
  | ind n ih =>
    rcases Search.step?_cases q a b found with
      ⟨hnone, hplaces⟩ | ⟨k, head, inner, rest, rfl, hstep, hplaces⟩
    · rw [hplaces, List.append_nil]
      exact Search.Ends.done hnone
    · have hshorter : rest.length < n := by
        rw [← hlength, Piece.text]
        simp
        omega
      have hlast : (a ++ k ++ (Piece.call head inner).text).getLast? = some ')' := by
        rw [Piece.text, ← List.append_assoc, List.getLast?_concat]
      have hrest := ih rest.length hshorter (a ++ k ++ (Piece.call head inner).text) rest
        (found ++ placeOf q (byteLength (a ++ k)) (.call head inner)) rfl
      have hline : a ++ k ++ (Piece.call head inner).text ++ rest =
          a ++ (k ++ ((Piece.call head inner).text ++ rest)) := by simp
      rw [hline, hlast] at hrest
      rw [hplaces, ← List.append_assoc found]
      exact Search.Ends.round hstep hrest

theorem Search.ends_places (q : Quoting) (line : Text) :
    Search.Ends q line ⟨0, []⟩ (places q line) :=
  Search.ends_append q [] line []

end EnumType

/-! ## Splicing -/

namespace EnumCatalog

open EnumType (Place Search places placesFrom placeOf)

/-- A stretch of a line, from byte `start` up to byte `stop`, and the text for it. -/
structure Patch where
  start : Nat
  stop : Nat
  text : Text
  deriving DecidableEq, Repr

/-- The name for an enumeration on a line, if the catalog has its values. -/
def patch? (catalog : EnumCatalog) (place : Place) : Option Patch :=
  (catalog.get? place.values).map fun type => ⟨place.start, place.stop, type.name⟩

/-- The names for the enumerations of a line that the catalog has. -/
def patches (catalog : EnumCatalog) (line : Text) : List Patch :=
  (places .standard line).filterMap catalog.patch?

/-- The line from byte `last` on, with the patches in it. -/
def splice (line : Text) : Nat → List Patch → Text
  | last, [] => suffixAt line last
  | last, patch :: patches =>
    slice line last patch.start ++ patch.text ++ splice line patch.stop patches

/-- The patches that replacements are, the first of which has its kept text at byte `i`. -/
def Exchange.patchesFrom : Nat → List Exchange → List Patch
  | _, [] => []
  | i, cut :: cuts =>
    ⟨i + byteLength cut.kept, i + byteLength cut.kept + byteLength cut.written, cut.name⟩ ::
      Exchange.patchesFrom (i + byteLength cut.kept + byteLength cut.written) cuts

/-- `catalog.Framed line new`: `new` is the line with names for just those enumerations that the
catalog has, and with all text before, between and behind them. -/
def Framed (catalog : EnumCatalog) (line new : Text) : Prop :=
  ∃ (cuts : List Exchange) (tail : Text),
    line = cuts.flatMap (fun cut => cut.kept ++ cut.written) ++ tail ∧
    new = cuts.flatMap (fun cut => cut.kept ++ cut.name) ++ tail ∧
    Exchange.patchesFrom 0 cuts = catalog.patches line

variable {catalog : EnumCatalog} {line new : Text}

/-- The patch that a piece at byte `i` gets. -/
theorem filterMap_placeOf (catalog : EnumCatalog) (i : Nat) (piece : Piece) :
    (placeOf .standard i piece).filterMap catalog.patch? =
      ((catalog.replacement? piece).map (Patch.mk i (i + byteLength piece.text))).toList := by
  rw [placeOf, replacement?]
  cases hvalues : EnumType.pieceValues? .standard piece with
  | none => rfl
  | some values =>
    have hpatch : catalog.patch? ⟨i, i + byteLength piece.text, values⟩ =
        (catalog.get? values).map fun type => ⟨i, i + byteLength piece.text, type.name⟩ := rfl
    rw [Option.map_some, Option.toList_some, List.filterMap_cons, hpatch]
    cases hget : catalog.get? values <;> simp [hget]

/-- **Naming the enumerations among pieces**, with kept text `k` from byte `i` on in front, makes
replacements at the places of the named ones. -/
theorem exists_cuts (catalog : EnumCatalog) (i : Nat) (k : Text) (ps : List Piece) :
    ∃ (cuts : List Exchange) (tail : Text),
      k ++ ps.flatMap Piece.text = cuts.flatMap (fun cut => cut.kept ++ cut.written) ++ tail ∧
      k ++ ps.flatMap (fun piece => (catalog.replacement? piece).getD piece.text) =
        cuts.flatMap (fun cut => cut.kept ++ cut.name) ++ tail ∧
      Exchange.patchesFrom i cuts =
        (placesFrom .standard (i + byteLength k) ps).filterMap catalog.patch? := by
  induction ps generalizing i k with
  | nil => exact ⟨[], k, by simp, by simp, rfl⟩
  | cons piece ps ih =>
    rw [placesFrom, List.filterMap_append, filterMap_placeOf]
    cases hname : catalog.replacement? piece with
    | none =>
      obtain ⟨cuts, tail, hline, hnew, hpatches⟩ := ih i (k ++ piece.text)
      rw [byteLength_append, ← Nat.add_assoc] at hpatches
      refine ⟨cuts, tail, ?_, ?_, hpatches⟩
      · rw [← hline, List.flatMap_cons, List.append_assoc]
      · rw [← hnew, List.flatMap_cons, hname, List.append_assoc]
        rfl
    | some name =>
      obtain ⟨cuts, tail, hline, hnew, hpatches⟩ :=
        ih (i + byteLength k + byteLength piece.text) []
      refine ⟨⟨k, piece.text, name⟩ :: cuts, tail, ?_, ?_, ?_⟩
      · rw [List.nil_append] at hline
        rw [List.flatMap_cons, hline]
        simp
      · rw [List.nil_append] at hnew
        rw [List.flatMap_cons, hnew, hname]
        simp
      · rw [Exchange.patchesFrom, hpatches]
        rfl

/-- **Splicing** puts the names in and keeps the text between them. -/
theorem splice_of_cuts (x : Text) (cuts : List Exchange) (tail : Text) :
    splice (x ++ (cuts.flatMap (fun cut => cut.kept ++ cut.written) ++ tail)) (byteLength x)
        (Exchange.patchesFrom (byteLength x) cuts) =
      cuts.flatMap (fun cut => cut.kept ++ cut.name) ++ tail := by
  induction cuts generalizing x with
  | nil => exact Text.suffixAt_append x tail
  | cons cut cuts ih =>
    have hrest := ih (x ++ (cut.kept ++ cut.written))
    have hstop : byteLength (x ++ (cut.kept ++ cut.written)) =
        byteLength x + byteLength cut.kept + byteLength cut.written := by
      rw [byteLength_append, byteLength_append, Nat.add_assoc]
    have hline : x ++ (cut.kept ++ cut.written) ++
        (cuts.flatMap (fun cut => cut.kept ++ cut.written) ++ tail) =
          x ++ (cut.kept ++ (cut.written ++
            (cuts.flatMap (fun cut => cut.kept ++ cut.written) ++ tail))) := by simp
    rw [hstop, hline] at hrest
    rw [List.flatMap_cons, List.flatMap_cons, List.append_assoc, List.append_assoc,
      Exchange.patchesFrom, splice, hrest, Text.slice_append]
    simp

theorem patches_eq_nil_iff (catalog : EnumCatalog) (line : Text) :
    catalog.patches line = [] ↔
      ∀ place ∈ places .standard line, catalog.get? place.values = none := by
  rw [patches, List.filterMap_eq_nil_iff]
  simp only [patch?, Option.map_eq_none_iff]

/-- A line has a piece to be named just if it has an enumeration of the catalog. -/
theorem any_replacement?_iff (catalog : EnumCatalog) (i : Nat) (ps : List Piece) :
    (ps.any fun piece => (catalog.replacement? piece).isSome) ↔
      (placesFrom .standard i ps).filterMap catalog.patch? ≠ [] := by
  induction ps generalizing i with
  | nil => simp [placesFrom]
  | cons piece ps ih =>
    rw [placesFrom, List.filterMap_append, filterMap_placeOf, List.any_cons, Bool.or_eq_true,
      ih (i + byteLength piece.text)]
    cases catalog.replacement? piece <;> simp

/-- **What naming returns**: nothing for a comment, for data and where no enumeration is to be
named, and else the pieces with the names. -/
theorem substitute?_eq (catalog : EnumCatalog) (line : Text) :
    catalog.substitute? line =
      if (Line.isComment line || Line.isData line) ∨ catalog.patches line = [] then none
      else some ((pieces .standard EnumType.opener line).flatMap fun piece =>
        (catalog.replacement? piece).getD piece.text) := by
  have hany := any_replacement?_iff catalog 0 (pieces .standard EnumType.opener line)
  unfold substitute?
  by_cases hskipped : (Line.isComment line || Line.isData line)
  · rw [if_pos hskipped, if_pos (Or.inl hskipped)]
  · rw [if_neg hskipped]
    dsimp only
    by_cases hpatches : catalog.patches line = []
    · rw [if_pos (Or.inr hpatches), if_neg (fun h => hany.mp h hpatches)]
    · rw [if_neg (not_or.mpr ⟨hskipped, hpatches⟩), if_pos (hany.mpr hpatches)]

/-- A line that naming returns is the spliced line, framed. -/
theorem splice_framed_of_substitute? (h : catalog.substitute? line = some new) :
    new = splice line 0 (catalog.patches line) ∧ catalog.Framed line new := by
  rw [substitute?_eq, Option.ite_none_left_eq_some, Option.some.injEq] at h
  obtain ⟨-, rfl⟩ := h
  obtain ⟨cuts, tail, hline, hnew, hpatches⟩ :=
    exists_cuts catalog 0 [] (pieces .standard EnumType.opener line)
  rw [EnumType.flatMap_text_pieces, List.nil_append] at hline
  rw [List.nil_append] at hnew
  refine ⟨?_, cuts, tail, hline, hnew, hpatches⟩
  have hsplice := splice_of_cuts [] cuts tail
  rw [List.nil_append, ← hline, ← hnew] at hsplice
  rw [← hsplice]
  exact congrArg (splice line 0) hpatches

/-- **Enumerations in order, names in a frame.**  The search for enumerations ends on every line,
since each round gets further, and it finds those whose values the catalog is read from.  They
stand one behind the other, none is empty, and each ends behind the parenthesis that closes its
own.  A line that naming returns has names for just those that the catalog has, with all other
text; nothing is returned just if the line is a comment or data, or has no enumeration of the
catalog. -/
theorem search_ordered_substitution_framed (q : Quoting) (line : Text) (catalog : EnumCatalog) :
    (∀ found, Search.Ends q line ⟨0, []⟩ found ↔ found = places q line) ∧
    (∀ search next : Search, search.step? q line = some next →
      search.next < next.next ∧ next.next ≤ byteLength line) ∧
    (places q line).map Place.values = EnumType.valueLists q line ∧
    ((places q line).Pairwise fun place place' => place.stop ≤ place'.start) ∧
    (∀ place ∈ places q line, place.start < place.stop ∧ place.stop ≤ byteLength line ∧
      place.IsWritten q line) ∧
    (∀ new, catalog.substitute? line = some new →
      new = splice line 0 (catalog.patches line) ∧ catalog.Framed line new) ∧
    (catalog.substitute? line = none ↔
      (Line.isComment line || Line.isData line) ∨
        ∀ place ∈ places .standard line, catalog.get? place.values = none) := by
  refine ⟨?_, fun search next h => Search.next_lt_of_step? h, EnumType.map_values_placesFrom q 0 _,
    EnumType.pairwise_placesFrom q 0 _, ?_, fun new h => splice_framed_of_substitute? h, ?_⟩
  · intro found
    constructor
    · intro h
      exact h.unique (Search.ends_places q line)
    · intro h
      rw [h]
      exact Search.ends_places q line
  · intro place hplace
    obtain ⟨-, hlt, hle⟩ := EnumType.bounds_of_mem_placesFrom hplace
    rw [EnumType.flatMap_text_pieces, Nat.zero_add] at hle
    exact ⟨hlt, hle, EnumType.isWritten_of_mem_places hplace⟩
  · rw [substitute?_eq, ← patches_eq_nil_iff]
    simp only [ite_eq_left_iff, reduceCtorEq, imp_false, not_not]

/-- Of three enumerations the second has no values and the third is not in the catalog, and
parentheses in a value close nothing. -/
theorem search_ordered_substitution_framed_column :
    places .standard "é enum('a','b)') enum(1) Enum ('c')".toList =
        [⟨3, 17, ["a".toList, "b)".toList]⟩, ⟨26, 36, ["c".toList]⟩] ∧
      EnumCatalog.substitute? ⟨[⟨"mood".toList, ["a".toList, "b)".toList]⟩]⟩
        "é enum('a','b)') enum(1) Enum ('c')".toList = some "é mood enum(1) Enum ('c')".toList ∧
      EnumCatalog.Framed ⟨[⟨"mood".toList, ["a".toList, "b)".toList]⟩]⟩
        "é enum('a','b)') enum(1) Enum ('c')".toList "é mood enum(1) Enum ('c')".toList := by
  have hplaces : places .standard "é enum('a','b)') enum(1) Enum ('c')".toList =
      [⟨3, 17, ["a".toList, "b)".toList]⟩, ⟨26, 36, ["c".toList]⟩] := by decide +kernel
  have hnew : EnumCatalog.substitute? ⟨[⟨"mood".toList, ["a".toList, "b)".toList]⟩]⟩
      "é enum('a','b)') enum(1) Enum ('c')".toList = some "é mood enum(1) Enum ('c')".toList := by
    decide +kernel
  obtain ⟨-, -, -, -, -, hframed, -⟩ := search_ordered_substitution_framed .standard
    "é enum('a','b)') enum(1) Enum ('c')".toList ⟨[⟨"mood".toList, ["a".toList, "b)".toList]⟩]⟩
  exact ⟨hplaces, hnew, (hframed _ hnew).2⟩

end EnumCatalog
end DumpBridge
