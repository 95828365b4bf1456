import DumpBridge.Proofs.Literal.Calls
import DumpBridge.Proofs.Literal.Cuts

/-!
# Places on a line

A place on a line is outside literals if the text before it leaves none open.  A
character there that is no quote mark then stands in a run of code, and only then
(`inCode_iff_outside`).

The search for calls goes over a line from place to place: over one character where
no call opens, and over a call as a whole (`Looks`).  The calls it cuts off are the
ones at the places it comes to (`pieces_eq_append_iff`).  Nothing in this asks
whether the place is outside literals.
-/

namespace DumpBridge.Literal

open Text (Pattern isBlank isWord)
open Text.Pattern

/-! ## Runs of code -/

/-- Whether a segment is a run of code. -/
def Segment.isCode : Segment → Bool
  | code _ => true
  | literal _ => false

/-- Whether the character at a place is in a run of code. -/
def inCode : List Segment → Nat → Bool
  | [], _ => false
  | s :: segs, n => if n < s.text.length then s.isCode else inCode segs (n - s.text.length)

/-- The text leaves no literal open. -/
def Outside (q : Quoting) (x : Text) : Prop :=
  markAfter none (lexemes q x) = none

variable {q : Quoting} {ls : List Lexeme} {segs : List Segment} {l : Lexeme} {c : Char} {n : Nat}
  {line a b x t head inner rest : Text} {word : String}

theorem inCode_before : inCode (l.before segs) n =
    if n < l.text.length then l.isCode else inCode segs (n - l.text.length) := by
  fun_cases Lexeme.before l segs <;>
    simp only [inCode, Segment.text, Segment.isCode, Lexeme.text, Lexeme.isCode, List.length_cons,
      List.length_append, List.length_nil] <;> grind

/-- What stands in a run of code is a character of code. -/
theorem inCode_segmentsOf_iff : inCode (segmentsOf ls) n ↔
    ∃ (xs : List Lexeme) (c : Char) (ys : List Lexeme), ls = xs ++ Lexeme.code c :: ys ∧
      (xs.flatMap Lexeme.text).length = n := by
  induction ls generalizing n with
  | nil => simp [segmentsOf, inCode]
  | cons l ls ih =>
    have hbefore : segmentsOf (l :: ls) = l.before (segmentsOf ls) := rfl
    have hpos : 0 < l.text.length := List.length_pos_iff.mpr l.text_ne_nil
    rw [hbefore, inCode_before]
    constructor
    · intro h
      split at h
      · next hn =>
        cases l with
        | code c => exact ⟨[], c, ls, rfl, by simpa [Lexeme.text, eq_comm] using hn⟩
        | opening | inside | pair | closing => simp [Lexeme.isCode] at h
      · next hn =>
        obtain ⟨xs, c, ys, rfl, hlength⟩ := ih.mp h
        refine ⟨l :: xs, c, ys, rfl, ?_⟩
        rw [List.flatMap_cons, List.length_append, hlength]
        omega
    · rintro ⟨xs, c, ys, hcut, rfl⟩
      cases xs with
      | nil =>
        obtain ⟨rfl, rfl⟩ := List.cons.inj hcut
        simp [Lexeme.text, Lexeme.isCode]
      | cons x xs =>
        obtain ⟨rfl, rfl⟩ := List.cons.inj hcut
        have hlength : ((l :: xs).flatMap Lexeme.text).length =
            l.text.length + (xs.flatMap Lexeme.text).length := by simp
        rw [hlength, if_neg (by omega), Nat.add_sub_cancel_left]
        exact ih.mpr ⟨xs, c, ys, rfl, rfl⟩

/-- Outside literals, a character that is no quote mark is code, and the text is read anew
from it on. -/
theorem Outside.lexemes_append (hx : Outside q x) (hc : isQuote c = false) (t : Text) :
    lexemes q (x ++ c :: t) = lexemes q x ++ .code c :: lexemes q t := by
  refine lexemes_eq_iff.mpr ⟨?_, ?_⟩
  · exact (lexed_lexemes q x).append_code hx hc (lexed_lexemes q t)
  · simp [Lexeme.text, flatMap_text_lexemes]

/-- **A character that is no quote mark** is in a run of code just if it stands outside
literals. -/
theorem inCode_iff_outside (hc : isQuote c = false) :
    inCode (segments q (a ++ c :: b)) a.length ↔ Outside q a := by
  rw [segments_eq_segmentsOf, inCode_segmentsOf_iff]
  constructor
  · rintro ⟨xs, d, ys, hcut, hlength⟩
    obtain ⟨hlexed, htext⟩ := lexemes_eq_iff.mp hcut
    rw [List.flatMap_append] at htext
    obtain ⟨rfl, htail⟩ := List.append_inj htext hlength
    obtain rfl : d = c := by simpa [Lexeme.text] using congrArg List.head? htail
    obtain ⟨hxs, hmark, -⟩ := (lexed_append_code_iff hc).mp hlexed
    rwa [Outside, lexemes_eq_iff.mpr ⟨hxs, rfl⟩]
  · intro ha
    exact ⟨lexemes q a, c, lexemes q b, ha.lexemes_append hc b,
      congrArg List.length (flatMap_text_lexemes q a)⟩

/-! ## Literals -/

/-- A place that is not in a run of code is in a literal. -/
theorem exists_literal_of_inCode_eq_false (hn : n < (segs.flatMap Segment.text).length)
    (h : inCode segs n = false) :
    ∃ (front : List Segment) (t : Text) (back : List Segment), segs =
      front ++ Segment.literal t :: back ∧
      (front.flatMap Segment.text).length ≤ n ∧
      n < (front.flatMap Segment.text).length + t.length := by
  induction segs generalizing n with
  | nil => simp at hn
  | cons s segs ih =>
    rw [List.flatMap_cons, List.length_append] at hn
    rw [inCode] at h
    split at h
    · next hs =>
      cases s with
      | code t => simp [Segment.isCode] at h
      | literal t => exact ⟨[], t, segs, rfl, by simp, by simpa [Segment.text] using hs⟩
    · next hs =>
      obtain ⟨front, t, back, rfl, hle, hlt⟩ := ih (by omega) h
      refine ⟨s :: front, t, back, rfl, ?_, ?_⟩
      · rw [List.flatMap_cons, List.length_append]
        omega
      · rw [List.flatMap_cons, List.length_append]
        omega

/-- A literal begins with a quote mark. -/
theorem WellCut.isQuote_head? (h : WellCut q segs) (ht : .literal t ∈ segs) :
    t.head?.any isQuote := by
  induction segs with
  | nil => simp at ht
  | cons s segs ih =>
    rcases List.mem_cons.mp ht with rfl | ht
    · obtain ⟨c, -, hfirst, hquote⟩ := h.exists_head
      have hc : t.head? = some c := hfirst
      rw [hc]
      exact hquote.mpr ⟨t, rfl⟩
    · rcases h.cases_cons with ⟨-, rfl⟩ | ⟨-, hrest, -⟩
      · simp at ht
      · exact ih hrest ht

/-- A literal before another segment ends with a quote mark. -/
theorem WellCut.isQuote_getLast? {front back : List Segment} {s : Segment}
    (h : WellCut q (front ++ .literal t :: s :: back)) : t.getLast?.any isQuote := by
  have hmem : Segment.literal t ∈ (front ++ .literal t :: s :: back).dropLast := by
    rw [List.dropLast_append_cons, List.dropLast_cons_cons]
    simp
  obtain ⟨m, hm, body, -, rfl⟩ := h.whole _ hmem
  rw [← List.cons_append, List.getLast?_concat]
  exact hm

/-- **Inside a literal**, a text without quote marks does not leave it. -/
theorem exists_literal_of_not_outside (hx : ∀ d ∈ c :: x, isQuote d = false)
    (ha : ¬ Outside q a) (t : Text) :
    ∃ u v, .literal (u ++ c :: (x ++ v)) ∈ segments q (a ++ c :: (x ++ t)) ∧
      u.getLast? = a.getLast? := by
  have hc : isQuote c = false := hx c (by simp)
  have hout : inCode (segments q (a ++ c :: (x ++ t))) a.length = false :=
    Bool.eq_false_iff.mpr (mt (inCode_iff_outside hc).mp ha)
  have hlength : a.length < ((segments q (a ++ c :: (x ++ t))).flatMap Segment.text).length := by
    rw [flatMap_text_segments]
    simp
  obtain ⟨front, s, back, hsegs, hle, hlt⟩ := exists_literal_of_inCode_eq_false hlength hout
  have hcut := (lexed_lexemes q (a ++ c :: (x ++ t))).wellCut
  have htext := flatMap_text_segments q (a ++ c :: (x ++ t))
  rw [← segments_eq_segmentsOf, hsegs] at hcut
  rw [hsegs] at htext
  rw [List.flatMap_append, List.flatMap_cons, Segment.text] at htext
  -- The literal has a part `u` before the place and goes on with the character there.
  obtain ⟨u, rfl⟩ : front.flatMap Segment.text <+: a :=
    List.prefix_of_prefix_length_le ⟨_, htext⟩ (List.prefix_append a _) hle
  rw [List.append_assoc, List.append_cancel_left_eq] at htext
  rw [List.length_append, Nat.add_lt_add_iff_left] at hlt
  obtain ⟨w, rfl, hbehind⟩ : ∃ w, s = u ++ c :: w ∧ w ++ back.flatMap Segment.text = x ++ t := by
    rcases append_cons_split htext.symm with ⟨w, rfl⟩ | ⟨u', rfl, -⟩
    · exact ⟨w, rfl, by simpa using htext⟩
    · rw [List.length_append] at hlt
      omega
  have hu : u ≠ [] := by
    rintro rfl
    have hfirst := hcut.isQuote_head? (t := c :: w) (by simp)
    simp [hc] at hfirst
  have hw : ∃ v, w = x ++ v := by
    cases back with
    | nil => exact ⟨t, by simpa using hbehind⟩
    | cons s back =>
      rcases List.append_eq_append_iff.mp hbehind with ⟨r, rfl, -⟩ | ⟨v, rfl, -⟩
      · -- The literal would end in the text, with one of its characters.
        obtain ⟨d, hd⟩ : ∃ d, (c :: w).getLast? = some d := ⟨_, List.getLast?_cons⟩
        have hmem : d ∈ c :: (w ++ r) := by
          rw [← List.cons_append]
          exact List.mem_append_left r (List.mem_of_getLast? hd)
        have hlast := hcut.isQuote_getLast?
        rw [List.getLast?_append, hd] at hlast
        simp [hx d hmem] at hlast
      · exact ⟨v, rfl⟩
  obtain ⟨v, rfl⟩ := hw
  refine ⟨u, v, ?_, ?_⟩
  · rw [hsegs]
    simp
  · rw [List.getLast?_append_of_ne_nil _ hu]

/-! ## Calls -/

/-- The word and parenthesis that open a call have no quote mark in them. -/
theorem exists_cons_of_opens (hword : isKeyword word.toList) {before : Option Char}
    (h : (callOpener word).Takes before head t) :
    ∃ c x, head = c :: x ∧ ∀ d ∈ c :: x, isQuote d = false := by
  obtain ⟨-, w, gap, rfl, hw, hgap⟩ := (takes_callOpener hword).mp h
  obtain ⟨hne, hletters⟩ := isWord_of_spells hword hw
  obtain ⟨c, w, rfl⟩ := List.exists_cons_of_ne_nil hne
  refine ⟨c, w ++ (gap ++ ['(']), rfl, fun d hd => Bool.eq_false_iff.mpr fun hquote => ?_⟩
  rw [← List.cons_append, List.mem_append, List.mem_append, List.mem_singleton] at hd
  rcases hd with hd | hd | rfl
  · have hplain := isWord_of_isQuote hquote
    simp [hletters d hd] at hplain
  · rw [isQuote, Bool.or_eq_true, decide_eq_true_eq, decide_eq_true_eq] at hquote
    rcases hquote with rfl | rfl
    · exact absurd (hgap _ hd) (by decide)
    · exact absurd (hgap _ hd) (by decide)
  · exact absurd hquote (by decide)

/-- What opens a call opens it whatever follows. -/
theorem takes_callOpener_of_takes (hword : isKeyword word.toList) {before : Option Char}
    (h : (callOpener word).Takes before head t) (t' : Text) :
    (callOpener word).Takes before head t' :=
  (takes_callOpener hword).mpr ((takes_callOpener hword).mp h)

/-- A call with `before` in front of it and `rest` behind it. -/
structure IsCall (q : Quoting) (word : String) (before : Option Char) (head inner rest : Text) :
    Prop where
  opens : (callOpener word).Takes before head (inner ++ ')' :: rest)
  balanced : Balanced q inner

/-- **A call outside literals** opens in code, and its list and what follows it are read as
they are on their own. -/
theorem IsCall.lexemes_append (hword : isKeyword word.toList) {before : Option Char}
    (h : IsCall q word before head inner rest) (hx : Outside q x) :
    lexemes q (x ++ (head ++ (inner ++ ')' :: rest))) =
      lexemes q x ++ (head.map .code ++ (lexemes q inner ++ .code ')' :: lexemes q rest)) := by
  obtain ⟨c, y, rfl, hhead⟩ := exists_cons_of_opens hword h.opens
  obtain ⟨hc, hy⟩ := List.forall_mem_cons.mp hhead
  have hinner : Outside q inner := h.balanced.outside
  rw [List.cons_append, hx.lexemes_append hc, lexemes_code_append hy,
    hinner.lexemes_append (by decide), List.map_cons, List.cons_append]

/-- A call outside literals leaves none open. -/
theorem IsCall.outside_append_iff (hword : isKeyword word.toList) {before : Option Char}
    (h : IsCall q word before head inner rest) (hx : Outside q x) :
    Outside q (x ++ (head ++ (inner ++ ')' :: rest))) ↔ Outside q rest := by
  have hinner : markAfter none (lexemes q inner) = none := h.balanced.outside
  rw [Outside, Outside] at *
  rw [h.lexemes_append hword hx, markAfter_append, hx, markAfter_append, markAfter_code,
    markAfter_append, hinner, markAfter_cons]
  rfl

/-- `Looks q word line a b`: the search for calls comes to the place between `a` and `b`. -/
inductive Looks (q : Quoting) (word : String) (line : Text) : Text → Text → Prop
  | start : Looks q word line [] line
  | next {a b : Text} {c : Char} (place : Looks q word line a (c :: b))
      (hnone : ¬ (callOpener word).Fits a.getLast? (c :: b)) : Looks q word line (a ++ [c]) b
  | call {a b head inner : Text} (place : Looks q word line a (head ++ (inner ++ ')' :: b)))
      (hcall : IsCall q word a.getLast? head inner b) :
      Looks q word line (a ++ (Piece.call head inner).text) b

theorem Looks.append (h : Looks q word line a b) : line = a ++ b := by
  induction h with
  | start => rfl
  | next _ _ ih => rw [ih, List.append_assoc, List.singleton_append]
  | call _ _ ih =>
    rw [ih]
    simp [Piece.text]

theorem getLast?_append_call (a head inner : Text) :
    (a ++ (Piece.call head inner).text).getLast? = some ')' := by
  rw [Piece.text, ← List.append_assoc, List.getLast?_concat]

/-- A character before a call joins what is plain in front of it. -/
theorem pushPlain_append_call (c : Char) (front back : List Piece) (head inner : Text) :
    pushPlain c (front ++ .call head inner :: back) =
      pushPlain c front ++ .call head inner :: back := by
  cases front with
  | nil => rfl
  | cons piece front =>
    cases piece with
    | plain t | call h i => rfl

/-- What keeps plain text keeps a plain character in front. -/
theorem flatMap_pushPlain {f : Piece → Text} (hf : ∀ t, f (.plain t) = t) (c : Char)
    (ps : List Piece) : (pushPlain c ps).flatMap f = c :: ps.flatMap f := by
  fun_cases pushPlain c ps <;> simp [hf]

/-- A character before the pieces joins none of the calls. -/
theorem exists_of_pushPlain_eq {ps front back : List Piece}
    (h : pushPlain c ps = front ++ .call head inner :: back) :
    ∃ front', ps = front' ++ .call head inner :: back ∧
      front.flatMap Piece.text = c :: front'.flatMap Piece.text := by
  cases front with
  | nil =>
    unfold pushPlain at h
    split at h <;> simp at h
  | cons piece front =>
    unfold pushPlain at h
    split at h
    · next t ps =>
      obtain ⟨rfl, rfl⟩ := List.cons.inj h
      exact ⟨.plain t :: front, rfl, by simp [Piece.text]⟩
    · obtain ⟨rfl, rfl⟩ := List.cons.inj h
      exact ⟨front, rfl, by simp [Piece.text]⟩

/-- What the search cuts off from a place on, it cuts off from the line. -/
theorem Looks.exists_pieces (hword : isKeyword word.toList) (h : Looks q word line a b)
    {front back : List Piece}
    (hb : piecesFrom q (callOpener word) a.getLast? 0 b = front ++ .call head inner :: back) :
    ∃ front', pieces q (callOpener word) line = front' ++ .call head inner :: back ∧
      front'.flatMap Piece.text = a ++ front.flatMap Piece.text := by
  induction h generalizing front with
  | start => exact ⟨front, hb, rfl⟩
  | @next a b c _ hnone ih =>
    have hplain : piecesFrom q (callOpener word) a.getLast? 0 (c :: b) =
        pushPlain c (piecesFrom q (callOpener word) (some c) 0 b) := by
      rw [piecesFrom, matchAfter_eq_none_iff.mpr hnone]
    rw [List.getLast?_concat] at hb
    rw [hb, pushPlain_append_call] at hplain
    obtain ⟨front', hpieces, htext⟩ := ih hplain
    refine ⟨front', hpieces, ?_⟩
    rw [htext, flatMap_text_pushPlain]
    simp
  | @call a b head' inner' _ hcall ih =>
    have hcut := piecesFrom_call hword hcall.opens hcall.balanced
    rw [getLast?_append_call] at hb
    rw [hb, ← List.cons_append] at hcut
    obtain ⟨front', hpieces, htext⟩ := ih hcut
    refine ⟨front', hpieces, ?_⟩
    rw [htext, List.flatMap_cons, List.append_assoc]

/-- What the search cuts off from a place on stands at a place it comes to. -/
theorem Looks.exists_call (hword : isKeyword word.toList) (h : Looks q word line a b)
    {front back : List Piece}
    (hb : piecesFrom q (callOpener word) a.getLast? 0 b = front ++ .call head inner :: back) :
    ∃ rest, Looks q word line (a ++ front.flatMap Piece.text) (head ++ (inner ++ ')' :: rest)) ∧
      IsCall q word (a ++ front.flatMap Piece.text).getLast? head inner rest := by
  -- The induction is on the length, since a call takes several characters at once.
  induction hlength : b.length using Nat.strongRecOn generalizing a b front with
  | ind n ih =>
    cases b with
    | nil => simp [piecesFrom] at hb
    | cons c b =>
      rcases piecesFrom_cases q hword a.getLast? c b with
        ⟨hnone, hplain⟩ | hrest | ⟨head', inner', r, hsplit, hopens, hbalanced, hcut⟩
      · rw [hplain] at hb
        obtain ⟨front', hpieces, htext⟩ := exists_of_pushPlain_eq hb
        rw [← List.getLast?_concat (l := a)] at hpieces
        obtain ⟨rest, hlooks, hcall⟩ :=
          ih b.length (by simp [← hlength]) (h.next hnone) hpieces rfl
        rw [htext, List.append_cons]
        exact ⟨rest, hlooks, hcall⟩
      · rw [hrest] at hb
        have hmem : Piece.call head inner ∈ [Piece.plain (c :: b)] := by
          rw [hb]
          simp
        simp at hmem
      · rw [hsplit] at h
        rw [hcut] at hb
        cases front with
        | nil =>
          obtain ⟨hpiece, -⟩ := List.cons.inj hb
          obtain ⟨rfl, rfl⟩ := Piece.call.inj hpiece
          rw [List.flatMap_nil, List.append_nil]
          exact ⟨r, h, hopens, hbalanced⟩
        | cons piece front =>
          obtain ⟨rfl, hrest⟩ := List.cons.inj hb
          have hshorter : r.length < n := by
            rw [← hlength, hsplit]
            simp
            omega
          rw [← getLast?_append_call a head' inner'] at hrest
          obtain ⟨rest, hlooks, hcall⟩ :=
            ih r.length hshorter (h.call ⟨hopens, hbalanced⟩) hrest rfl
          rw [List.flatMap_cons, ← List.append_assoc]
          exact ⟨rest, hlooks, hcall⟩

/-- **The calls of a line** are those at the places the search comes to. -/
theorem pieces_eq_append_iff (hword : isKeyword word.toList) :
    (∃ front back : List Piece, pieces q (callOpener word) line =
      front ++ Piece.call head inner :: back ∧
        front.flatMap Piece.text = a) ↔
      ∃ rest, Looks q word line a (head ++ (inner ++ ')' :: rest)) ∧
        IsCall q word a.getLast? head inner rest := by
  constructor
  · rintro ⟨front, back, hpieces, rfl⟩
    exact Looks.start.exists_call hword hpieces
  · rintro ⟨rest, hlooks, hcall⟩
    have hcut : piecesFrom q (callOpener word) a.getLast? 0 (head ++ (inner ++ ')' :: rest)) =
        [] ++ .call head inner :: piecesFrom q (callOpener word) (some ')') 0 rest :=
      piecesFrom_call hword hcall.opens hcall.balanced
    obtain ⟨front, hpieces, htext⟩ := hlooks.exists_pieces hword hcut
    exact ⟨front, _, hpieces, by simpa using htext⟩

end DumpBridge.Literal
