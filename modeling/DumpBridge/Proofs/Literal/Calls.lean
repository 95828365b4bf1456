import DumpBridge.Proofs.Literal.Nesting
import DumpBridge.Proofs.Text.Reach

/-!
# Calls on a line

A call is a word, any blanks and a list in parentheses that match outside literals.
Where a line begins with one, the call is cut off as a whole (`piecesFrom_call`).
`piecesFrom_cases` says what else can happen at the beginning of a line: the first
character is plain, or the whole rest is, since its parenthesis is never closed.  In
every case the pieces together are the line (`flatMap_text_piecesFrom`).
-/

namespace DumpBridge.Literal

open Text (Pattern isBlank isWord)
open Text.Pattern

variable {q : Quoting} {before : Option Char} {x y t inner : Text} {word : String}

/-- What opens a call: its word, any blanks and the parenthesis. -/
theorem takes_callOpener (hword : isKeyword word.toList) :
    (callOpener word).Takes before y t ↔
      before.any isWord = false ∧ ∃ w gap, y = w ++ (gap ++ ['(']) ∧
        spells word.toList w ∧ ∀ c ∈ gap, isBlank c := by
  have hparen : isBlank '(' = false := by decide
  constructor
  · rintro ⟨_, _, rfl, ⟨_, gap, rfl, ⟨_, w, rfl, ⟨rfl, hedge⟩, hw⟩, hgap, -⟩, hopen⟩
    rw [phrase_eq_letters, takes_letters (not_mem_of_isKeyword hword)] at hw
    obtain rfl := takes_char.mp hopen
    obtain ⟨hne, hletters⟩ := isWord_of_spells hword hw
    obtain ⟨c, w, rfl⟩ := List.exists_cons_of_ne_nil hne
    have hc : isWord c := hletters c (by simp)
    refine ⟨?_, c :: w, gap, by simp, hw, hgap⟩
    simpa [hc] using hedge
  · rintro ⟨hbefore, w, gap, rfl, hw, hgap⟩
    obtain ⟨hne, hletters⟩ := isWord_of_spells hword hw
    obtain ⟨c, w, rfl⟩ := List.exists_cons_of_ne_nil hne
    have hc : isWord c := hletters c (by simp)
    refine ⟨[] ++ (c :: w) ++ gap, ['('], by simp, ⟨[] ++ (c :: w), gap, rfl,
      ⟨[], c :: w, rfl, ⟨rfl, ?_⟩, ?_⟩, hgap, ?_⟩, takes_char.mpr rfl⟩
    · simp [hbefore, hc]
    · rw [phrase_eq_letters, takes_letters (not_mem_of_isKeyword hword)]
      exact hw
    · simpa using hparen

/-- A text opens a call in one way. -/
theorem callOpener_unique (hword : isKeyword word.toList) {z u : Text}
    (hy : (callOpener word).Takes before y t) (hz : (callOpener word).Takes before z u)
    (h : y ++ t = z ++ u) : y = z := by
  obtain ⟨-, w, gap, rfl, hw, hgap⟩ := (takes_callOpener hword).mp hy
  obtain ⟨-, w', gap', rfl, hw', hgap'⟩ := (takes_callOpener hword).mp hz
  have hparen : ∀ r : Text, ('(' :: r).head?.any isBlank = false := fun _ => by
    have hblank : isBlank '(' = false := by decide
    simpa using hblank
  simp only [List.append_assoc, List.singleton_append] at h
  obtain ⟨rfl, htail⟩ := List.append_inj h
    ((length_eq_of_spells hw).trans (length_eq_of_spells hw').symm)
  obtain ⟨rfl, -⟩ := Text.span_inj hgap hgap' (hparen t) (hparen u) htail
  rfl

/-- Characters of a call that is cut already are passed over. -/
theorem piecesFrom_skip (opener : Pattern) (y t : Text) :
    piecesFrom q opener before y.length (y ++ t) =
      piecesFrom q opener (y.getLast?.or before) 0 t := by
  induction y generalizing before with
  | nil => rfl
  | cons c y ih => rw [List.length_cons, List.cons_append, piecesFrom, ih, getLast?_cons_or]

/-- **A call** is cut as a whole. -/
theorem piecesFrom_call (hword : isKeyword word.toList) {head : Text}
    (hhead : (callOpener word).Takes before head (inner ++ ')' :: t)) (hinner : Balanced q inner) :
    piecesFrom q (callOpener word) before 0 (head ++ (inner ++ ')' :: t)) =
      .call head inner :: piecesFrom q (callOpener word) (some ')') 0 t := by
  obtain ⟨found, hfound⟩ : ∃ found,
      (callOpener word).matchAfter before (head ++ (inner ++ ')' :: t)) = some found :=
    Option.isSome_iff_exists.mp (matchAfter_isSome_iff.mpr ⟨_, _, rfl, hhead⟩)
  have htaken : found.taken = head.length := by
    obtain ⟨y, hsplit, htaken, htakes⟩ := takes_of_matchAfter hfound
    rw [htaken, callOpener_unique hword hhead htakes hsplit]
  obtain ⟨-, w, gap, hcut, hw, -⟩ := (takes_callOpener hword).mp hhead
  have hopen : (head ++ (inner ++ ')' :: t)).drop (head.length - 1) =
      '(' :: (inner ++ ')' :: t) := by
    have hlength : head.length - 1 = (w ++ gap).length := by
      rw [hcut]
      simp
    have hsplit : head ++ (inner ++ ')' :: t) = w ++ gap ++ '(' :: (inner ++ ')' :: t) := by
      rw [hcut]
      simp
    rw [hlength, hsplit, List.drop_left]
  obtain ⟨c, w, rfl⟩ := List.exists_cons_of_ne_nil (isWord_of_spells hword hw).1
  obtain ⟨k, rfl, hk⟩ : ∃ k, head = c :: k ∧ k = w ++ (gap ++ ['(']) := ⟨_, hcut, rfl⟩
  have hskip : (c :: k).length + (inner.length + 1) - 1 = (k ++ (inner ++ [')'])).length := by
    simp
    omega
  have hlast : (k ++ (inner ++ [')'])).getLast?.or (some c) = some ')' := by
    rw [← List.append_assoc, List.getLast?_concat]
    rfl
  have hend : k ++ (inner ++ ')' :: t) = k ++ (inner ++ [')']) ++ t := by simp
  rw [List.cons_append, piecesFrom, ← List.cons_append, hfound]
  simp only
  rw [htaken, hopen, closing?_parenthesised hinner]
  simp only
  rw [hskip, hend, piecesFrom_skip, hlast, List.take_left, List.drop_left, Nat.add_sub_cancel,
    List.take_left]

/-- A text that the opener passes over is plain. -/
theorem piecesFrom_plain {opener : Pattern} (hx : opener.Passes before x t)
    (ht : ∀ u rest, piecesFrom q opener (x.getLast?.or before) 0 t ≠ .plain u :: rest)
    (hne : x ≠ []) :
    piecesFrom q opener before 0 (x ++ t) =
      .plain x :: piecesFrom q opener (x.getLast?.or before) 0 t := by
  induction x generalizing before with
  | nil => exact absurd rfl hne
  | cons c x ih =>
    rw [getLast?_cons_or] at ht ⊢
    rw [List.cons_append, piecesFrom, matchAfter_eq_none_iff.mpr hx.1]
    simp only
    cases x with
    | nil =>
      rw [List.nil_append]
      unfold pushPlain
      split
      · rename_i u rest hpieces
        exact absurd hpieces (ht u rest)
      · rfl
    | cons d x =>
      rw [ih hx.2 ht (by simp)]
      rfl

/-- **What can stand at the beginning of a line**: a plain character, a call, or a word whose
parenthesis is never closed, so that the whole rest is plain. -/
theorem piecesFrom_cases (q : Quoting) (hword : isKeyword word.toList) (before : Option Char)
    (c : Char) (t : Text) :
    ¬ (callOpener word).Fits before (c :: t) ∧ piecesFrom q (callOpener word) before 0 (c :: t) =
        pushPlain c (piecesFrom q (callOpener word) (some c) 0 t) ∨
      piecesFrom q (callOpener word) before 0 (c :: t) = [.plain (c :: t)] ∨
      ∃ head inner r, c :: t = head ++ (inner ++ ')' :: r) ∧
        (callOpener word).Takes before head (inner ++ ')' :: r) ∧ Balanced q inner ∧
        piecesFrom q (callOpener word) before 0 (c :: t) =
          .call head inner :: piecesFrom q (callOpener word) (some ')') 0 r := by
  cases hfound : (callOpener word).matchAfter before (c :: t) with
  | none =>
    refine Or.inl ⟨matchAfter_eq_none_iff.mp hfound, ?_⟩
    rw [piecesFrom, hfound]
  | some found =>
    cases hclosing : closing? q ((c :: t).drop (found.taken - 1)) with
    | none =>
      refine Or.inr (Or.inl ?_)
      rw [piecesFrom, hfound]
      simp only
      rw [hclosing]
    | some n =>
      obtain ⟨y, hsplit, htaken, htakes⟩ := takes_of_matchAfter hfound
      obtain ⟨-, w, gap, rfl, -, -⟩ := (takes_callOpener hword).mp htakes
      -- The parenthesis that is closed is the one that the opener takes.
      have hdrop : (c :: t).drop (found.taken - 1) = '(' :: found.rest := by
        have hlength : found.taken - 1 = (w ++ gap).length := by
          rw [htaken]
          simp
        have hcut : c :: t = w ++ gap ++ '(' :: found.rest := by
          rw [hsplit]
          simp
        rw [hlength, hcut, List.drop_left]
      obtain ⟨inner, r, hrest, hbalanced⟩ := balanced_of_closing? hclosing
      obtain ⟨-, hrest⟩ := List.cons.inj (hdrop.symm.trans hrest)
      rw [hrest] at hsplit htakes
      refine Or.inr (Or.inr ⟨_, inner, r, hsplit, htakes, hbalanced, ?_⟩)
      rw [hsplit]
      exact piecesFrom_call hword htakes hbalanced

/-- **The pieces of a line** are the line. -/
theorem flatMap_text_piecesFrom (hword : isKeyword word.toList) (before : Option Char)
    (t : Text) : (piecesFrom q (callOpener word) before 0 t).flatMap Piece.text = t := by
  -- The induction is on the length, since a call takes several characters at once.
  induction hlength : t.length using Nat.strongRecOn generalizing before t with
  | ind n ih =>
    cases t with
    | nil => rfl
    | cons c t =>
      rcases piecesFrom_cases q hword before c t with
        ⟨-, hplain⟩ | hrest | ⟨head, inner, r, hsplit, -, -, hcall⟩
      · rw [hplain, flatMap_text_pushPlain, ih t.length (by simp [← hlength]) _ _ rfl]
      · rw [hrest]
        simp [Piece.text]
      · have hshorter : r.length < n := by
          rw [← hlength, hsplit]
          simp
          omega
        rw [hcall, List.flatMap_cons, ih r.length hshorter _ _ rfl, hsplit]
        simp [Piece.text]

end DumpBridge.Literal
