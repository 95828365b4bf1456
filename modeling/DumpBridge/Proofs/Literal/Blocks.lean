import DumpBridge.Literal.Segment
import DumpBridge.Proofs.Literal.Lexed

/-!
# Literals as blocks of lexemes

Outside literals, lexemes come as single characters of code and as whole
literals: an opening mark, inner lexemes and, unless the text ends first, the
closing mark.  `Lexed.blockInduction` is induction over these blocks, and
`segmentsOf`, which puts lexemes together into segments, has one equation for
each of them.
-/

namespace DumpBridge.Literal

/-- A lexeme strictly between the marks of a literal. -/
def Lexeme.isInner : Lexeme → Bool
  | inside _ => true
  | pair _ _ => true
  | _ => false

variable {q : Quoting} {m : Char} {ls body : List Lexeme}

/-- Inner lexemes neither open nor close a literal. -/
theorem markAfter_inner (hinner : ∀ l ∈ body, l.isInner) (mark : Option Char) :
    markAfter mark body = mark := by
  induction body with
  | nil => rfl
  | cons l body ih =>
    have hl : l.markAfter mark = mark := by
      have := hinner l List.mem_cons_self
      cases l <;> simp_all [Lexeme.isInner, Lexeme.markAfter]
    rw [markAfter_cons, hl, ih (fun x hx => hinner x (List.mem_cons_of_mem l hx))]

/-- Where a literal's inner lexemes end: at its closing mark or with the text. -/
def EndsLiteral (m : Char) (ls : List Lexeme) : Prop :=
  (∀ l ∈ ls, l.isInner) ∨
    ∃ body rest, ls = body ++ .closing m :: rest ∧ ∀ l ∈ body, l.isInner

theorem EndsLiteral.cons {l : Lexeme} (hl : l.isInner) (h : EndsLiteral m ls) :
    EndsLiteral m (l :: ls) := by
  rcases h with hinner | ⟨body, rest, rfl, hinner⟩
  · exact Or.inl (List.forall_mem_cons.mpr ⟨hl, hinner⟩)
  · exact Or.inr ⟨l :: body, rest, rfl, List.forall_mem_cons.mpr ⟨hl, hinner⟩⟩

/-- Inside a literal, every lexeme up to its closing mark is inner. -/
theorem Lexed.endsLiteral (h : Lexed q (some m) ls) : EndsLiteral m ls := by
  generalize hmark : some m = mark at h
  induction h with
  | nil => exact Or.inl (by simp)
  | code | opening => simp at hmark
  | inside he hc rest ih | doubled he rest ih | escape he rest ih => exact .cons rfl (ih hmark)
  | escapeAtEnd he hend =>
    subst hend
    exact Or.inl (by simp [Lexeme.isInner])
  | closing he hnext rest =>
    obtain rfl := Option.some.inj hmark
    exact Or.inr ⟨[], _, rfl, by simp⟩

/-- **Induction over blocks**: a character of code, a literal that the text
ends in, or a closed literal stands in front. -/
theorem Lexed.blockInduction {motive : (ls : List Lexeme) → Lexed q none ls → Prop}
    (nil : motive [] (.nil none))
    (code : ∀ {c : Char} {ls : List Lexeme} (hc : isQuote c = false)
      (rest : Lexed q none ls), motive ls rest → motive (.code c :: ls) (.code hc rest))
    (openLiteral : ∀ {m : Char} {body : List Lexeme} (hm : isQuote m)
      (inner : Lexed q (some m) body), (∀ l ∈ body, l.isInner) →
      motive (.opening m :: body) (.opening hm inner))
    (literal : ∀ {m : Char} {body ls : List Lexeme} (hm : isQuote m)
      (inner : Lexed q (some m) (body ++ .closing m :: ls)), (∀ l ∈ body, l.isInner) →
      (rest : Lexed q none ls) → motive ls rest →
      motive (.opening m :: (body ++ .closing m :: ls)) (.opening hm inner))
    {ls : List Lexeme} (h : Lexed q none ls) : motive ls h := by
  induction hlen : ls.length using Nat.strongRecOn generalizing ls with
  | ind n ih =>
    cases h with
    | nil => exact nil
    | code hc rest =>
      exact code hc rest (ih _ (by simp [← hlen]) rest rfl)
    | opening hm inner =>
      rcases inner.endsLiteral with hinner | ⟨body, after, rfl, hinner⟩
      · exact openLiteral hm inner hinner
      · have hafter : Lexed q none after := by
          have hclosing := inner.right
          rw [markAfter_inner hinner] at hclosing
          cases hclosing with
          | closing _ _ hrest => exact hrest
        exact literal hm inner hinner hafter (ih _ (by simp [← hlen]; omega) hafter rfl)

/-- The segments that lexemes make up. -/
def segmentsOf (ls : List Lexeme) : List Segment :=
  ls.foldr Lexeme.before []

theorem segments_eq_segmentsOf (q : Quoting) (t : Text) :
    segments q t = segmentsOf (lexemes q t) := rfl

theorem segmentsOf_code (c : Char) (ls : List Lexeme) :
    segmentsOf (.code c :: ls) = (Lexeme.code c).before (segmentsOf ls) := rfl

/-- Inner lexemes are put in front of what stands after them in the literal. -/
theorem foldr_before_inner (hinner : ∀ l ∈ body, l.isInner) (t : Text) (segs : List Segment) :
    body.foldr Lexeme.before (.literal t :: segs) =
      .literal (body.flatMap Lexeme.text ++ t) :: segs := by
  induction body with
  | nil => rfl
  | cons l body ih =>
    have hl := hinner l List.mem_cons_self
    rw [List.foldr_cons, ih (fun x hx => hinner x (List.mem_cons_of_mem l hx))]
    cases l <;> simp_all [Lexeme.isInner, Lexeme.before]

/-- A closed literal is one segment. -/
theorem segmentsOf_literal (hinner : ∀ l ∈ body, l.isInner) (ls : List Lexeme) :
    segmentsOf (.opening m :: (body ++ .closing m :: ls)) =
      .literal (m :: (body.flatMap Lexeme.text ++ [m])) :: segmentsOf ls := by
  have hclosing : segmentsOf (.closing m :: ls) = .literal [m] :: segmentsOf ls := rfl
  rw [segmentsOf, List.foldr_cons, List.foldr_append]
  rw [segmentsOf] at hclosing
  rw [hclosing, foldr_before_inner hinner]
  rfl

/-- A literal that the text ends in is one segment. -/
theorem segmentsOf_openLiteral (hinner : ∀ l ∈ body, l.isInner) :
    segmentsOf (.opening m :: body) = [.literal (m :: body.flatMap Lexeme.text)] := by
  rw [segmentsOf, List.foldr_cons]
  -- The last inner lexeme starts the segment, and the others are put before it.
  rcases List.eq_nil_or_concat body with rfl | ⟨body, l, rfl⟩
  · rfl
  · rw [List.concat_eq_append] at *
    have hl : [l].foldr Lexeme.before [] = [.literal l.text] := by
      have := hinner l (by simp)
      cases l <;> simp_all [Lexeme.isInner, Lexeme.before]
    rw [List.foldr_append, hl,
      foldr_before_inner (fun x hx => hinner x (List.mem_append_left [l] hx))]
    simp [Lexeme.before, Lexeme.text]

/-- The text is one closed literal in the marks `m`. -/
def IsLiteral (q : Quoting) (m : Char) (t : Text) : Prop :=
  ∃ body, (∀ l ∈ body, l.isInner) ∧ lexemes q t = .opening m :: (body ++ [.closing m])

/-- A closed literal is its inner lexemes between two marks. -/
theorem IsLiteral.exists_inner {t : Text} (h : IsLiteral q m t) :
    ∃ body : List Lexeme, (∀ l ∈ body, l.isInner) ∧
      Lexed q (some m) (body ++ [Lexeme.closing m]) ∧
      lexemes q t = .opening m :: (body ++ [Lexeme.closing m]) ∧
      t = m :: (body.flatMap Lexeme.text ++ [m]) := by
  obtain ⟨body, hinner, hlexemes⟩ := h
  obtain ⟨hlexed, htext⟩ := lexemes_eq_iff.mp hlexemes
  refine ⟨body, hinner, ?_, hlexemes, by simpa [Lexeme.text] using htext.symm⟩
  cases hlexed with
  | opening _ inner => exact inner

/-- Code in front adds no literal. -/
theorem literal_mem_before_code {c : Char} {t : Text} {segs : List Segment} :
    .literal t ∈ (Lexeme.code c).before segs ↔ .literal t ∈ segs := by
  cases segs with
  | nil => simp [Lexeme.before]
  | cons s segs => cases s <;> simp [Lexeme.before]

/-- A literal starts with its mark. -/
theorem mark_of_literal_mem {t : Text} (h : Lexed q none ls)
    (ht : .literal t ∈ segmentsOf ls) : ∃ m rest, isQuote m ∧ t = m :: rest := by
  induction h using Lexed.blockInduction with
  | nil => simp [segmentsOf] at ht
  | code hc rest ih =>
    rw [segmentsOf_code, literal_mem_before_code] at ht
    exact ih ht
  | openLiteral hm inner hinner =>
    rw [segmentsOf_openLiteral hinner, List.mem_singleton] at ht
    exact ⟨_, _, hm, Segment.literal.inj ht⟩
  | literal hm inner hinner rest ih =>
    rw [segmentsOf_literal hinner, List.mem_cons] at ht
    rcases ht with ht | ht
    · exact ⟨_, _, hm, Segment.literal.inj ht⟩
    · exact ih ht

end DumpBridge.Literal
