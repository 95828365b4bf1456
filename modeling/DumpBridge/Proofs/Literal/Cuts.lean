import DumpBridge.Proofs.Literal.Marks
import Mathlib.Data.List.Chain

/-!
# Well-formed cuts

A cut of a text into segments is well formed if every run of code is free of
quote marks, every literal but the last is closed by its own first closing mark,
and no two neighbours would be read as one.  `segments_eq_iff` says that
`segments` gives the one well-formed cut of its text: what it gives is well
formed, and it reads every well-formed cut back.

What may stand between the marks of a literal is said by rules on characters
(`Body`), without the scan.  The scan comes in through `isLiteral_iff`, for a
closed literal, and `isUnclosed_iff`, for one that the text ends in.
-/

namespace DumpBridge.Literal

/-- `Body q m t`: the text may stand between the marks `m` of a literal, and none
of its characters closes it.  A mark is doubled, or an escape takes it. -/
inductive Body (q : Quoting) (m : Char) : Text → Prop
  | nil : Body q m []
  | char {c : Char} {t : Text} (he : q.escapes c = false) (hc : c ≠ m) (rest : Body q m t) :
      Body q m (c :: t)
  | doubled {t : Text} (rest : Body q m t) : Body q m (m :: m :: t)
  | escape {c d : Char} {t : Text} (he : q.escapes c) (rest : Body q m t) :
      Body q m (c :: d :: t)

/-- A literal in the marks `m` that ends with its first closing mark. -/
def IsClosed (q : Quoting) (m : Char) (t : Text) : Prop :=
  isQuote m ∧ ∃ body, Body q m body ∧ t = m :: (body ++ [m])

/-- A literal in the marks `m` that has no closing mark.  It may end with an
escape that has nothing to take. -/
def IsUnclosed (q : Quoting) (m : Char) (t : Text) : Prop :=
  isQuote m ∧ ∃ body, Body q m body ∧
    (t = m :: body ∨ ∃ c, q.escapes c ∧ t = m :: (body ++ [c]))

namespace Segment

/-- A run of code without quote marks, or a closed literal. -/
def IsWhole (q : Quoting) : Segment → Prop
  | code t => t ≠ [] ∧ ∀ c ∈ t, isQuote c = false
  | literal t => ∃ m, IsClosed q m t

/-- A literal without a closing mark. -/
def IsUnfinished (q : Quoting) : Segment → Prop
  | code _ => False
  | literal t => ∃ m, IsUnclosed q m t

/-- Two segments that can be neighbours: code is not cut in two, and a literal is
not followed by its own mark. -/
def Apart : Segment → Segment → Prop
  | code _, code _ => False
  | literal s, literal t => s.head? ≠ t.head?
  | _, _ => True

end Segment

/-- A cut of a text into runs of code and literals.  Only the last segment may be
a literal without a closing mark. -/
structure WellCut (q : Quoting) (segs : List Segment) : Prop where
  whole : ∀ s ∈ segs.dropLast, s.IsWhole q
  last : ∀ s, segs.getLast? = some s → s.IsWhole q ∨ s.IsUnfinished q
  apart : segs.IsChain Segment.Apart

variable {q : Quoting} {m : Char} {t x : Text} {s s' : Segment} {segs : List Segment}
  {ls body : List Lexeme}

/-! ## The body of a literal -/

theorem escapes_of_isQuote (hm : isQuote m) : q.escapes m = false := by
  simp [Quoting.escapes, Escapes.ne_backslash_of_isQuote hm]

/-- What a scan reads up to the closing mark is a body. -/
theorem Lexed.body_text (h : Lexed q (some m) (body ++ .closing m :: ls))
    (hinner : ∀ l ∈ body, l.isInner) : Body q m (body.flatMap Lexeme.text) := by
  induction body with
  | nil => exact .nil
  | cons l body ih =>
    obtain ⟨hl, hbody⟩ := List.forall_mem_cons.mp hinner
    cases h with
    | inside he hc rest => exact .char he hc (ih rest hbody)
    | doubled he rest => exact .doubled (ih rest hbody)
    | escape he rest => exact .escape he (ih rest hbody)
    | escapeAtEnd he hend => simp at hend
    | closing => simp [Lexeme.isInner] at hl

/-- What a scan reads up to the end of the text is a body and perhaps an escape. -/
theorem Lexed.exists_body (h : Lexed q (some m) body) (hinner : ∀ l ∈ body, l.isInner) :
    ∃ x, Body q m x ∧ (body.flatMap Lexeme.text = x ∨
      ∃ c, q.escapes c ∧ body.flatMap Lexeme.text = x ++ [c]) := by
  induction body with
  | nil => exact ⟨[], .nil, .inl rfl⟩
  | cons l body ih =>
    obtain ⟨hl, hbody⟩ := List.forall_mem_cons.mp hinner
    have hlonger : ∀ x y, Body q m (l.text ++ x) →
        (y = x ∨ ∃ c, q.escapes c ∧ y = x ++ [c]) →
        ∃ x, Body q m x ∧ (l.text ++ y = x ∨ ∃ c, q.escapes c ∧ l.text ++ y = x ++ [c]) := by
      rintro x y hx (rfl | ⟨c, hc, rfl⟩)
      · exact ⟨_, hx, .inl rfl⟩
      · exact ⟨_, hx, .inr ⟨c, hc, (List.append_assoc _ _ _).symm⟩⟩
    rw [List.flatMap_cons]
    cases h with
    | inside he hc rest =>
      obtain ⟨x, hx, htext⟩ := ih rest hbody
      exact hlonger x _ (.char he hc hx) htext
    | doubled he rest =>
      obtain ⟨x, hx, htext⟩ := ih rest hbody
      exact hlonger x _ (.doubled hx) htext
    | escape he rest =>
      obtain ⟨x, hx, htext⟩ := ih rest hbody
      exact hlonger x _ (.escape he hx) htext
    | @escapeAtEnd _ c _ he hend =>
      subst hend
      exact ⟨[], .nil, .inr ⟨c, he, rfl⟩⟩
    | closing => simp [Lexeme.isInner] at hl

/-- A body is read as inner lexemes, whatever follows it in the literal. -/
theorem Body.exists_lexemes (h : Body q m x) (hm : q.escapes m = false) :
    ∃ body, (∀ l ∈ body, l.isInner) ∧ body.flatMap Lexeme.text = x ∧
      ∀ ls, Lexed q (some m) ls → Lexed q (some m) (body ++ ls) := by
  induction h with
  | nil => exact ⟨[], by simp, rfl, fun _ hls => hls⟩
  | @char c t he hc rest ih =>
    obtain ⟨body, hinner, rfl, hlexed⟩ := ih
    exact ⟨.inside c :: body, List.forall_mem_cons.mpr ⟨rfl, hinner⟩, rfl,
      fun ls hls => .inside he hc (hlexed ls hls)⟩
  | doubled rest ih =>
    obtain ⟨body, hinner, rfl, hlexed⟩ := ih
    exact ⟨.pair m (some m) :: body, List.forall_mem_cons.mpr ⟨rfl, hinner⟩, rfl,
      fun ls hls => .doubled hm (hlexed ls hls)⟩
  | @escape c d t he rest ih =>
    obtain ⟨body, hinner, rfl, hlexed⟩ := ih
    exact ⟨.pair c (some d) :: body, List.forall_mem_cons.mpr ⟨rfl, hinner⟩, rfl,
      fun ls hls => .escape he (hlexed ls hls)⟩

/-! ## One literal -/

/-- **A closed literal** is what a scan takes for one. -/
theorem isLiteral_iff : IsLiteral q m t ↔ IsClosed q m t := by
  constructor
  · intro h
    obtain ⟨body, hinner, hlexed, -, rfl⟩ := h.exists_inner
    exact ⟨h.isQuote, _, hlexed.body_text hinner, rfl⟩
  · rintro ⟨hm, x, hx, rfl⟩
    have he := escapes_of_isQuote (q := q) hm
    obtain ⟨body, hinner, rfl, hlexed⟩ := hx.exists_lexemes he
    refine ⟨body, hinner, lexemes_eq_iff.mpr ⟨.opening hm (hlexed _ ?_), by simp [Lexeme.text]⟩⟩
    exact .closing he (by simp) (.nil none)

/-- **A literal without a closing mark** is what a scan takes to the end. -/
theorem isUnclosed_iff : IsUnclosed q m t ↔
    ∃ body, (∀ l ∈ body, l.isInner) ∧ lexemes q t = .opening m :: body := by
  constructor
  · rintro ⟨hm, x, hx, htext⟩
    obtain ⟨body, hinner, rfl, hlexed⟩ := hx.exists_lexemes (escapes_of_isQuote hm)
    rcases htext with rfl | ⟨c, hc, rfl⟩
    · have hbody := hlexed [] (.nil _)
      rw [List.append_nil] at hbody
      exact ⟨body, hinner, lexemes_eq_iff.mpr ⟨.opening hm hbody, rfl⟩⟩
    · refine ⟨body ++ [.pair c none], ?_, lexemes_eq_iff.mpr ⟨.opening hm (hlexed _ ?_), ?_⟩⟩
      · exact List.forall_mem_append.mpr ⟨hinner, by simp [Lexeme.isInner]⟩
      · exact .escapeAtEnd hc rfl
      · simp [Lexeme.text]
  · rintro ⟨body, hinner, hlexemes⟩
    obtain ⟨hlexed, rfl⟩ := lexemes_eq_iff.mp hlexemes
    cases hlexed with
    | opening hm rest =>
      obtain ⟨x, hx, htext⟩ := rest.exists_body hinner
      rw [List.flatMap_cons]
      rcases htext with htext | ⟨c, hc, htext⟩
      · exact ⟨hm, x, hx, .inl (by rw [htext]; rfl)⟩
      · exact ⟨hm, x, hx, .inr ⟨c, hc, by rw [htext]; rfl⟩⟩

/-! ## Segments -/

@[simp] theorem wellCut_nil : WellCut q [] :=
  ⟨by simp, by simp, .nil⟩

@[simp] theorem wellCut_singleton : WellCut q [s] ↔ s.IsWhole q ∨ s.IsUnfinished q :=
  ⟨fun h => h.last s rfl, fun h => ⟨by simp, by simpa using h, .singleton s⟩⟩

@[simp] theorem wellCut_cons_cons : WellCut q (s :: s' :: segs) ↔
    s.IsWhole q ∧ s.Apart s' ∧ WellCut q (s' :: segs) := by
  constructor
  · rintro ⟨hwhole, hlast, hapart⟩
    obtain ⟨hs, hapart⟩ := List.isChain_cons_cons.mp hapart
    rw [List.dropLast_cons_cons, List.forall_mem_cons] at hwhole
    exact ⟨hwhole.1, hs, hwhole.2, by simpa using hlast, hapart⟩
  · rintro ⟨hs, happ, hwhole, hlast, hapart⟩
    refine ⟨?_, by simpa using hlast, List.isChain_cons_cons.mpr ⟨happ, hapart⟩⟩
    rw [List.dropLast_cons_cons, List.forall_mem_cons]
    exact ⟨hs, hwhole⟩

/-- A well-formed cut is a literal without a closing mark, or a whole segment
before a well-formed cut. -/
theorem WellCut.cases_cons (h : WellCut q (s :: segs)) :
    s.IsUnfinished q ∧ segs = [] ∨
      s.IsWhole q ∧ WellCut q segs ∧ ∀ s' ∈ segs.head?, s.Apart s' := by
  cases segs with
  | nil =>
    rcases wellCut_singleton.mp h with hs | hs
    · exact .inr ⟨hs, wellCut_nil, by simp⟩
    · exact .inl ⟨hs, rfl⟩
  | cons s' segs =>
    obtain ⟨hs, hapart, hrest⟩ := wellCut_cons_cons.mp h
    exact .inr ⟨hs, hrest, by simpa using hapart⟩

/-- A cut begins with a quote mark just if its first segment is a literal. -/
theorem WellCut.exists_head (h : WellCut q (s :: segs)) :
    ∃ c, ((s :: segs).flatMap Segment.text).head? = some c ∧ s.text.head? = some c ∧
      (isQuote c ↔ ∃ t, s = .literal t) := by
  have hs : s.IsUnfinished q ∨ s.IsWhole q := h.cases_cons.imp And.left And.left
  cases s with
  | code t =>
    obtain ⟨hne, hplain⟩ := hs.resolve_left id
    obtain ⟨c, t, rfl⟩ := List.exists_cons_of_ne_nil hne
    exact ⟨c, rfl, rfl, by simp [hplain c List.mem_cons_self]⟩
  | literal t =>
    rcases hs with ⟨m, hm, body, -, rfl | ⟨c, -, rfl⟩⟩ | ⟨m, hm, body, -, rfl⟩
    · exact ⟨m, rfl, rfl, by simp [hm]⟩
    · exact ⟨m, rfl, rfl, by simp [hm]⟩
    · exact ⟨m, rfl, rfl, by simp [hm]⟩

/-- Code can stand before a cut that begins with a quote mark. -/
theorem WellCut.code_apart_iff (h : WellCut q (s :: segs)) :
    (Segment.code t).Apart s ↔ ((s :: segs).flatMap Segment.text).head?.all isQuote := by
  obtain ⟨c, hc, -, hquote⟩ := h.exists_head
  rw [hc, Option.all_some, hquote]
  cases s <;> simp [Segment.Apart]

/-- A closed literal can stand before a cut that does not begin with its mark. -/
theorem WellCut.literal_apart_iff (h : WellCut q (s :: segs)) (ht : IsClosed q m t) :
    (Segment.literal t).Apart s ↔ ((s :: segs).flatMap Segment.text).head? ≠ some m := by
  obtain ⟨c, hc, hfirst, hquote⟩ := h.exists_head
  obtain ⟨hm, body, -, rfl⟩ := ht
  rw [hc]
  cases s with
  | code u =>
    have hne : c ≠ m := by
      rintro rfl
      simp [hm] at hquote
    simpa [Segment.Apart] using hne
  | literal u =>
    rw [Segment.Apart, show u.head? = some c from hfirst]
    exact ne_comm

/-- What is read is well formed: a character of code or a literal may stand
before the segments of what follows it. -/
theorem Lexed.wellCut (h : Lexed q none ls) : WellCut q (segmentsOf ls) := by
  induction h using Lexed.blockInduction with
  | nil => exact wellCut_nil
  | @code c ls hc rest ih =>
    have hwhole : (Segment.code [c]).IsWhole q := ⟨by simp, by simpa using hc⟩
    rw [segmentsOf_code]
    cases hsegs : segmentsOf ls with
    | nil => exact wellCut_singleton.mpr (.inl hwhole)
    | cons s segs =>
      rw [hsegs] at ih
      cases s with
      | literal t => exact wellCut_cons_cons.mpr ⟨hwhole, trivial, ih⟩
      | code t =>
        have hlonger : (Segment.code t).IsWhole q → (Segment.code (c :: t)).IsWhole q :=
          fun ht => ⟨by simp, List.forall_mem_cons.mpr ⟨hc, ht.2⟩⟩
        cases segs with
        | nil => exact wellCut_singleton.mpr ((wellCut_singleton.mp ih).imp_left hlonger)
        | cons s segs =>
          obtain ⟨ht, hapart, hrest⟩ := wellCut_cons_cons.mp ih
          refine wellCut_cons_cons.mpr ⟨hlonger ht, ?_, hrest⟩
          exact hrest.code_apart_iff.mpr (hrest.code_apart_iff.mp hapart)
  | @openLiteral m body hm inner hinner =>
    rw [segmentsOf_openLiteral hinner, wellCut_singleton]
    refine .inr
      ⟨m, isUnclosed_iff.mpr ⟨body, hinner, lexemes_eq_iff.mpr ⟨.opening hm inner, rfl⟩⟩⟩
  | @literal m body ls hm inner hinner rest ih =>
    have hclosed : IsClosed q m (m :: (body.flatMap Lexeme.text ++ [m])) :=
      ⟨hm, _, inner.body_text hinner, rfl⟩
    have hclosing := inner.right
    rw [markAfter_inner hinner] at hclosing
    have hnext : (ls.flatMap Lexeme.text).head? ≠ some m := by
      cases hclosing with
      | closing _ hnext _ => exact hnext
    rw [segmentsOf_literal hinner]
    cases hsegs : segmentsOf ls with
    | nil => exact wellCut_singleton.mpr (.inl ⟨m, hclosed⟩)
    | cons s segs =>
      rw [hsegs] at ih
      refine wellCut_cons_cons.mpr ⟨⟨m, hclosed⟩, (ih.literal_apart_iff hclosed).mpr ?_, ih⟩
      rwa [← hsegs, ← rest.lexemesFrom_text, ← lexemes, ← segments_eq_segmentsOf,
        flatMap_text_segments]

/-- A well-formed cut is read back, one segment after the other. -/
theorem WellCut.segments_text (h : WellCut q segs) :
    segments q (segs.flatMap Segment.text) = segs := by
  induction segs with
  | nil => rfl
  | cons s segs ih =>
    rw [List.flatMap_cons]
    rcases h.cases_cons with ⟨hs, rfl⟩ | ⟨hs, hrest, hapart⟩
    · cases s with
      | code t => exact hs.elim
      | literal t =>
        obtain ⟨m, hm⟩ := hs
        obtain ⟨body, hinner, hlexemes⟩ := isUnclosed_iff.mp hm
        have htext := flatMap_text_lexemes q t
        rw [hlexemes] at htext
        rw [List.flatMap_nil, List.append_nil, Segment.text, segments_eq_segmentsOf, hlexemes,
          segmentsOf_openLiteral hinner]
        exact congrArg (fun u => [Segment.literal u]) htext
    · cases s with
      | code t =>
        have hnext : (segs.flatMap Segment.text).head?.all isQuote := by
          cases segs with
          | nil => rfl
          | cons s' segs => exact hrest.code_apart_iff.mp (hapart s' rfl)
        rw [Segment.text, segments_append hs.1 hs.2 hnext, ih hrest]
      | literal t =>
        obtain ⟨m, hm⟩ := hs
        have hnext : (segs.flatMap Segment.text).head? ≠ some m := by
          cases segs with
          | nil => simp
          | cons s' segs => exact (hrest.literal_apart_iff hm).mp (hapart s' rfl)
        rw [Segment.text, (isLiteral_iff.mpr hm).segments_append hnext, ih hrest]

/-- **Segments are the well-formed cut.**  A list of segments is what a text is cut
into just if it is a well-formed cut and its texts, in order, are the text. -/
theorem segments_eq_iff (q : Quoting) (t : Text) (segs : List Segment) :
    segments q t = segs ↔ WellCut q segs ∧ segs.flatMap Segment.text = t := by
  constructor
  · rintro rfl
    exact ⟨(lexed_lexemes q t).wellCut, flatMap_text_segments q t⟩
  · rintro ⟨h, rfl⟩
    exact h.segments_text

example : segments .mysql "x''\"b\\".toList =
    [.code ['x'], .literal "''".toList, .literal "\"b\\".toList] := by decide

end DumpBridge.Literal
