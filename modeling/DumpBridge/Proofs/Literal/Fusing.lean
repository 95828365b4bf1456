import DumpBridge.Proofs.Literal.Cuts

/-!
# Cutting a text again after a change to its code

A change to the code of a text keeps its literals, but where it erases the code
between two literals in the same marks, these are read as one, with a doubled mark
in between.  `fuse` says what becomes of the segments then, and
`segments_mapCode_eq_fuse` that the changed text is cut in just this way.  Nothing
moves between code and literals, and where no code is erased nothing fuses.
-/

namespace DumpBridge.Literal

/-- A segment with `f` applied to it, if it is code. -/
def Segment.mapCode (f : Text → Text) : Segment → Segment
  | code t => code (f t)
  | literal t => literal t

/-- The characters of the literals among segments. -/
def literalText (segs : List Segment) : Text :=
  segs.flatMap fun
    | .code _ => []
    | .literal t => t

/-- The characters of the code among segments. -/
def codeText (segs : List Segment) : Text :=
  segs.flatMap fun
    | .code t => t
    | .literal _ => []

/-- Puts a segment before others.  Code that is empty goes, and a literal takes the one behind
it in, if that has the same mark. -/
def Segment.fuse : Segment → List Segment → List Segment
  | code t, rest => if t = [] then rest else code t :: rest
  | literal s, literal t :: rest =>
    if s.head? = t.head? then literal (s ++ t) :: rest else literal s :: literal t :: rest
  | literal s, rest => literal s :: rest

/-- Segments that are read as they stand. -/
def fuse (segs : List Segment) : List Segment :=
  segs.foldr Segment.fuse []

variable {q : Quoting} {m : Char} {s : Segment} {t u x y : Text} {segs : List Segment}
  {f : Text → Text}

/-! ## Fusing loses nothing -/

/-- What is taken of each segment, if a literal that takes another in gives what both give. -/
theorem flatMap_fuse {g : Segment → Text} (hcode : g (.code []) = [])
    (hliteral : ∀ s t, g (.literal (s ++ t)) = g (.literal s) ++ g (.literal t))
    (segs : List Segment) : (fuse segs).flatMap g = segs.flatMap g := by
  have hstep : ∀ (s : Segment) (rest : List Segment), (s.fuse rest).flatMap g =
      g s ++ rest.flatMap g := by
    intro s rest
    fun_cases Segment.fuse s rest <;> simp_all
  induction segs with
  | nil => rfl
  | cons s segs ih => rw [fuse, List.foldr_cons, hstep, List.flatMap_cons, ← ih, fuse]

/-- Fusing segments keeps their text. -/
theorem flatMap_text_fuse (segs : List Segment) :
    (fuse segs).flatMap Segment.text = segs.flatMap Segment.text :=
  flatMap_fuse rfl (fun _ _ => rfl) segs

/-- It keeps the text in literals. -/
theorem literalText_fuse (segs : List Segment) : literalText (fuse segs) = literalText segs :=
  flatMap_fuse rfl (fun _ _ => rfl) segs

theorem codeText_fuse (segs : List Segment) : codeText (fuse segs) = codeText segs :=
  flatMap_fuse rfl (fun _ _ => rfl) segs

/-- A change to code keeps the text in literals. -/
theorem literalText_map (f : Text → Text) (segs : List Segment) :
    literalText (segs.map (Segment.mapCode f)) = literalText segs := by
  rw [literalText, List.flatMap_map, literalText]
  congr 1
  funext s
  cases s <;> rfl

/-- A change to code goes segment by segment. -/
theorem mapCode_eq_flatMap (q : Quoting) (f : Text → Text) (t : Text) :
    mapCode q f t = ((segments q t).map (Segment.mapCode f)).flatMap Segment.text := by
  rw [mapCode, List.flatMap_map]
  congr 1
  funext s
  cases s <;> rfl

/-! ## Literals that fuse -/

/-- Two texts that can stand inside a literal can stand there together. -/
theorem Body.append (hx : Body q m x) (hy : Body q m y) : Body q m (x ++ y) := by
  induction hx with
  | nil => exact hy
  | char he hc _ ih => exact .char he hc ih
  | doubled _ ih => exact .doubled ih
  | escape he _ ih => exact .escape he ih

theorem Body.join (hx : Body q m x) (hy : Body q m y) : Body q m (x ++ m :: m :: y) :=
  hx.append (.doubled hy)

/-- **Two closed literals** in the same marks are one. -/
theorem IsClosed.append (ht : IsClosed q m t) (hu : IsClosed q m u) : IsClosed q m (t ++ u) := by
  obtain ⟨hm, x, hx, rfl⟩ := ht
  obtain ⟨-, y, hy, rfl⟩ := hu
  exact ⟨hm, _, hx.join hy, by simp⟩

/-- A closed literal goes on with one that is not closed. -/
theorem IsClosed.append_unclosed (ht : IsClosed q m t) (hu : IsUnclosed q m u) :
    IsUnclosed q m (t ++ u) := by
  obtain ⟨hm, x, hx, rfl⟩ := ht
  obtain ⟨-, y, hy, rfl | ⟨c, hc, rfl⟩⟩ := hu
  · exact ⟨hm, _, hx.join hy, .inl (by simp)⟩
  · exact ⟨hm, _, hx.join hy, .inr ⟨c, hc, by simp⟩⟩

/-- A closed literal begins with its mark. -/
theorem IsClosed.head? (h : IsClosed q m t) : t.head? = some m := by
  obtain ⟨-, x, -, rfl⟩ := h
  rfl

theorem IsUnclosed.head? (h : IsUnclosed q m t) : t.head? = some m := by
  obtain ⟨-, x, -, rfl | ⟨c, -, rfl⟩⟩ := h
  · rfl
  · rfl

/-! ## The cut of the changed text -/

/-- A closed literal before a well-formed cut is part of one. -/
theorem WellCut.fuse_literal (h : WellCut q segs) (ht : IsClosed q m t) :
    WellCut q ((Segment.literal t).fuse segs) := by
  cases segs with
  | nil => exact wellCut_singleton.mpr (.inl ⟨m, ht⟩)
  | cons s segs =>
    cases s with
    | code x => exact wellCut_cons_cons.mpr ⟨⟨m, ht⟩, trivial, h⟩
    | literal u =>
      rw [Segment.fuse]
      by_cases hmark : t.head? = u.head?
      · rw [if_pos hmark]
        rw [ht.head?] at hmark
        rcases h.cases_cons with ⟨⟨m', hu⟩, rfl⟩ | ⟨⟨m', hu⟩, hrest, hapart⟩
        · obtain rfl : m = m' := Option.some.inj (hmark.trans hu.head?)
          exact wellCut_singleton.mpr (.inr ⟨m, ht.append_unclosed hu⟩)
        · obtain rfl : m = m' := Option.some.inj (hmark.trans hu.head?)
          cases segs with
          | nil => exact wellCut_singleton.mpr (.inl ⟨m, ht.append hu⟩)
          | cons s segs =>
            -- The next segment meets the same mark as before.
            refine wellCut_cons_cons.mpr ⟨⟨m, ht.append hu⟩, ?_, hrest⟩
            have hnext := (hrest.literal_apart_iff hu).mp (hapart s rfl)
            exact (hrest.literal_apart_iff (ht.append hu)).mpr hnext
      · rw [if_neg hmark]
        exact wellCut_cons_cons.mpr ⟨⟨m, ht⟩, hmark, h⟩

/-- With a literal in front, segments begin with one. -/
theorem exists_fuse_literal (t : Text) (segs : List Segment) :
    ∃ u rest, (Segment.literal t).fuse segs = .literal u :: rest := by
  cases segs with
  | nil => exact ⟨t, [], rfl⟩
  | cons s segs =>
    cases s with
    | code x => exact ⟨t, _, rfl⟩
    | literal u =>
      rw [Segment.fuse]
      split
      · exact ⟨t ++ u, segs, rfl⟩
      · exact ⟨t, _, rfl⟩

/-- **The changed segments fuse to a well-formed cut**, if the change puts no quote marks
into code. -/
theorem WellCut.fuse_map (h : WellCut q segs)
    (hf : ∀ x, (∀ c ∈ x, isQuote c = false) → ∀ c ∈ f x, isQuote c = false) :
    WellCut q (fuse (segs.map (Segment.mapCode f))) := by
  induction segs with
  | nil => exact wellCut_nil
  | cons s segs ih =>
    rw [List.map_cons, fuse, List.foldr_cons, ← fuse]
    rcases h.cases_cons with ⟨hs, rfl⟩ | ⟨hs, hrest, hapart⟩
    · cases s with
      | code x => exact hs.elim
      | literal t => exact wellCut_singleton.mpr (.inr hs)
    · cases s with
      | literal t =>
        obtain ⟨m, ht⟩ := hs
        exact (ih hrest).fuse_literal ht
      | code x =>
        rw [Segment.mapCode, Segment.fuse]
        by_cases herased : f x = []
        · rw [if_pos herased]
          exact ih hrest
        · rw [if_neg herased]
          have hwhole : (Segment.code (f x)).IsWhole q := ⟨herased, hf x hs.2⟩
          cases segs with
          | nil => exact wellCut_singleton.mpr (.inl hwhole)
          | cons s segs =>
            cases s with
            | code y => exact (hapart _ rfl).elim
            | literal u =>
              have hcut := ih hrest
              rw [List.map_cons, fuse, List.foldr_cons, ← fuse] at hcut ⊢
              obtain ⟨v, rest, hhead⟩ :=
                exists_fuse_literal u (fuse (segs.map (Segment.mapCode f)))
              rw [Segment.mapCode, hhead] at hcut ⊢
              exact wellCut_cons_cons.mpr ⟨hwhole, trivial, hcut⟩

/-- **The changed text is cut into the changed segments, fused.** -/
theorem segments_mapCode_eq_fuse
    (hf : ∀ x, (∀ c ∈ x, isQuote c = false) → ∀ c ∈ f x, isQuote c = false) (q : Quoting)
    (t : Text) :
    segments q (mapCode q f t) = fuse ((segments q t).map (Segment.mapCode f)) := by
  have hcut := ((lexed_lexemes q t).wellCut).fuse_map hf
  have hread := hcut.segments_text
  rwa [flatMap_text_fuse, ← segments_eq_segmentsOf, ← mapCode_eq_flatMap] at hread

/-- Where no code is erased, the segments stay apart. -/
theorem WellCut.fuse_map_eq (h : WellCut q segs) (hf : ∀ x, x ≠ [] → f x ≠ []) :
    fuse (segs.map (Segment.mapCode f)) = segs.map (Segment.mapCode f) := by
  induction segs with
  | nil => rfl
  | cons s segs ih =>
    rw [List.map_cons, fuse, List.foldr_cons, ← fuse]
    rcases h.cases_cons with ⟨hs, rfl⟩ | ⟨hs, hrest, hapart⟩
    · cases s with
      | code x => exact hs.elim
      | literal t => rfl
    · rw [ih hrest]
      cases s with
      | code x => exact if_neg (hf x hs.1)
      | literal t =>
        cases segs with
        | nil => rfl
        | cons s segs =>
          cases s with
          | code y => rfl
          | literal u => exact if_neg (hapart _ rfl)

/-- **A change to code never damages literals.** If it puts no quote marks into code, the
changed text has the same characters in literals and the changed ones in code.  If it also
erases no code, the changed text is cut into the old segments, each run of code changed. -/
theorem segments_mapCode (q : Quoting) (f : Text → Text) (t : Text)
    (hf : ∀ x, (∀ c ∈ x, isQuote c = false) → ∀ c ∈ f x, isQuote c = false) :
    literalText (segments q (mapCode q f t)) = literalText (segments q t) ∧
      codeText (segments q (mapCode q f t)) = codeText ((segments q t).map (Segment.mapCode f)) ∧
      ((∀ x, x ≠ [] → f x ≠ []) →
        segments q (mapCode q f t) = (segments q t).map (Segment.mapCode f)) := by
  rw [segments_mapCode_eq_fuse hf]
  refine ⟨?_, codeText_fuse _, fun hkeeps => ?_⟩
  · rw [literalText_fuse, literalText_map]
  · exact ((lexed_lexemes q t).wellCut).fuse_map_eq hkeeps

/-- Two literals with a backtick between them fuse when it goes, and the last one stays open. -/
theorem segments_mapCode_fused :
    (∀ x : Text, (∀ c ∈ x, isQuote c = false) → ∀ c ∈ x.filter (· != '\x60'), isQuote c = false) ∧
      segments .mysql (mapCode .mysql (·.filter (· != '\x60')) "'a\\''\x60'b'x\x60\"c".toList) =
        [.literal "'a\\'''b'".toList, .code ['x'], .literal "\"c".toList] ∧
      literalText
        (segments .mysql (mapCode .mysql (·.filter (· != '\x60')) "'a\\''\x60'b'x\x60\"c".toList)) =
        literalText (segments .mysql "'a\\''\x60'b'x\x60\"c".toList) := by
  have hplain : ∀ x : Text, (∀ c ∈ x, isQuote c = false) →
      ∀ c ∈ x.filter (· != '\x60'), isQuote c = false :=
    fun x hx c hc => hx c (List.mem_filter.mp hc).1
  exact ⟨hplain, by decide, (segments_mapCode .mysql _ _ hplain).1⟩

end DumpBridge.Literal
