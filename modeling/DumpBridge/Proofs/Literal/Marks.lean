import DumpBridge.Proofs.Escapes
import DumpBridge.Proofs.Literal.Code

/-!
# Texts of code and whole literals

In the script's quoting a doubled mark is as good as a mark that closes a literal
and one that opens the next, so which literal a text leaves open is told by its
marks alone: `markStep` goes over them one by one.

A text that leaves no literal open is code and whole literals in turn
(`Blocks`, `blocks_of_shut`).  A map over its code changes each run of code on its
own, and the last run together with the code that follows the text
(`Blocks.exists_mapCode`).
-/

namespace DumpBridge.Literal

open Text (isBlank isWord)

variable {q : Quoting} {mark : Option Char} {m c : Char} {x y w t : Text} {ls : List Lexeme}
  {f : Text → Text}

/-- The literal that is open after a character, if `mark` was open before it. -/
def markStep (mark : Option Char) (c : Char) : Option Char :=
  if isQuote c then
    match mark with
    | none => some c
    | some m => if c = m then none else some m
  else mark

/-- A text without quote marks leaves open what was. -/
theorem foldl_markStep_code (h : ∀ c ∈ t, isQuote c = false) (mark : Option Char) :
    t.foldl markStep mark = mark := by
  induction t with
  | nil => rfl
  | cons c t ih =>
    obtain ⟨hc, h⟩ := List.forall_mem_cons.mp h
    have hstep : markStep mark c = mark := by simp [markStep, hc]
    rw [List.foldl_cons, hstep, ih h]

/-- Two marks with code between them cancel out. -/
theorem foldl_markStep_quoted (hm : isQuote m) (h : ∀ c ∈ t, isQuote c = false)
    (mark : Option Char) : (m :: (t ++ [m])).foldl markStep mark = mark := by
  rw [List.foldl_cons, List.foldl_append, foldl_markStep_code h, List.foldl_cons, List.foldl_nil]
  cases mark with
  | none => simp [markStep, hm]
  | some n =>
    by_cases hn : m = n
    · subst hn
      simp [markStep, hm]
    · simp [markStep, hm, hn]

/-- **In the script's quoting** the marks tell which literal is open. -/
theorem Lexed.foldl_markStep (h : Lexed .standard mark ls) (hmark : mark.all isQuote) :
    (ls.flatMap Lexeme.text).foldl markStep mark = markAfter mark ls := by
  induction h with
  | nil => rfl
  | code hc _ ih => simpa [Lexeme.text, Lexeme.markAfter, markStep, hc] using ih rfl
  | opening hc _ ih =>
    simpa [Lexeme.text, Lexeme.markAfter, markStep, hc] using ih (by simpa using hc)
  | inside _ hc _ ih => simpa [Lexeme.text, Lexeme.markAfter, markStep, hc] using ih hmark
  | doubled _ _ ih =>
    have hm := hmark
    rw [Option.all_some] at hm
    simpa [Lexeme.text, Lexeme.markAfter, markStep, hm] using ih hmark
  | escape he | escapeAtEnd he => simp [Escapes.escapes_standard] at he
  | closing _ _ _ ih =>
    have hm := hmark
    rw [Option.all_some] at hm
    simpa [Lexeme.text, Lexeme.markAfter, markStep, hm] using ih rfl

/-! ## One literal -/

/-- A literal is in quote marks. -/
theorem IsLiteral.isQuote (h : IsLiteral q m t) : isQuote m := by
  obtain ⟨body, -, hlexemes⟩ := h
  obtain ⟨hlexed, -⟩ := lexemes_eq_iff.mp hlexemes
  cases hlexed with
  | opening hm _ => exact hm

/-- It begins with its mark. -/
theorem IsLiteral.head? (h : IsLiteral q m t) (y : Text) : (t ++ y).head? = some m := by
  obtain ⟨body, -, -, -, rfl⟩ := h.exists_inner
  rfl

theorem IsLiteral.getLast? (h : IsLiteral q m t) : t.getLast? = some m := by
  obtain ⟨body, -, -, -, rfl⟩ := h.exists_inner
  rw [← List.cons_append, List.getLast?_concat]

/-- A literal leaves none open. -/
theorem IsLiteral.foldl_markStep (h : IsLiteral .standard m t) : t.foldl markStep none = none := by
  obtain ⟨body, hinner, -, hlexemes, -⟩ := h.exists_inner
  obtain ⟨hlexed, htext⟩ := lexemes_eq_iff.mp hlexemes
  rw [← htext, hlexed.foldl_markStep rfl, markAfter_cons, markAfter_append, markAfter_inner hinner]
  rfl

/-- Inside a literal, its marks close it only for the time up to the other half of a doubled
mark. -/
theorem eq_of_shut_inner {body : List Lexeme} {u v : Text} {d : Char} (hm : Literal.isQuote m)
    (h : Lexed .standard (some m) (body ++ [Lexeme.closing m])) (hinner : ∀ l ∈ body, l.isInner)
    (hcut : body.flatMap Lexeme.text ++ [m] = u ++ d :: v)
    (hshut : u.foldl markStep (some m) = none) :
    d = m := by
  induction body generalizing u with
  | nil =>
    cases u with
    | nil => simp at hshut
    | cons b u => simp at hcut
  | cons l body ih =>
    obtain ⟨hl, hinner'⟩ := List.forall_mem_cons.mp hinner
    cases h with
    | @inside _ c _ _ hc rest =>
      cases u with
      | nil => simp at hshut
      | cons b u =>
        obtain ⟨rfl, hrest⟩ : c = b ∧ body.flatMap Lexeme.text ++ [m] = u ++ d :: v := by
          simpa [Lexeme.text] using hcut
        have hstep : markStep (some m) c = some m := by simp [markStep, hc]
        rw [List.foldl_cons, hstep] at hshut
        exact ih rest hinner' hrest hshut
    | doubled _ rest =>
      cases u with
      | nil => simp at hshut
      | cons b u =>
        cases u with
        | nil =>
          have hhalf : m = b ∧ m = d ∧ body.flatMap Lexeme.text ++ [m] = v := by
            simpa [Lexeme.text] using hcut
          exact hhalf.2.1.symm
        | cons b' u =>
          obtain ⟨rfl, rfl, hrest⟩ : m = b ∧ m = b' ∧
              body.flatMap Lexeme.text ++ [m] = u ++ d :: v := by
            simpa [Lexeme.text] using hcut
          have hstep : markStep (markStep (some m) m) m = some m := by simp [markStep, hm]
          rw [List.foldl_cons, List.foldl_cons, hstep] at hshut
          exact ih rest hinner' hrest hshut
    | escape he | escapeAtEnd he => simp [Escapes.escapes_standard] at he
    | closing => simp [Lexeme.isInner] at hl

/-- Inside a literal, only its own mark stands outside of literals. -/
theorem IsLiteral.eq_of_shut {u v : Text} {d : Char} (h : IsLiteral .standard m t)
    (hcut : t = u ++ d :: v) (hshut : u.foldl markStep none = none) : d = m := by
  have hm := h.isQuote
  obtain ⟨body, hinner, hlexed, -, rfl⟩ := h.exists_inner
  cases u with
  | nil => exact (List.cons.inj hcut).1.symm
  | cons b u =>
    obtain ⟨rfl, hbody⟩ := List.cons.inj hcut
    have hstep : markStep none m = some m := by simp [markStep, hm]
    rw [List.foldl_cons, hstep] at hshut
    exact eq_of_shut_inner hm hlexed hinner hbody hshut

/-- A literal is read alike whatever follows, unless that doubles its closing mark. -/
theorem IsLiteral.lexemes_append (h : IsLiteral q m t) (hy : y.head? ≠ some m) :
    lexemes q (t ++ y) = lexemes q t ++ lexemes q y := by
  obtain ⟨body, hinner, -, hlexemes, -⟩ := h.exists_inner
  obtain ⟨hlexed, htext⟩ := lexemes_eq_iff.mp hlexemes
  have hmark : markAfter none (.opening m :: (body ++ [Lexeme.closing m])) = none := by
    rw [markAfter_cons, markAfter_append, markAfter_inner hinner]
    rfl
  have hlast : (Lexeme.opening m :: (body ++ [Lexeme.closing m])).getLast? = some (.closing m) := by
    rw [← List.cons_append, List.getLast?_concat]
  rw [hlexemes, lexemes_eq_iff]
  refine ⟨hlexed.append (by rw [hmark]; exact lexed_lexemes q y) ?_ ?_, ?_⟩
  · intro c hc
    obtain rfl : m = c := Lexeme.closing.inj (Option.some.inj (hlast.symm.trans hc))
    rwa [flatMap_text_lexemes]
  · intro c hc
    exact Lexeme.noConfusion (Option.some.inj (hlast.symm.trans hc))
  · rw [List.flatMap_append, htext, flatMap_text_lexemes]

/-- A literal is one segment. -/
theorem IsLiteral.segments_append (h : IsLiteral q m t) (hy : y.head? ≠ some m) :
    segments q (t ++ y) = .literal t :: segments q y := by
  obtain ⟨body, hinner, -, hlexemes, htext⟩ := h.exists_inner
  rw [segments_eq_segmentsOf, h.lexemes_append hy, hlexemes, List.cons_append, List.append_assoc,
    List.singleton_append, segmentsOf_literal hinner, ← htext, segments_eq_segmentsOf]

/-- A map over code keeps a literal. -/
theorem IsLiteral.mapCode_append (h : IsLiteral q m t) (f : Text → Text) (hy : y.head? ≠ some m) :
    mapCode q f (t ++ y) = t ++ mapCode q f y := by
  rw [mapCode, h.segments_append hy, List.flatMap_cons]
  rfl

/-- A map over code that keeps the empty run takes a run up to a quote mark as a whole. -/
theorem mapCode_run (hf : f [] = []) (hx : ∀ c ∈ x, isQuote c = false)
    (ht : t.head?.all isQuote) : mapCode q f (x ++ t) = f x ++ mapCode q f t := by
  by_cases hne : x = []
  · rw [hne, hf]
    rfl
  · exact mapCode_append f hne hx ht

/-! ## Restating escapes -/

open Escapes (onePass restated)

/-- The parts of a literal whose escapes are restated. -/
theorem IsLiteral.exists_restated (h : IsLiteral .mysql m t) (hm : m = '\'' ∨ '\\' ∉ t) :
    ∃ body : List Lexeme, (∀ l ∈ body, l.isInner) ∧
      lexemes .mysql t = .opening m :: (body ++ [Lexeme.closing m]) ∧
      t = m :: (body.flatMap Lexeme.text ++ [m]) ∧
      onePass t = m :: ((body.flatMap restated).flatMap Lexeme.text ++ [m]) ∧
      Lexed .mysql (some m) (body ++ [Lexeme.closing m]) ∧
      Lexed .standard (some m) (body.flatMap restated ++ [Lexeme.closing m]) := by
  obtain ⟨body, hinner, hlexed, hlexemes, rfl⟩ := h.exists_inner
  have hne := Escapes.ne_backslash_of_isQuote h.isQuote
  have hm' : m = '\'' ∨ '\\' ∉ body.flatMap Lexeme.text :=
    hm.imp_right fun hnot hmem => hnot (by simp [hmem])
  have hpass := Escapes.onePass_inner hlexed hinner
  refine ⟨body, hinner, hlexemes, rfl, ?_, hlexed, ?_⟩
  · rw [Escapes.onePass_cons hne]
    simpa [Lexeme.text, Escapes.onePass_cons hne, onePass] using hpass
  · exact Escapes.lexed_restated_inner hlexed hinner hm'
      (.closing (Escapes.escapes_standard m) (by simp) (.nil none))

/-- A literal with its escapes restated is one in the script's quoting. -/
theorem IsLiteral.onePass (h : IsLiteral .mysql m t) (hm : m = '\'' ∨ '\\' ∉ t) :
    IsLiteral .standard m (Escapes.onePass t) := by
  obtain ⟨body, hinner, -, -, hpass, -, hlexed⟩ := h.exists_restated hm
  refine ⟨body.flatMap restated, Escapes.isInner_restated hinner, ?_⟩
  rw [hpass, lexemes_eq_iff]
  exact ⟨.opening h.isQuote hlexed, by simp [Lexeme.text]⟩

/-- Restating escapes goes over a literal on its own. -/
theorem IsLiteral.onePass_append (h : IsLiteral .mysql m t) (y : Text) :
    Escapes.onePass (t ++ y) = Escapes.onePass t ++ Escapes.onePass y := by
  have hne := Escapes.ne_backslash_of_isQuote h.isQuote
  obtain ⟨body, hinner, hlexed, -, rfl⟩ := h.exists_inner
  -- Whatever follows, the inner lexemes are lexed before the rest of the text.
  have hlast : ∀ l, body.getLast? = some l → l.isInner :=
    fun l hl => hinner l (List.mem_of_getLast? hl)
  have hinside : Lexed .mysql (some m) (body ++ lexemesFrom .mysql (some m) (m :: y)) := by
    refine hlexed.left.append ?_ ?_ ?_
    · rw [markAfter_inner hinner]
      exact lexed_lexemesFrom _ _ _
    · intro c hc
      exact absurd (hlast _ hc) (by simp [Lexeme.isInner])
    · intro c hc
      obtain ⟨front, rfl⟩ := List.getLast?_eq_some_iff.mp hc
      have htail := (List.append_assoc front [.pair c none] _ ▸ hlexed).right
      generalize markAfter (some m) front = mark at htail
      cases htail with
      | escapeAtEnd _ hend => simp at hend
  have hpass := Escapes.onePass_inner hinside hinner
  have hself := Escapes.onePass_inner hlexed hinner
  rw [flatMap_text_lexemesFrom] at hpass
  rw [List.flatMap_singleton] at hself
  rw [List.cons_append, Escapes.onePass_cons hne, Escapes.onePass_cons hne, List.append_assoc]
  simp only [Lexeme.text, List.singleton_append, Escapes.onePass_cons hne] at hpass hself ⊢
  rw [hpass, hself]
  simp [Escapes.onePass]

/-- The value of a literal in single marks stays just if no double mark is escaped. -/
theorem IsLiteral.decode_onePass_iff (h : IsLiteral .mysql '\'' t) :
    decode .standard (Escapes.onePass t).tail.dropLast = decode .mysql t.tail.dropLast ↔
      .pair '\\' (some '"') ∉ lexemes .mysql t := by
  obtain ⟨body, hinner, hlexemes, htext, hpass, hlexed, hrestated⟩ := h.exists_restated (Or.inl rfl)
  have hbody (x : Text) : (('\'' :: (x ++ ['\''])).tail).dropLast = x := by simp
  rw [hlexemes, hpass, htext, hbody, hbody,
    Escapes.decode_inner hrestated (Escapes.isInner_restated hinner),
    Escapes.decode_inner hlexed hinner, List.flatMap_assoc, Escapes.flatMap_eq_iff fun l =>
      (Escapes.flatMap_value_restated l).imp_right And.right]
  constructor
  · intro hall hmem
    have hbad : .pair '\\' (some '"') ∈ body := by simpa using hmem
    exact absurd (hall _ hbad) (by decide)
  · intro hnot l hl
    rcases Escapes.flatMap_value_restated l with hsame | ⟨rfl, -⟩
    · exact hsame
    · exact absurd (by simp [hl]) hnot

/-! ## Blocks -/

/-- `Blocks q x`: the text is code and whole literals in turn. -/
inductive Blocks (q : Quoting) : Text → Prop
  | code {c : Text} (hc : ∀ d ∈ c, isQuote d = false) : Blocks q c
  | literal {m : Char} {c t x : Text} (hc : ∀ d ∈ c, isQuote d = false) (ht : IsLiteral q m t)
      (hnext : x.head? ≠ some m) (rest : Blocks q x) : Blocks q (c ++ (t ++ x))

theorem Blocks.cons (h : Blocks q x) (hc : isQuote c = false) : Blocks q (c :: x) := by
  cases h with
  | code hx => exact .code (List.forall_mem_cons.mpr ⟨hc, hx⟩)
  | literal hx ht hnext rest =>
    exact .literal (c := c :: _) (List.forall_mem_cons.mpr ⟨hc, hx⟩) ht hnext rest

/-- Lexemes that leave no literal open are code and whole literals. -/
theorem Lexed.blocks (h : Lexed q none ls) (hshut : markAfter none ls = none) :
    Blocks q (ls.flatMap Lexeme.text) := by
  induction h using Lexed.blockInduction with
  | nil => exact .code (by simp)
  | code hc rest ih => exact (ih hshut).cons hc
  | openLiteral hm inner hinner =>
    rw [markAfter_cons, markAfter_inner hinner] at hshut
    simp [Lexeme.markAfter] at hshut
  | @literal m body ls hm inner hinner rest ih =>
    have hclosing := inner.right
    rw [markAfter_inner hinner] at hclosing
    have hnext : (ls.flatMap Lexeme.text).head? ≠ some m := by
      cases hclosing with
      | closing _ hnext _ => exact hnext
    have hliteral : IsLiteral q m (m :: (body.flatMap Lexeme.text ++ [m])) := by
      refine ⟨body, hinner, lexemes_eq_iff.mpr ⟨.opening hm ?_, by simp [Lexeme.text]⟩⟩
      have hsplit : Lexed q (some m) ((body ++ [Lexeme.closing m]) ++ ls) := by simpa using inner
      exact hsplit.left
    rw [markAfter_cons, markAfter_append, markAfter_inner hinner] at hshut
    have hblocks := Blocks.literal (c := []) (by simp) hliteral hnext (ih hshut)
    simpa [Lexeme.text] using hblocks

/-- **A text that leaves no literal open** is code and whole literals. -/
theorem blocks_of_shut (h : x.foldl markStep none = none) : Blocks .standard x := by
  have hlexed := lexed_lexemes .standard x
  have hmarks := hlexed.foldl_markStep rfl
  rw [flatMap_text_lexemes, h] at hmarks
  have hblocks := hlexed.blocks hmarks.symm
  rwa [flatMap_text_lexemes] at hblocks

theorem isWord_of_isQuote (h : isQuote c) : isWord c = false := by
  rw [isQuote, Bool.or_eq_true, decide_eq_true_eq, decide_eq_true_eq] at h
  rcases h with rfl | rfl
  · decide
  · decide

theorem getLast?_literal_append (ht : IsLiteral q m t) (c x : Text) :
    (c ++ (t ++ x)).getLast? = x.getLast?.or (some m) := by
  rw [List.getLast?_append, List.getLast?_append, ht.getLast?]
  cases x.getLast? <;> rfl

/-- **A map over the code of blocks**, with the code `w` after them and then a literal.
If the map keeps `w` behind any run of code that ends as the blocks do, it keeps it
behind the blocks. -/
theorem Blocks.exists_mapCode (hx : Blocks .standard x) (hblank : x.getLast?.all isBlank)
    (hf : f [] = []) (hcode : ∀ c, (∀ d ∈ c, isQuote d = false) → ∀ d ∈ f c, isQuote d = false)
    (hw : ∀ d ∈ w, isQuote d = false)
    (hkeeps : ∀ u c, x = u ++ c → u.getLast?.any isWord = false → c.getLast?.all isBlank →
      ∃ z, f (c ++ w) = z ++ w ∧ z.getLast? = c.getLast?)
    (hy : y.head?.all Literal.isQuote) :
    ∃ z, mapCode .standard f (x ++ (w ++ y)) = z ++ (w ++ mapCode .standard f y) ∧
      z.getLast? = x.getLast? ∧ z.foldl markStep none = none := by
  induction hx with
  | @code c hc =>
    have hrun : ∀ d ∈ c ++ w, Literal.isQuote d = false := List.forall_mem_append.mpr ⟨hc, hw⟩
    obtain ⟨z, hz, hlast⟩ := hkeeps [] c rfl rfl hblank
    refine ⟨z, ?_, hlast, ?_⟩
    · rw [← List.append_assoc, mapCode_run hf hrun hy, hz, List.append_assoc]
    · refine foldl_markStep_code (fun d hd => ?_) none
      exact hcode _ hrun d (hz ▸ List.mem_append_left w hd)
  | @literal m c t x hc ht hnext rest ih =>
    rw [getLast?_literal_append ht] at hblank
    have hblank' : x.getLast?.all isBlank := by
      cases hlast : x.getLast? with
      | none => rfl
      | some d => simpa [hlast] using hblank
    -- A later run of code stands behind the mark of a literal.
    have hkeeps' : ∀ u c, x = u ++ c → u.getLast?.any isWord = false →
        c.getLast?.all isBlank → ∃ z, f (c ++ w) = z ++ w ∧ z.getLast? = c.getLast? := by
      intro u d hx hu
      refine hkeeps (c ++ (t ++ u)) d (by rw [hx]; simp only [List.append_assoc]) ?_
      rw [getLast?_literal_append ht]
      cases hlast : u.getLast? with
      | none => exact isWord_of_isQuote ht.isQuote
      | some b => simpa [hlast] using hu
    obtain ⟨z, hz, hlast, hshut⟩ := ih hblank' hkeeps'
    -- A mark right after the literal would have to begin what follows the blocks.
    have hnext' : (x ++ (w ++ y)).head? ≠ some m := by
      cases x with
      | nil =>
        have hm : isBlank m := by simpa using hblank
        have hquote := ht.isQuote
        rw [Literal.isQuote, Bool.or_eq_true, decide_eq_true_eq, decide_eq_true_eq] at hquote
        rcases hquote with rfl | rfl
        · exact absurd hm (by decide)
        · exact absurd hm (by decide)
      | cons d x => exact hnext
    have hhead : (t ++ (x ++ (w ++ y))).head?.all Literal.isQuote := by
      rw [ht.head?]
      exact ht.isQuote
    refine ⟨f c ++ (t ++ z), ?_, ?_, ?_⟩
    · rw [List.append_assoc, List.append_assoc, mapCode_run hf hc hhead,
        ht.mapCode_append f hnext', hz]
      simp only [List.append_assoc]
    · rw [getLast?_literal_append ht, getLast?_literal_append ht, hlast]
    · rw [List.foldl_append, foldl_markStep_code (hcode c hc) none, List.foldl_append,
        ht.foldl_markStep, hshut]

end DumpBridge.Literal
