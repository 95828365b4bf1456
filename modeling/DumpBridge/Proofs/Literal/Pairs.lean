import DumpBridge.Proofs.Literal.Matching

/-!
# All parentheses in one scan

`pairs` goes over a text once, from its start, and keeps the parentheses that are
open on a stack: a closing one takes the innermost from it.  A search that starts
anew at a place outside literals finds nothing else.  `openingByte?_append` says so
of the next opening parenthesis, and `closingByte?_eq_some_iff_mem_pairs` of the one
that closes it.
-/

namespace DumpBridge.Literal

open Text (byteLength byteLength_append byteLength_cons append_inj_of_byteLength)

/-- The parentheses that match, by their byte offsets.  The first lexeme stands at byte `offset`,
and `stack` has the offsets of those that are open, the innermost first. -/
def pairsFrom : Nat → List Nat → List Lexeme → List (Nat × Nat)
  | _, _, [] => []
  | offset, stack, l :: rest =>
    if l = .code '(' then pairsFrom (offset + 1) (offset :: stack) rest
    else if l = .code ')' then
      match stack with
      | [] => pairsFrom (offset + 1) [] rest
      | p :: stack => (p, offset) :: pairsFrom (offset + 1) stack rest
    else pairsFrom (offset + byteLength l.text) stack rest

/-- The parentheses outside literals that match, in the order in which one scan sees them close. -/
def pairs (q : Quoting) (t : Text) : List (Nat × Nat) :=
  pairsFrom 0 [] (lexemes q t)

/-- The scan of the text from its start reads the lexeme `l` at byte `k`. -/
def SeenAt (q : Quoting) (t : Text) (l : Lexeme) (k : Nat) : Prop :=
  ∃ front rest, lexemes q t = front ++ l :: rest ∧ byteLength (front.flatMap Lexeme.text) = k

/-- The scan of the text from its start comes to byte `k` outside literals. -/
def OutsideAt (q : Quoting) (t : Text) (k : Nat) : Prop :=
  ∃ front rest, lexemes q t = front ++ rest ∧ markAfter none front = none ∧
    byteLength (front.flatMap Lexeme.text) = k

variable {q : Quoting} {t s before : Text} {ls front rest : List Lexeme} {l : Lexeme}
  {offset p c : Nat} {inner stack : List Nat}

/-! ## Places outside literals -/

/-- **A place outside literals** cuts the lexemes as it cuts the text. -/
theorem outsideAt_iff : OutsideAt q (before ++ s) (byteLength before) ↔
    lexemes q (before ++ s) = lexemes q before ++ lexemes q s ∧
      markAfter none (lexemes q before) = none := by
  constructor
  · intro h
    obtain ⟨front, rest, hcut, hmark, hlength⟩ := h
    obtain ⟨hlexed, htext⟩ := lexemes_eq_iff.mp hcut
    rw [List.flatMap_append] at htext
    obtain ⟨rfl, rfl⟩ := append_inj_of_byteLength htext hlength
    have hfront : lexemes q (front.flatMap Lexeme.text) = front :=
      lexemes_eq_iff.mpr ⟨hlexed.left, rfl⟩
    have hrest : lexemes q (rest.flatMap Lexeme.text) = rest :=
      lexemes_eq_iff.mpr ⟨hmark ▸ hlexed.right, rfl⟩
    rw [hcut, hfront, hrest]
    exact ⟨rfl, hmark⟩
  · intro h
    exact ⟨_, _, h.1, h.2, by rw [flatMap_text_lexemes]⟩

/-- A place that the scan comes to cuts the text in two. -/
theorem exists_of_outsideAt {k : Nat} (h : OutsideAt q t k) :
    ∃ before s, t = before ++ s ∧ byteLength before = k := by
  obtain ⟨front, rest, hcut, -, hlength⟩ := h
  obtain ⟨-, htext⟩ := lexemes_eq_iff.mp hcut
  rw [List.flatMap_append] at htext
  exact ⟨_, _, htext.symm, hlength⟩

/-! ## The next opening parenthesis -/

/-- The search passes over as many characters as it is told to skip. -/
theorem openingFrom_append (front rest : List Lexeme) :
    openingFrom (front.flatMap Lexeme.text).length (front ++ rest) =
      (openingFrom 0 rest).map (· + (front.flatMap Lexeme.text).length) := by
  induction front with
  | nil => simp
  | cons l front ih =>
    have hstep : ∀ skip, skip = l.text.length + (front.flatMap Lexeme.text).length →
        openingFrom skip (l :: (front ++ rest)) =
          (openingFrom (skip - l.text.length) (front ++ rest)).map (· + l.text.length) := by
      intro skip hskip
      cases l with
      | code d =>
        have hlater : skip ≠ 0 := by
          rw [hskip]
          simp [Lexeme.text]
        simp [openingFrom, hlater, Lexeme.text]
      | opening | inside | pair | closing => rfl
    rw [List.flatMap_cons, List.length_append, List.cons_append, hstep _ rfl,
      Nat.add_sub_cancel_left, ih, Option.map_map]
    congr 1
    funext n
    simp only [Function.comp]
    omega

/-- **The next opening parenthesis** is found alike from a place outside literals and in what
follows that place. -/
theorem openingByte?_append (h : OutsideAt q (before ++ s) (byteLength before)) :
    openingByte? q (before ++ s) (byteLength before) =
      (openingByte? q s 0).map (byteLength before + ·) := by
  have hskip := openingFrom_append (lexemes q before) (lexemes q s)
  rw [flatMap_text_lexemes] at hskip
  have hzero : Text.charIndexFrom s 0 = 0 := by cases s <;> rfl
  rw [openingByte?, openingByte?, opening?, opening?, Text.charIndexFrom_append,
    (outsideAt_iff.mp h).1, hskip, hzero, Option.map_map, Option.map_map]
  congr 1
  funext n
  simp only [Function.comp, Text.byteOffset]
  rw [Nat.add_comm, List.take_length_add_append, byteLength_append]

/-! ## The parenthesis that closes it -/

theorem pairsFrom_open (offset : Nat) (stack : List Nat) (rest : List Lexeme) :
    pairsFrom offset stack (.code '(' :: rest) = pairsFrom (offset + 1) (offset :: stack) rest := by
  cases stack <;> rfl

theorem pairsFrom_close_nil (offset : Nat) (rest : List Lexeme) :
    pairsFrom offset [] (.code ')' :: rest) = pairsFrom (offset + 1) [] rest := rfl

theorem pairsFrom_close (offset p : Nat) (stack : List Nat) (rest : List Lexeme) :
    pairsFrom offset (p :: stack) (.code ')' :: rest) =
      (p, offset) :: pairsFrom (offset + 1) stack rest := rfl

theorem pairsFrom_of_ne (hopen : l ≠ .code '(') (hclose : l ≠ .code ')') :
    pairsFrom offset stack (l :: rest) = pairsFrom (offset + byteLength l.text) stack rest := by
  cases stack <;> simp [pairsFrom, hopen, hclose]

/-- What is neither on the stack nor still to come matches nothing. -/
theorem not_mem_pairsFrom (hp : p < offset) (hstack : p ∉ stack) :
    (p, c) ∉ pairsFrom offset stack ls := by
  fun_induction pairsFrom offset stack ls with
  | case1 => simp
  | case2 offset stack rest ih =>
    exact ih (by omega) (by simpa using ⟨by omega, hstack⟩)
  | case3 offset rest _ ih => exact ih (by omega) hstack
  | case4 offset rest p' stack' _ ih =>
    rw [List.mem_cons, not_or] at hstack ⊢
    refine ⟨?_, ih (by omega) hstack.2⟩
    simp [hstack.1]
  | case5 offset stack l rest _ _ ih => exact ih (by omega) hstack

/-- **A parenthesis on the stack** is closed where the search for its group ends. -/
theorem mem_pairsFrom_iff (hp : p < offset) (hinner : p ∉ inner) (hstack : p ∉ stack) :
    (p, c) ∈ pairsFrom offset (inner ++ p :: stack) ls ↔
      ∃ group, groupFrom (inner.length + 1) ls = some group ∧
        c = offset + byteLength (group.flatMap Lexeme.text) := by
  induction ls generalizing offset inner with
  | nil => simp [pairsFrom, groupFrom]
  | cons l ls ih =>
    -- Unless it closes the parenthesis, a lexeme goes before the group.
    have hnext : ∀ depth n, groupFrom (inner.length + 1) (l :: ls) =
        (groupFrom depth ls).map (l :: ·) →
        byteLength l.text = n →
        ((∃ group, groupFrom (inner.length + 1) (l :: ls) = some group ∧
            c = offset + byteLength (group.flatMap Lexeme.text)) ↔
          ∃ group, groupFrom depth ls = some group ∧
            c = offset + n + byteLength (group.flatMap Lexeme.text)) := by
      intro depth n hgroup hn
      constructor
      · intro h
        obtain ⟨group, hfound, hc⟩ := h
        rw [hgroup] at hfound
        obtain ⟨tail, htail, rfl⟩ := Option.map_eq_some_iff.mp hfound
        exact ⟨tail, htail, by simpa [hn, Nat.add_assoc] using hc⟩
      · intro h
        obtain ⟨group, hfound, hc⟩ := h
        exact ⟨l :: group, by rw [hgroup, hfound]; rfl, by simpa [hn, Nat.add_assoc] using hc⟩
    by_cases hopen : l = .code '('
    · subst hopen
      rw [hnext (inner.length + 2) 1 (by simp [groupFrom, Lexeme.depthAfter]) rfl, pairsFrom_open,
        ← List.cons_append, ih (by omega) (by simpa using ⟨by omega, hinner⟩)]
      rfl
    · by_cases hclose : l = .code ')'
      · subst hclose
        cases inner with
        | nil =>
          have hlater : (p, c) ∉ pairsFrom (offset + 1) stack ls :=
            not_mem_pairsFrom (Nat.lt_succ_of_lt hp) hstack
          rw [List.nil_append, pairsFrom_close]
          simp [groupFrom, hlater]
        | cons x inner =>
          rw [List.mem_cons, not_or] at hinner
          obtain ⟨hx, hinner⟩ := hinner
          rw [hnext (inner.length + 1) 1 (by simp [groupFrom, Lexeme.depthAfter]) rfl,
            List.cons_append, pairsFrom_close, ← ih (by omega) hinner]
          simp [hx]
      · have hdepth : l.depthAfter (inner.length + 1) = inner.length + 1 := by
          unfold Lexeme.depthAfter
          split <;> simp_all
        rw [hnext (inner.length + 1) (byteLength l.text) (by simp [groupFrom, hclose, hdepth])
          rfl, pairsFrom_of_ne hopen hclose, ih (by omega) hinner]

/-- What is read before a parenthesis has no part in what closes it. -/
theorem mem_pairsFrom_append_iff (hstack : ∀ x ∈ stack, x < offset)
    (hp : p = offset + byteLength (front.flatMap Lexeme.text)) :
    (p, c) ∈ pairsFrom offset stack (front ++ .code '(' :: rest) ↔
      ∃ group, groupFrom 1 rest = some group ∧
        c = p + 1 + byteLength (group.flatMap Lexeme.text) := by
  induction front generalizing offset stack with
  | nil =>
    obtain rfl : p = offset := hp
    have hnot : p ∉ stack := fun hmem => Nat.lt_irrefl p (hstack p hmem)
    rw [List.nil_append, pairsFrom_open]
    change (p, c) ∈ pairsFrom (p + 1) ([] ++ p :: stack) rest ↔ _
    exact mem_pairsFrom_iff (Nat.lt_succ_self p) List.not_mem_nil hnot
  | cons l front ih =>
    rw [List.flatMap_cons, byteLength_append, ← Nat.add_assoc] at hp
    have hlater : ∀ n, ∀ x ∈ stack, x < offset + n := by
      intro n x hx
      have := hstack x hx
      omega
    rw [List.cons_append]
    by_cases hopen : l = .code '('
    · subst hopen
      rw [pairsFrom_open]
      exact ih (List.forall_mem_cons.mpr ⟨Nat.lt_succ_self _, hlater 1⟩) hp
    · by_cases hclose : l = .code ')'
      · subst hclose
        cases stack with
        | nil =>
          rw [pairsFrom_close_nil]
          exact ih (by simp) hp
        | cons x stack =>
          -- What was open before stands before byte `offset`, and `p` does not.
          have hx : p ≠ x := by
            have := hstack x List.mem_cons_self
            omega
          rw [pairsFrom_close, ← ih (fun y hy => hlater 1 y (List.mem_cons_of_mem x hy)) hp]
          simp [hx]
      · rw [pairsFrom_of_ne hopen hclose]
        exact ih (hlater _) hp

/-- The parenthesis that closes one is where its group ends. -/
theorem closing?_cons (q : Quoting) (s : Text) :
    closing? q ('(' :: s) =
      (groupFrom 1 (lexemes q s)).map fun group => (group.flatMap Lexeme.text).length + 1 := by
  have hstart : Text.startsWith '(' ('(' :: s) := by simp [Text.startsWith]
  rw [closing?, if_pos hstart, lexemes_code (by decide), groupFrom, if_neg (by decide),
    Option.map_map]
  congr 1

/-- **The parenthesis that closes** one outside literals is the one that the scan of the whole text
sees close it, and none if that sees none. -/
theorem closingByte?_eq_some_iff_mem_pairs (h : SeenAt q t (.code '(') p) :
    closingByte? q t p = some c ↔ (p, c) ∈ pairs q t := by
  obtain ⟨front, rest, hcut, hlength⟩ := h
  obtain ⟨hlexed, htext⟩ := lexemes_eq_iff.mp hcut
  have hrest : lexemes q (rest.flatMap Lexeme.text) = rest :=
    lexemes_eq_iff.mpr ⟨((lexed_append_code_iff (by decide)).mp hlexed).2.2, rfl⟩
  rw [List.flatMap_append, List.flatMap_cons] at htext
  change _ ++ '(' :: rest.flatMap Lexeme.text = t at htext
  rw [pairs, hcut, mem_pairsFrom_append_iff (by simp) (by rw [Nat.zero_add, hlength]), ← htext,
    ← hlength, closingByte?_append, closing?_cons, hrest, Option.map_map]
  -- The characters before the parenthesis that is found are those of the group.
  have htake : ∀ group, groupFrom 1 rest = some group →
      ('(' :: rest.flatMap Lexeme.text).take ((group.flatMap Lexeme.text).length + 1) =
        '(' :: group.flatMap Lexeme.text := by
    intro group hgroup
    obtain ⟨-, after, rfl⟩ := (groupFrom_eq_some_iff (Nat.le_refl 1)).mp hgroup
    simp
  constructor
  · intro hfound
    obtain ⟨group, hgroup, hc⟩ := Option.map_eq_some_iff.mp hfound
    refine ⟨group, hgroup, ?_⟩
    rw [← hc, Function.comp, htake group hgroup, byteLength_cons, ← Nat.add_assoc]
    rfl
  · intro h
    obtain ⟨group, hgroup, hc⟩ := h
    refine Option.map_eq_some_iff.mpr ⟨group, hgroup, ?_⟩
    rw [hc, Function.comp, htake group hgroup, byteLength_cons, ← Nat.add_assoc]
    rfl

/-- Parentheses that match stand on the stack or among the lexemes. -/
theorem exists_of_mem_pairsFrom (h : (p, c) ∈ pairsFrom offset stack ls) :
    (p ∈ stack ∨ ∃ front rest : List Lexeme, ls = front ++ Lexeme.code '(' :: rest ∧
        p = offset + byteLength (front.flatMap Lexeme.text)) ∧
      ∃ front rest : List Lexeme, ls = front ++ Lexeme.code ')' :: rest ∧
        c = offset + byteLength (front.flatMap Lexeme.text) := by
  -- Among the lexemes after the first one they stand that much later.
  have hcons : ∀ {ls : List Lexeme} {l d : Lexeme} {k offset n : Nat}, byteLength l.text = n →
      (∃ front rest : List Lexeme, ls = front ++ d :: rest ∧
        k = offset + n + byteLength (front.flatMap Lexeme.text)) →
      ∃ front rest : List Lexeme, l :: ls = front ++ d :: rest ∧
        k = offset + byteLength (front.flatMap Lexeme.text) := by
    intro ls l d k offset n hn hlater
    obtain ⟨front, rest, rfl, hk⟩ := hlater
    refine ⟨l :: front, rest, rfl, ?_⟩
    rw [List.flatMap_cons, byteLength_append, hn, ← Nat.add_assoc, hk]
  fun_induction pairsFrom offset stack ls with
  | case1 => simp at h
  | case2 offset stack rest ih =>
    obtain ⟨hp, hc⟩ := ih h
    refine ⟨?_, hcons rfl hc⟩
    rcases hp with hp | hp
    · rcases List.mem_cons.mp hp with rfl | hp
      · exact .inr ⟨[], rest, rfl, rfl⟩
      · exact .inl hp
    · exact .inr (hcons rfl hp)
  | case3 offset rest _ ih =>
    obtain ⟨hp, hc⟩ := ih h
    exact ⟨hp.imp_right (hcons rfl), hcons rfl hc⟩
  | case4 offset rest p' stack' _ ih =>
    rcases List.mem_cons.mp h with heq | h
    · obtain ⟨rfl, rfl⟩ := Prod.mk.inj heq
      exact ⟨.inl List.mem_cons_self, [], rest, rfl, rfl⟩
    · obtain ⟨hp, hc⟩ := ih h
      exact ⟨hp.imp (List.mem_cons_of_mem p') (hcons rfl), hcons rfl hc⟩
  | case5 offset stack l rest _ _ ih =>
    obtain ⟨hp, hc⟩ := ih h
    exact ⟨hp.imp_right (hcons rfl), hcons rfl hc⟩

/-- Parentheses that match are seen outside literals. -/
theorem seenAt_of_mem_pairs (h : (p, c) ∈ pairs q t) :
    SeenAt q t (.code '(') p ∧ SeenAt q t (.code ')') c := by
  obtain ⟨hopen, front, rest, hclose, hc⟩ := exists_of_mem_pairsFrom h
  obtain ⟨front', rest', hopen, hp⟩ := hopen.resolve_left List.not_mem_nil
  rw [Nat.zero_add] at hc hp
  exact ⟨⟨front', rest', hopen, hp.symm⟩, front, rest, hclose, hc.symm⟩

end DumpBridge.Literal
