import DumpBridge.Proofs.Text.Words

/-!
# The preferred match

What a match sets aside depends on which of its ways is the first.  Along a
sequence the first way of each part is followed as long as the rest succeeds
(`head?_ends_append`), and a part that can take the text in one way only leaves
no choice (`TakesOnly.head?_ends`).
-/

namespace DumpBridge.Text

/-- The place after the characters `x`, which follow `c`. -/
def Cursor.advance (c : Cursor) (x : Text) : Cursor :=
  { before := x.getLast?.or c.before
    rest := c.rest.drop x.length
    taken := c.taken + x.length
    captures := c.captures }

/-- A cursor that got somewhere and set nothing aside has advanced. -/
theorem Cursor.Reaches.eq_advance {c d : Cursor} {x : Text} (h : c.Reaches x d)
    (hcaptures : d.captures = c.captures) : d = c.advance x := by
  obtain ⟨before, rest, taken, captures⟩ := d
  obtain ⟨hrest, rfl, rfl⟩ := h
  obtain rfl := hcaptures
  simp [advance, hrest]

theorem Cursor.rest_advance {c : Cursor} {x rest : Text} (h : c.rest = x ++ rest) :
    (c.advance x).rest = rest := by
  simp [advance, h]

theorem Cursor.advance_advance (c : Cursor) (x y : Text) :
    (c.advance x).advance y = c.advance (x ++ y) := by
  simp [advance, List.getLast?_append, Option.or_assoc, Nat.add_assoc]

theorem Cursor.advance_nil (c : Cursor) : c.advance [] = c := by
  simp [advance]

theorem Cursor.captured_advance (c : Cursor) (x : Text) (slot : Nat) :
    (c.advance x).captured slot = c.captured slot := rfl

/-- The place after the characters `x`, which are set aside. -/
def Cursor.setAside (c : Cursor) (slot : Nat) (x : Text) : Cursor :=
  { c.advance x with captures := ⟨slot, c.rest, x.length⟩ :: c.captures }

theorem Cursor.rest_setAside {c : Cursor} {x rest : Text} (slot : Nat) (h : c.rest = x ++ rest) :
    (c.setAside slot x).rest = rest :=
  rest_advance h

theorem Cursor.capture?_setAside {c : Cursor} {x rest : Text} (slot : Nat)
    (h : c.rest = x ++ rest) : (c.setAside slot x).capture? slot = some x := by
  simp [setAside, capture?, Capture.text, h]

theorem Cursor.captured_setAside {c : Cursor} {x rest : Text} (slot : Nat)
    (h : c.rest = x ++ rest) : (c.setAside slot x).captured slot = x := by
  rw [captured, capture?_setAside slot h, Option.getD_some]

/-- Other slots stay as they are. -/
theorem Cursor.captured_setAside_of_ne {slot other : Nat} (h : slot ≠ other) (c : Cursor)
    (x : Text) : (c.setAside slot x).captured other = c.captured other := by
  simp [setAside, captured, capture?, h]

namespace Pattern

/-- Whether the pattern sets nothing aside. -/
def isPlain : Pattern → Bool
  | seq a b | alt a b => a.isPlain && b.isPlain
  | star a | starLazy a => a.isPlain
  | capture _ _ => false
  | _ => true

variable {a b p : Pattern} {c d e : Cursor} {before : Option Char} {x y rest : Text}

theorem captures_skip (q : Char → Bool) (c : Cursor) : (c.skip q).captures = c.captures := by
  have hfrom : ∀ captures last taken t,
      (Cursor.skipFrom q captures last taken t).captures = captures := by
    intro captures last taken t
    induction t generalizing last taken with
    | nil => rfl
    | cons x t ih =>
      rw [Cursor.skipFrom]
      split
      · exact ih _ _
      · rfl
  rw [Cursor.skip]
  split
  · rfl
  · split
    · exact hfrom _ _ _ _
    · rfl

/-- A chain of rounds that set nothing aside sets nothing aside. -/
theorem Chain.captures {step : Cursor → List Cursor} {n : Nat}
    (hstep : ∀ c d, d ∈ step c → d.captures = c.captures) (h : Chain step n c d) :
    d.captures = c.captures := by
  induction h with
  | stop n c => rfl
  | round hd _ _ ih => rw [ih, hstep _ _ hd]

/-- A plain pattern sets nothing aside. -/
theorem captures_of_mem_ends (hplain : p.isPlain) (hd : d ∈ p.ends c) :
    d.captures = c.captures := by
  induction p generalizing c d with
  | nothing => rw [List.mem_singleton.mp hd]
  | one q =>
    rw [ends] at hd
    split at hd
    · simp at hd
    · split at hd
      · rw [List.mem_singleton.mp hd]
      · simp at hd
  | run q => rw [List.mem_singleton.mp hd, captures_skip]
  | seq a b iha ihb =>
    rw [isPlain, Bool.and_eq_true] at hplain
    obtain ⟨e, he, hd⟩ := List.mem_flatMap.mp hd
    rw [ihb hplain.2 hd, iha hplain.1 he]
  | alt a b iha ihb =>
    rw [isPlain, Bool.and_eq_true] at hplain
    rcases List.mem_append.mp hd with hd | hd
    · exact iha hplain.1 hd
    · exact ihb hplain.2 hd
  | star a ih =>
    rcases (mem_greedy_iff c.rest).mp hd with hchain | hd
    · exact hchain.captures fun _ _ => ih hplain
    · simp at hd
  | starLazy a ih =>
    rcases (mem_reluctant_iff c.rest).mp hd with hchain | hd
    · exact hchain.captures fun _ _ => ih hplain
    · simp at hd
  | capture slot a => simp [isPlain] at hplain
  | edge | textEnd =>
    rw [ends] at hd
    split at hd
    · rw [List.mem_singleton.mp hd]
    · simp at hd

/-- What is set aside is what the part takes. -/
theorem captured_of_mem_ends {slot : Nat} (hd : d ∈ (capture slot a).ends c) :
    ∃ y, c.Reaches y d ∧ a.Takes c.before y d.rest ∧ d.captured slot = y := by
  obtain ⟨stop, hstop, rfl⟩ := List.mem_map.mp hd
  obtain ⟨y, hreach, htakes⟩ := reaches_of_mem_ends a hstop
  refine ⟨y, ⟨hreach.rest, hreach.before, hreach.taken⟩, htakes, ?_⟩
  simp [Cursor.captured, Cursor.capture?, Capture.text, hreach.taken, hreach.rest]

/-- It stays so while a plain pattern goes on. -/
theorem captured_of_mem_ends_append {slot : Nat} (hb : b.isPlain)
    (hd : d ∈ (capture slot a ++ b).ends c) :
    ∃ y z, c.rest = y ++ (z ++ d.rest) ∧ a.Takes c.before y (z ++ d.rest) ∧
      b.Takes (y.getLast?.or c.before) z d.rest ∧ d.captured slot = y := by
  obtain ⟨stop, hstop, hend⟩ := List.mem_flatMap.mp hd
  obtain ⟨y, hy, htakes, hcaptured⟩ := captured_of_mem_ends hstop
  obtain ⟨z, hz, htakes'⟩ := reaches_of_mem_ends b hend
  rw [hz.rest] at htakes
  rw [hy.before] at htakes'
  refine ⟨y, z, by rw [hy.rest, hz.rest], htakes, htakes', ?_⟩
  rw [← hcaptured, Cursor.captured, Cursor.capture?, captures_of_mem_ends hb hend]
  rfl

/-! ## One way only -/

/-- `p.TakesOnly before x rest`: of a text `x ++ rest` the pattern can take `x` and
nothing else. -/
structure TakesOnly (p : Pattern) (before : Option Char) (x rest : Text) : Prop where
  takes : p.Takes before x rest
  only : ∀ y m, x ++ rest = y ++ m → p.Takes before y m → y = x

/-- **Where there is one way to match**, the preferred match takes it. -/
theorem TakesOnly.head?_ends (h : p.TakesOnly c.before x rest) (hplain : p.isPlain)
    (hrest : c.rest = x ++ rest) : (p.ends c).head? = some (c.advance x) := by
  obtain ⟨d, hd, -⟩ := exists_mem_ends p hrest h.takes
  cases hends : p.ends c with
  | nil => simp [hends] at hd
  | cons e others =>
    have he : e ∈ p.ends c := by simp [hends]
    obtain ⟨y, hreach, htakes⟩ := reaches_of_mem_ends p he
    obtain rfl := h.only y e.rest (hrest.symm.trans hreach.rest) htakes
    rw [List.head?_cons, hreach.eq_advance (captures_of_mem_ends hplain he)]

/-- A sequence has one way to match if its parts have. -/
theorem takesOnly_append (ha : a.TakesOnly before x (y ++ rest))
    (hb : b.TakesOnly (x.getLast?.or before) y rest) : (a ++ b).TakesOnly before (x ++ y) rest := by
  refine ⟨⟨x, y, rfl, ha.takes, hb.takes⟩, ?_⟩
  rintro _ m hsplit ⟨u, v, rfl, hu, hv⟩
  rw [List.append_assoc, List.append_assoc] at hsplit
  obtain rfl := ha.only u (v ++ m) hsplit hu
  rw [hb.only v m (List.append_cancel_left hsplit) hv]

/-- A class has one way to match a character. -/
theorem takesOnly_one {q : Char → Bool} {d : Char} (hd : q d) :
    (one q).TakesOnly before [d] rest := by
  refine ⟨⟨d, rfl, hd⟩, ?_⟩
  rintro _ m hsplit ⟨e, rfl, -⟩
  obtain ⟨rfl, -⟩ := List.cons.inj hsplit
  rfl

/-- A run has one way to match: all there is. -/
theorem takesOnly_run {q : Char → Bool} (hx : ∀ d ∈ x, q d)
    (hrest : rest.head?.any q = false) : (run q).TakesOnly before x rest := by
  refine ⟨⟨hx, hrest⟩, ?_⟩
  rintro y m hsplit ⟨hy, hm⟩
  exact (span_inj hx hy hrest hm hsplit).1.symm

/-- So has a stretch of a class that is not empty. -/
theorem takesOnly_someOf {q : Char → Bool} (hne : x ≠ []) (hx : ∀ d ∈ x, q d)
    (hrest : rest.head?.any q = false) : (someOf q).TakesOnly before x rest := by
  refine ⟨takes_someOf.mpr ⟨hne, hx, hrest⟩, ?_⟩
  intro y m hsplit htakes
  obtain ⟨-, hy, hm⟩ := takes_someOf.mp htakes
  exact (span_inj hx hy hrest hm hsplit).1.symm

/-- Words of a phrase are taken in one way. -/
theorem takesOnly_letters {word : Text} (h : (letters word).Takes before x rest) :
    (letters word).TakesOnly before x rest := by
  induction word generalizing before x with
  | nil => exact ⟨h, fun y m _ hy => hy.trans h.symm⟩
  | cons a word ih =>
    obtain ⟨u, v, rfl, hu, hv⟩ := h
    refine takesOnly_append ⟨hu, ?_⟩ (ih hv)
    intro y m hsplit hy
    by_cases ha : a = ' '
    · simp only [ha, if_true, takes_gap] at hu hy
      exact (span_inj hu.2.1 hy.2.1 hu.2.2 hy.2.2 hsplit).1.symm
    · simp only [ha, if_false, Takes] at hu hy
      obtain ⟨d, rfl, -⟩ := hu
      obtain ⟨e, rfl, -⟩ := hy
      obtain ⟨rfl, -⟩ := List.cons.inj hsplit
      rfl

theorem isPlain_letters (word : Text) : (letters word).isPlain := by
  induction word with
  | nil => rfl
  | cons a word ih =>
    have hcons : (letters (a :: word)).isPlain =
        ((if a = ' ' then gap else one (sameLetter a)).isPlain && (letters word).isPlain) := rfl
    rw [hcons, ih, Bool.and_true]
    split <;> rfl

/-! ## Following the first way -/

/-- The preferred match of a sequence takes the preferred matches of its parts. -/
theorem head?_ends_append (ha : (a.ends c).head? = some e) (hb : (b.ends e).head? = some d) :
    ((a ++ b).ends c).head? = some d := by
  obtain ⟨others, hends⟩ := List.head?_eq_some_iff.mp ha
  have hseq : (a ++ b).ends c = (a.ends c).flatMap b.ends := rfl
  rw [hseq, hends, List.flatMap_cons, List.head?_append, hb, Option.some_or]

/-- The place after a sequence, counted from a place `e`. -/
theorem head?_ends_then (ha : (a.ends c).head? = some (e.advance x))
    (hb : (b.ends (e.advance x)).head? = some ((e.advance x).advance y)) :
    ((a ++ b).ends c).head? = some (e.advance (x ++ y)) := by
  rw [← Cursor.advance_advance]
  exact head?_ends_append ha hb

/-- Behind a preferred match, a pattern with one way to match takes it. -/
theorem head?_ends_takesOnly (ha : (a.ends c).head? = some (e.advance x))
    (hrest : e.rest = x ++ (y ++ rest)) (hb : ∀ before, b.TakesOnly before y rest)
    (hplain : b.isPlain) : ((a ++ b).ends c).head? = some (e.advance (x ++ y)) :=
  head?_ends_then ha ((hb _).head?_ends hplain (Cursor.rest_advance hrest))

/-- The preferred match of a pattern is what is set aside. -/
theorem head?_ends_capture (slot : Nat) (ha : (a.ends c).head? = some (c.advance x)) :
    ((capture slot a).ends c).head? = some (c.setAside slot x) := by
  rw [ends, List.head?_map, ha, Option.map_some]
  simp [Cursor.setAside, Cursor.advance]

theorem ends_append_assoc (a b p : Pattern) (c : Cursor) :
    (a ++ b ++ p).ends c = (a ++ (b ++ p)).ends c :=
  List.flatMap_assoc

/-- **A repetition that takes as little as it can** goes on, character by character, up to the
first place where the rest of the pattern fits. -/
theorem head?_ends_lazy (slot : Nat) {q : Char → Bool} (hx : ∀ d ∈ x, q d)
    (hrest : c.rest = x ++ rest)
    (hearly : ∀ u v, x = u ++ v → v ≠ [] → ¬ b.Fits (u.getLast?.or c.before) (v ++ rest))
    (hend : (b.ends (c.setAside slot x)).head? = some d) :
    ((capture slot (starLazy (one q)) ++ b).ends c).head? = some d := by
  let aside (e : Cursor) : Cursor :=
    { e with captures := ⟨slot, c.rest, e.taken - c.taken⟩ :: e.captures }
  -- From each place on, with `u` taken and `v` to come, the first success is the one after `v`.
  have hfrom : ∀ v u, x = u ++ v →
      (((reluctant (one q).ends (v ++ rest) (c.advance u) []).map aside).flatMap b.ends).head? =
        some d := by
    intro v
    induction v with
    | nil =>
      intro u hu
      rw [List.append_nil] at hu
      subst hu
      have haside : aside (c.advance x) = c.setAside slot x := by
        simp [aside, Cursor.setAside, Cursor.advance]
      cases rest with
      | nil => simpa [reluctant, haside] using hend
      | cons e rest =>
        rw [List.nil_append, reluctant, List.map_cons, List.flatMap_cons, haside,
          List.head?_append, hend, Option.some_or]
    | cons e v ih =>
      intro u hu
      have hcursor : (c.advance u).rest = e :: (v ++ rest) :=
        Cursor.rest_advance (by rw [hrest, hu, List.append_assoc, List.cons_append])
      have hone : (one q).ends (c.advance u) = [c.advance (u ++ [e])] := by
        have he : q e := hx e (by simp [hu])
        rw [ends, hcursor]
        simp only [he, if_true]
        simp [Cursor.advance, ← List.drop_drop, hrest, hu, Nat.add_assoc]
      have hstop : b.ends (aside (c.advance u)) = [] := by
        by_contra hne
        have hfits := (ends_ne_nil_iff b _).mp hne
        refine hearly u (e :: v) hu (by simp) ?_
        rw [List.cons_append, ← hcursor]
        exact hfits
      have htaken : (c.advance u).taken < (c.advance (u ++ [e])).taken := by
        simp [Cursor.advance]
      rw [List.cons_append, reluctant, List.map_cons, List.flatMap_cons, hstop,
        List.nil_append, hone, List.foldr_cons, List.foldr_nil, if_pos htaken]
      exact ih (u ++ [e]) (by simp [hu])
  have hall := hfrom x [] rfl
  rwa [← hrest] at hall

/-- One round of a repetition of one class: it goes on while the class does. -/
theorem greedy_one {q : Char → Bool} {f : Char} {t : Text} (hrest : c.rest = f :: t)
    (others : List Cursor) :
    greedy (one q).ends (f :: t) c others =
      if q f then greedy (one q).ends t (c.advance [f]) (c :: others) else c :: others := by
  by_cases hf : q f
  · have hone : (one q).ends c = [c.advance [f]] := by
      simp [ends, hrest, hf, Cursor.advance]
    have htaken : c.taken < (c.advance [f]).taken := by simp [Cursor.advance]
    simp [greedy, hone, hf, htaken]
  · have hone : (one q).ends c = [] := by simp [ends, hrest, hf]
    simp [greedy, hone, hf]

/-- Before the place where it starts, a repetition of one class has tried places behind it. -/
theorem exists_beyond {q : Char → Bool} {t : Text} (hrest : c.rest = t) (others : List Cursor) :
    ∃ beyond, greedy (one q).ends t c others = beyond ++ c :: others ∧
      ∀ e ∈ beyond, ∃ u v, t = u ++ v ∧ u ≠ [] ∧ (∀ d ∈ u, q d) ∧ e = c.advance u := by
  induction t generalizing c others with
  | nil => exact ⟨[], rfl, by simp⟩
  | cons f t ih =>
    rw [greedy_one hrest]
    split
    · next hf =>
      obtain ⟨beyond, hplaces, hbeyond⟩ :=
        ih (Cursor.rest_advance (x := [f]) hrest) (c :: others)
      refine ⟨beyond ++ [c.advance [f]], by simp [hplaces], List.forall_mem_append.mpr ⟨?_, ?_⟩⟩
      · intro e he
        obtain ⟨u, v, rfl, -, hu, rfl⟩ := hbeyond e he
        exact ⟨f :: u, v, rfl, by simp, List.forall_mem_cons.mpr ⟨hf, hu⟩,
          Cursor.advance_advance ..⟩
      · intro e he
        obtain rfl := List.mem_singleton.mp he
        exact ⟨[f], t, rfl, by simp, by simpa using hf, rfl⟩
    · exact ⟨[], rfl, by simp⟩

/-- A repetition of one class goes on over characters of the class. -/
theorem exists_greedy_run {q : Char → Bool} (hx : ∀ d ∈ x, q d) (hrest : c.rest = x ++ rest)
    (others : List Cursor) :
    ∃ others', greedy (one q).ends (x ++ rest) c others =
      greedy (one q).ends rest (c.advance x) others' := by
  induction x generalizing c others with
  | nil => exact ⟨others, by simp [Cursor.advance]⟩
  | cons f x ih =>
    obtain ⟨hf, hx⟩ := List.forall_mem_cons.mp hx
    rw [List.cons_append] at hrest ⊢
    obtain ⟨others', hrun⟩ := ih hx (Cursor.rest_advance (x := [f]) hrest) (c :: others)
    refine ⟨others', ?_⟩
    rw [greedy_one hrest, if_pos hf, hrun, Cursor.advance_advance]
    rfl

/-- **The places of a repetition.**  Before the place behind some characters of the class come only
places behind more of them. -/
theorem exists_ends_plus {q : Char → Bool} (hne : x ≠ []) (hx : ∀ d ∈ x, q d)
    (hrest : c.rest = x ++ rest) :
    ∃ beyond others, (plus (one q)).ends c = beyond ++ c.advance x :: others ∧
      ∀ e ∈ beyond, ∃ u v, rest = u ++ v ∧ u ≠ [] ∧ (∀ d ∈ u, q d) ∧
        e = c.advance (x ++ u) := by
  obtain ⟨f, x, rfl⟩ := List.exists_cons_of_ne_nil hne
  obtain ⟨hf, hx⟩ := List.forall_mem_cons.mp hx
  have hnext : (c.advance [f]).rest = x ++ rest := Cursor.rest_advance hrest
  have hone : (one q).ends c = [c.advance [f]] := by
    simp [ends, hrest, hf, Cursor.advance]
  have hstar : (star (one q)).ends (c.advance [f]) =
      greedy (one q).ends (c.advance [f]).rest (c.advance [f]) [] := rfl
  have hplus : (plus (one q)).ends c = greedy (one q).ends (x ++ rest) (c.advance [f]) [] := by
    rw [plus, ends, hone, List.flatMap_singleton, hstar, hnext]
  obtain ⟨others, hrun⟩ := exists_greedy_run hx hnext []
  obtain ⟨beyond, hplaces, hbeyond⟩ := exists_beyond (Cursor.rest_advance hnext) others
  rw [Cursor.advance_advance, List.singleton_append] at hrun hplaces hbeyond
  refine ⟨beyond, others, by rw [hplus, hrun, hplaces], fun e he => ?_⟩
  obtain ⟨u, v, hsplit, hu, hclass, rfl⟩ := hbeyond e he
  exact ⟨u, v, hsplit, hu, hclass, Cursor.advance_advance ..⟩

/-- **A repetition that takes as much as it can** gives characters back, one by one, down to the
last place where the rest of the pattern fits. -/
theorem head?_ends_greedy (slot : Nat) {q : Char → Bool} (hne : x ≠ []) (hx : ∀ d ∈ x, q d)
    (hrest : c.rest = x ++ rest)
    (hlate : ∀ u v, rest = u ++ v → u ≠ [] → (∀ d ∈ u, q d) → ¬ b.Fits u.getLast? v)
    (hend : (b.ends (c.setAside slot x)).head? = some d) :
    ((capture slot (plus (one q)) ++ b).ends c).head? = some d := by
  let aside (e : Cursor) : Cursor :=
    { e with captures := ⟨slot, c.rest, e.taken - c.taken⟩ :: e.captures }
  obtain ⟨beyond, others, hplaces, hbeyond⟩ := exists_ends_plus hne hx hrest
  -- Places with more than `x` taken lead nowhere.
  have hnone : (beyond.map aside).flatMap b.ends = [] := by
    refine List.flatMap_eq_nil_iff.mpr (List.forall_mem_map.mpr fun e he => ?_)
    obtain ⟨u, v, hsplit, hu, hclass, rfl⟩ := hbeyond e he
    by_contra hends
    have hbefore : (aside (c.advance (x ++ u))).before = u.getLast? := by
      simp [aside, Cursor.advance, List.getLast?_append, List.getLast?_eq_some_getLast hu]
    have hv : (aside (c.advance (x ++ u))).rest = v :=
      Cursor.rest_advance (hrest.trans (by rw [hsplit, List.append_assoc]))
    have hfits := (ends_ne_nil_iff b _).mp hends
    rw [hbefore, hv] at hfits
    exact hlate u v hsplit hu hclass hfits
  have haside : aside (c.advance x) = c.setAside slot x := by
    simp [aside, Cursor.setAside, Cursor.advance]
  have hends : (capture slot (plus (one q)) ++ b).ends c =
      (((plus (one q)).ends c).map aside).flatMap b.ends := rfl
  rw [hends, hplaces, List.map_append, List.flatMap_append, hnone, List.nil_append, List.map_cons,
    List.flatMap_cons, haside, List.head?_append, hend, Option.some_or]

/-- A repetition of one class takes all characters of the class. -/
theorem head?_ends_plus {q : Char → Bool} (hne : x ≠ []) (hx : ∀ d ∈ x, q d)
    (hstop : rest.head?.any q = false) (hrest : c.rest = x ++ rest) :
    ((plus (one q)).ends c).head? = some (c.advance x) := by
  obtain ⟨e, x, rfl⟩ := List.exists_cons_of_ne_nil hne
  obtain ⟨he, hx⟩ := List.forall_mem_cons.mp hx
  have hone : ((one q).ends c).head? = some (c.advance [e]) :=
    (takesOnly_one he).head?_ends rfl hrest
  have hrun : ((run q).ends (c.advance [e])).head? = some ((c.advance [e]).advance x) :=
    (takesOnly_run hx hstop).head?_ends rfl (Cursor.rest_advance hrest)
  rw [← head?_ends_star_one, Cursor.advance_advance] at hrun
  exact head?_ends_append hone hrun

/-- The first of two patterns is preferred. -/
theorem head?_ends_alt_left (ha : (a.ends c).head? = some d) :
    ((alt a b).ends c).head? = some d := by
  rw [ends, List.head?_append, ha, Option.some_or]

/-- The second of two patterns has its turn where the first does not fit. -/
theorem head?_ends_alt_right (ha : ¬ a.Fits c.before c.rest) (hb : (b.ends c).head? = some d) :
    ((alt a b).ends c).head? = some d := by
  have hends : a.ends c = [] := by
    by_contra hne
    exact ha ((ends_ne_nil_iff a c).mp hne)
  rw [ends, hends, List.nil_append, hb]

/-- An optional part that does not fit is passed over. -/
theorem head?_ends_optional (ha : ¬ a.Fits c.before c.rest) :
    ((optional a).ends c).head? = some c :=
  head?_ends_alt_right ha rfl

/-- An optional part that fits is taken. -/
theorem head?_ends_optional_of_some (ha : (a.ends c).head? = some d) :
    ((optional a).ends c).head? = some d :=
  head?_ends_alt_left ha

end Pattern
end DumpBridge.Text
