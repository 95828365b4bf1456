import DumpBridge.Proofs.Text.Class
import DumpBridge.Proofs.Text.Span

/-!
# What patterns take

`p.Takes before x rest` says by cases on the pattern that `p` can take the
characters `x` where `rest` follows them and `before` stands in front.  The
matcher lists exactly these ways (`reaches_of_mem_ends`, `exists_mem_ends`), so
questions about a search become questions about pieces of text:
`p.Fits before t` says that some way to match starts the text `t`.

Which of several ways comes first is no question for `Takes`: what a capture holds
is followed through the preferred one, apart from this.
-/

namespace DumpBridge.Text

/-- `c.Reaches x d`: the place `d` is the one after the characters `x` that
follow the place `c`. -/
structure Cursor.Reaches (c : Cursor) (x : Text) (d : Cursor) : Prop where
  rest : c.rest = x ++ d.rest
  before : d.before = x.getLast?.or c.before
  taken : d.taken = c.taken + x.length

theorem Cursor.Reaches.refl (c : Cursor) : c.Reaches [] c :=
  ⟨rfl, by simp, by simp⟩

/-- Going on from where a cursor came takes both texts. -/
theorem Cursor.Reaches.trans {c d e : Cursor} {x y : Text} (h : c.Reaches x d)
    (h' : d.Reaches y e) : c.Reaches (x ++ y) e := by
  refine ⟨?_, ?_, ?_⟩
  · rw [h.rest, h'.rest, List.append_assoc]
  · rw [h'.before, h.before, List.getLast?_append, Option.or_assoc]
  · rw [h'.taken, h.taken, List.length_append, Nat.add_assoc]

namespace Pattern

/-- Rounds of pieces that `takes` allows, none of them empty. -/
inductive Rounds (takes : Option Char → Text → Text → Prop) :
    Option Char → Text → Text → Prop
  | done (before : Option Char) (rest : Text) : Rounds takes before [] rest
  | more {before : Option Char} {x y rest : Text} (hne : x ≠ [])
      (first : takes before x (y ++ rest))
      (others : Rounds takes (x.getLast?.or before) y rest) :
      Rounds takes before (x ++ y) rest

/-- `p.Takes before x rest`: the pattern can take `x` where `before` stands in
front and `rest` follows. -/
def Takes : Pattern → Option Char → Text → Text → Prop
  | nothing, _, x, _ => x = []
  | one p, _, x, _ => ∃ c, x = [c] ∧ p c
  | run p, _, x, rest => (∀ c ∈ x, p c) ∧ rest.head?.any p = false
  | seq a b, before, x, rest =>
    ∃ y z, x = y ++ z ∧ a.Takes before y (z ++ rest) ∧ b.Takes (y.getLast?.or before) z rest
  | alt a b, before, x, rest => a.Takes before x rest ∨ b.Takes before x rest
  | star a, before, x, rest => Rounds a.Takes before x rest
  | starLazy a, before, x, rest => Rounds a.Takes before x rest
  | capture _ a, before, x, rest => a.Takes before x rest
  | edge, before, x, rest => x = [] ∧ before.any isWord ≠ rest.head?.any isWord
  | textEnd, _, x, rest => x = [] ∧ rest = []

/-! ## Runs -/

/-- Skipping a class takes the longest stretch of it. -/
theorem reaches_skipFrom (p : Char → Bool) (captures : List Capture) (last : Char) (taken : Nat)
    (t : Text) :
    Cursor.Reaches ⟨some last, t, taken, captures⟩ (t.takeWhile p)
      (Cursor.skipFrom p captures last taken t) := by
  induction t generalizing last taken with
  | nil => exact .refl _
  | cons x t ih =>
    by_cases hx : p x
    · have hstep : Cursor.Reaches ⟨some last, x :: t, taken, captures⟩ [x]
          ⟨some x, t, taken + 1, captures⟩ := ⟨rfl, rfl, rfl⟩
      simpa [Cursor.skipFrom, hx] using hstep.trans (ih x (taken + 1))
    · simpa [Cursor.skipFrom, hx] using Cursor.Reaches.refl ⟨some last, x :: t, taken, captures⟩

/-- A run takes the characters of its class that follow. -/
theorem reaches_skip (p : Char → Bool) (c : Cursor) :
    c.Reaches (c.rest.takeWhile p) (c.skip p) := by
  obtain ⟨before, rest, taken, captures⟩ := c
  cases rest with
  | nil => exact .refl _
  | cons x rest =>
    by_cases hx : p x
    · have hstep : Cursor.Reaches ⟨before, x :: rest, taken, captures⟩ [x]
          ⟨some x, rest, taken + 1, captures⟩ := ⟨rfl, rfl, rfl⟩
      simpa [Cursor.skip, hx] using
        hstep.trans (reaches_skipFrom p captures x (taken + 1) rest)
    · simpa [Cursor.skip, hx] using Cursor.Reaches.refl ⟨before, x :: rest, taken, captures⟩

/-! ## Repetitions -/

/-- `Chain step n c d`: at most `n` rounds of `step` lead from `c` to `d`, each of
which takes something. -/
inductive Chain (step : Cursor → List Cursor) : Nat → Cursor → Cursor → Prop
  | stop (n : Nat) (c : Cursor) : Chain step n c c
  | round {n : Nat} {c d e : Cursor} (hd : d ∈ step c) (hlt : c.taken < d.taken)
      (rest : Chain step n d e) : Chain step (n + 1) c e

variable {step : Cursor → List Cursor} {takes : Option Char → Text → Text → Prop}
  {c d : Cursor} {others : List Cursor}

/-- Without rounds a chain stays where it is. -/
theorem chain_zero_iff : Chain step 0 c d ↔ d = c := by
  constructor
  · intro h
    cases h
    rfl
  · rintro rfl
    exact .stop 0 d

/-- A chain of rounds is over, or has one more round that takes something. -/
theorem chain_succ_iff {n : Nat} : Chain step (n + 1) c d ↔
    d = c ∨ ∃ e ∈ step c, c.taken < e.taken ∧ Chain step n e d := by
  constructor
  · intro h
    cases h with
    | stop => exact Or.inl rfl
    | round hd hlt rest => exact Or.inr ⟨_, hd, hlt, rest⟩
  · rintro (rfl | ⟨e, he, hlt, rest⟩)
    · exact .stop _ d
    · exact .round he hlt rest

/-- A fold that puts places in front of others has the places of all members. -/
theorem mem_foldr_iff {f : Cursor → List Cursor → List Cursor} {P : Cursor → Prop}
    {places : List Cursor} (hf : ∀ e o, d ∈ f e o ↔ P e ∨ d ∈ o) :
    d ∈ places.foldr (fun e o => if c.taken < e.taken then f e o else o) others ↔
      (∃ e ∈ places, c.taken < e.taken ∧ P e) ∨ d ∈ others := by
  induction places with
  | nil => simp
  | cons e places ih =>
    rw [List.foldr_cons]
    split <;> grind

/-- The ends of a greedy repetition are the ends of all chains of rounds. -/
theorem mem_greedy_iff (bound : Text) :
    d ∈ greedy step bound c others ↔ Chain step bound.length c d ∨ d ∈ others := by
  induction bound generalizing c others with
  | nil => simp [greedy, chain_zero_iff]
  | cons _ bound ih =>
    have hround : ∀ e o, d ∈ greedy step bound e o ↔ Chain step bound.length e d ∨ d ∈ o :=
      fun e o => ih
    rw [greedy, mem_foldr_iff hround, List.length_cons, chain_succ_iff, List.mem_cons]
    grind

/-- A reluctant repetition has the same ends, in another order. -/
theorem mem_reluctant_iff (bound : Text) :
    d ∈ reluctant step bound c others ↔ Chain step bound.length c d ∨ d ∈ others := by
  induction bound generalizing c others with
  | nil => simp [reluctant, chain_zero_iff]
  | cons _ bound ih =>
    have hround : ∀ e o, d ∈ reluctant step bound e o ↔ Chain step bound.length e d ∨ d ∈ o :=
      fun e o => ih
    rw [reluctant, List.mem_cons, mem_foldr_iff hround, List.length_cons, chain_succ_iff]
    grind

/-- Rounds of a step take rounds of what the step takes. -/
theorem Chain.rounds {n : Nat}
    (hstep : ∀ c d, d ∈ step c → ∃ x, c.Reaches x d ∧ takes c.before x d.rest)
    (h : Chain step n c d) : ∃ x, c.Reaches x d ∧ Rounds takes c.before x d.rest := by
  induction h with
  | stop n c => exact ⟨[], .refl c, .done _ _⟩
  | @round n c d e hd hlt rest ih =>
    obtain ⟨x, hreach, htakes⟩ := hstep c d hd
    obtain ⟨y, hreach', hrounds⟩ := ih
    have hne : x ≠ [] := by
      rintro rfl
      have := hreach.taken
      simp at this
      omega
    refine ⟨x ++ y, hreach.trans hreach', .more hne ?_ ?_⟩
    · rwa [hreach'.rest] at htakes
    · rwa [hreach.before] at hrounds

/-- Rounds of pieces are rounds of a step that can take the pieces. -/
theorem Rounds.chain {before : Option Char} {x rest : Text}
    (hstep : ∀ c x rest, c.rest = x ++ rest → takes c.before x rest → ∃ d ∈ step c, c.Reaches x d)
    (h : Rounds takes before x rest) {n : Nat} (hn : x.length ≤ n) (c : Cursor)
    (hbefore : c.before = before) (hrest : c.rest = x ++ rest) :
    ∃ d, Chain step n c d ∧ c.Reaches x d := by
  induction h generalizing c n with
  | done before rest => exact ⟨c, .stop n c, .refl c⟩
  | @more before x y rest hne first others ih =>
    subst hbefore
    rw [List.append_assoc] at hrest
    obtain ⟨d, hd, hreach⟩ := hstep c x (y ++ rest) hrest first
    have hpos : 0 < x.length := List.length_pos_iff.mpr hne
    rw [List.length_append] at hn
    obtain ⟨m, rfl⟩ : ∃ m, n = m + 1 := ⟨n - 1, by omega⟩
    have hdrest : d.rest = y ++ rest :=
      List.append_cancel_left (hreach.rest.symm.trans hrest)
    obtain ⟨e, hchain, hreach'⟩ := ih (n := m) (by omega) d hreach.before hdrest
    exact ⟨e, .round hd (by rw [hreach.taken]; omega) hchain, hreach.trans hreach'⟩

/-! ## The matcher lists what patterns take -/

/-- Where a match ends, the pattern has taken what lies between. -/
theorem reaches_of_mem_ends (p : Pattern) {c d : Cursor} (hd : d ∈ p.ends c) :
    ∃ x, c.Reaches x d ∧ p.Takes c.before x d.rest := by
  induction p generalizing c d with
  | nothing =>
    obtain rfl := List.mem_singleton.mp hd
    exact ⟨[], .refl d, rfl⟩
  | one p =>
    obtain ⟨before, rest, taken, captures⟩ := c
    cases rest with
    | nil => simp [ends] at hd
    | cons x rest =>
      by_cases hx : p x
      · obtain rfl : d = ⟨some x, rest, taken + 1, captures⟩ := by
          simpa [ends, hx] using hd
        exact ⟨[x], ⟨rfl, rfl, rfl⟩, x, rfl, hx⟩
      · simp [ends, hx] at hd
  | run p =>
    obtain rfl := List.mem_singleton.mp hd
    have hreach := reaches_skip p c
    refine ⟨c.rest.takeWhile p, hreach, fun y hy => List.mem_takeWhile_imp hy, ?_⟩
    have hdrop : (c.skip p).rest = c.rest.dropWhile p := by
      have hsplit := List.takeWhile_append_dropWhile (p := p) (l := c.rest)
      exact List.append_cancel_left (hreach.rest.symm.trans hsplit.symm)
    rw [hdrop]
    exact head?_dropWhile_any p c.rest
  | seq a b iha ihb =>
    obtain ⟨e, he, hd⟩ := List.mem_flatMap.mp hd
    obtain ⟨x, hreach, htakes⟩ := iha he
    obtain ⟨y, hreach', htakes'⟩ := ihb hd
    refine ⟨x ++ y, hreach.trans hreach', x, y, rfl, ?_, ?_⟩
    · rwa [hreach'.rest] at htakes
    · rwa [hreach.before] at htakes'
  | alt a b iha ihb =>
    rcases List.mem_append.mp hd with hd | hd
    · obtain ⟨x, hreach, htakes⟩ := iha hd
      exact ⟨x, hreach, Or.inl htakes⟩
    · obtain ⟨x, hreach, htakes⟩ := ihb hd
      exact ⟨x, hreach, Or.inr htakes⟩
  | star a ih =>
    rcases (mem_greedy_iff c.rest).mp hd with hchain | hd
    · exact hchain.rounds fun c d => ih
    · simp at hd
  | starLazy a ih =>
    rcases (mem_reluctant_iff c.rest).mp hd with hchain | hd
    · exact hchain.rounds fun c d => ih
    · simp at hd
  | capture slot a ih =>
    obtain ⟨e, he, rfl⟩ := List.mem_map.mp hd
    obtain ⟨x, hreach, htakes⟩ := ih he
    exact ⟨x, ⟨hreach.rest, hreach.before, hreach.taken⟩, htakes⟩
  | edge =>
    by_cases hedge : c.isEdge
    · obtain rfl : d = c := by simpa [ends, hedge] using hd
      exact ⟨[], .refl d, rfl, by simpa [Cursor.isEdge] using hedge⟩
    · simp [ends, hedge] at hd
  | textEnd =>
    by_cases hend : c.rest = []
    · obtain rfl : d = c := by simpa [ends, hend] using hd
      exact ⟨[], .refl d, rfl, hend⟩
    · simp [ends, hend] at hd

/-- What a pattern can take, the matcher finds. -/
theorem exists_mem_ends (p : Pattern) {c : Cursor} {x rest : Text} (hrest : c.rest = x ++ rest)
    (htakes : p.Takes c.before x rest) : ∃ d ∈ p.ends c, c.Reaches x d := by
  induction p generalizing c x rest with
  | nothing =>
    obtain rfl := htakes
    exact ⟨c, List.mem_singleton_self c, .refl c⟩
  | one p =>
    obtain ⟨y, rfl, hy⟩ := htakes
    obtain ⟨before, _, taken, captures⟩ := c
    obtain rfl := hrest
    exact ⟨⟨some y, rest, taken + 1, captures⟩, by simp [ends, hy], rfl, rfl, rfl⟩
  | run p =>
    have hx : c.rest.takeWhile p = x := by
      rw [hrest]
      exact takeWhile_append_of_head htakes.1 htakes.2
    exact ⟨c.skip p, List.mem_singleton_self _, hx ▸ reaches_skip p c⟩
  | seq a b iha ihb =>
    obtain ⟨y, z, rfl, ha, hb⟩ := htakes
    rw [List.append_assoc] at hrest
    obtain ⟨d, hd, hreach⟩ := iha hrest ha
    have hdrest : d.rest = z ++ rest :=
      List.append_cancel_left (hreach.rest.symm.trans hrest)
    rw [← hreach.before] at hb
    obtain ⟨e, he, hreach'⟩ := ihb hdrest hb
    exact ⟨e, List.mem_flatMap.mpr ⟨d, hd, he⟩, hreach.trans hreach'⟩
  | alt a b iha ihb =>
    rcases htakes with ha | hb
    · obtain ⟨d, hd, hreach⟩ := iha hrest ha
      exact ⟨d, List.mem_append_left _ hd, hreach⟩
    · obtain ⟨d, hd, hreach⟩ := ihb hrest hb
      exact ⟨d, List.mem_append_right _ hd, hreach⟩
  | star a ih =>
    have hlength : x.length ≤ c.rest.length := by simp [hrest]
    obtain ⟨d, hchain, hreach⟩ :=
      htakes.chain (fun c x rest => ih) hlength c rfl hrest
    exact ⟨d, (mem_greedy_iff c.rest).mpr (Or.inl hchain), hreach⟩
  | starLazy a ih =>
    have hlength : x.length ≤ c.rest.length := by simp [hrest]
    obtain ⟨d, hchain, hreach⟩ :=
      htakes.chain (fun c x rest => ih) hlength c rfl hrest
    exact ⟨d, (mem_reluctant_iff c.rest).mpr (Or.inl hchain), hreach⟩
  | capture slot a ih =>
    obtain ⟨d, hd, hreach⟩ := ih hrest htakes
    exact ⟨_, List.mem_map_of_mem hd, hreach.rest, hreach.before, hreach.taken⟩
  | edge =>
    obtain ⟨rfl, hedge⟩ := htakes
    obtain rfl : c.rest = rest := hrest
    refine ⟨c, ?_, .refl c⟩
    have hisEdge : c.isEdge := by simpa [Cursor.isEdge] using hedge
    simp [ends, hisEdge]
  | textEnd =>
    obtain ⟨rfl, rfl⟩ := htakes
    exact ⟨c, by simp [ends, hrest], .refl c⟩

/-! ## Matches at a place -/

/-- `p.Fits before t`: a match starts the text `t` that has `before` in front of
it. -/
def Fits (p : Pattern) (before : Option Char) (t : Text) : Prop :=
  ∃ x rest, t = x ++ rest ∧ p.Takes before x rest

/-- **A pattern has an end just if it fits.** -/
theorem ends_ne_nil_iff (p : Pattern) (c : Cursor) : p.ends c ≠ [] ↔ p.Fits c.before c.rest := by
  constructor
  · intro hne
    obtain ⟨d, hd⟩ := List.exists_mem_of_ne_nil _ hne
    obtain ⟨x, hreach, htakes⟩ := reaches_of_mem_ends p hd
    exact ⟨x, d.rest, hreach.rest, htakes⟩
  · rintro ⟨x, rest, hrest, htakes⟩
    obtain ⟨d, hd, -⟩ := exists_mem_ends p hrest htakes
    exact List.ne_nil_of_mem hd

/-- No match is found just if the pattern does not fit. -/
theorem matchAfter_eq_none_iff {p : Pattern} {before : Option Char} {t : Text} :
    p.matchAfter before t = none ↔ ¬ p.Fits before t := by
  rw [matchAfter, List.head?_eq_none_iff, ← not_iff_not, ← ne_eq, ends_ne_nil_iff, not_not]
  rfl

theorem matchAfter_isSome_iff {p : Pattern} {before : Option Char} {t : Text} :
    (p.matchAfter before t).isSome ↔ p.Fits before t := by
  rw [← Option.ne_none_iff_isSome, ne_eq, matchAfter_eq_none_iff, not_not]

theorem starts_iff {p : Pattern} {t : Text} : p.starts t ↔ p.Fits none t :=
  matchAfter_isSome_iff

/-- A match stands somewhere after `before` if it starts some rest of the text. -/
theorem findAfter_isSome_iff {p : Pattern} {before : Option Char} {t : Text} :
    (p.findAfter before t).isSome ↔
      ∃ a b, t = a ++ b ∧ p.Fits (a.getLast?.or before) b := by
  induction t generalizing before with
  | nil =>
    rw [findAfter, Option.isSome_map, matchAfter_isSome_iff]
    constructor
    · exact fun hfits => ⟨[], [], rfl, by simpa using hfits⟩
    · rintro ⟨a, b, hab, hfits⟩
      obtain ⟨rfl, rfl⟩ := List.append_eq_nil_iff.mp hab.symm
      simpa using hfits
  | cons c t ih =>
    rw [findAfter]
    cases hmatch : p.matchAfter before (c :: t) with
    | some stop =>
      have hfits : p.Fits before (c :: t) := matchAfter_isSome_iff.mp (by simp [hmatch])
      simpa using ⟨[], c :: t, rfl, by simpa using hfits⟩
    | none =>
      have hnot : ¬ p.Fits before (c :: t) := matchAfter_eq_none_iff.mp hmatch
      simp only [Option.isSome_map, ih]
      constructor
      · rintro ⟨a, b, rfl, hfits⟩
        exact ⟨c :: a, b, rfl, by simpa [List.getLast?_cons] using hfits⟩
      · rintro ⟨a, b, hab, hfits⟩
        cases a with
        | nil =>
          obtain rfl : c :: t = b := hab
          exact absurd (by simpa using hfits) hnot
        | cons d a =>
          obtain ⟨rfl, rfl⟩ := List.cons.inj hab
          exact ⟨a, b, rfl, by simpa [List.getLast?_cons] using hfits⟩

/-- A pattern occurs in a text just if it fits at some place of it. -/
theorem occurs_iff {p : Pattern} {t : Text} :
    p.occurs t ↔ ∃ a b, t = a ++ b ∧ p.Fits a.getLast? b := by
  rw [occurs, find?, findAfter_isSome_iff]
  simp only [Option.or_none]

/-! ## Combinations -/

variable {a b : Pattern} {before : Option Char} {x t rest : Text}

theorem takes_append : (a ++ b).Takes before x rest ↔
    ∃ y z, x = y ++ z ∧ a.Takes before y (z ++ rest) ∧ b.Takes (y.getLast?.or before) z rest :=
  Iff.rfl

/-- A sequence fits if its first part can leave a text that the second fits. -/
theorem fits_append : (a ++ b).Fits before t ↔
    ∃ y m, t = y ++ m ∧ a.Takes before y m ∧ b.Fits (y.getLast?.or before) m := by
  constructor
  · rintro ⟨_, rest, rfl, y, z, rfl, ha, hb⟩
    exact ⟨y, z ++ rest, by simp, ha, z, rest, rfl, hb⟩
  · rintro ⟨y, _, rfl, ha, z, rest, rfl, hb⟩
    exact ⟨y ++ z, rest, by simp, y, z, rfl, ha, hb⟩

/-- How a sequence is bracketed does not matter for what it takes. -/
theorem takes_append_assoc {c : Pattern} :
    (a ++ b ++ c).Takes before x rest ↔ (a ++ (b ++ c)).Takes before x rest := by
  simp only [takes_append]
  constructor
  · rintro ⟨_, w, rfl, ⟨y, z, rfl, hy, hz⟩, hw⟩
    refine ⟨y, z ++ w, by simp, by simpa using hy, z, w, rfl, hz, ?_⟩
    rwa [List.getLast?_append, Option.or_assoc] at hw
  · rintro ⟨y, _, rfl, hy, z, w, rfl, hz, hw⟩
    refine ⟨y ++ z, w, by simp, ⟨y, z, rfl, by simpa using hy, hz⟩, ?_⟩
    rwa [List.getLast?_append, Option.or_assoc]

theorem fits_append_assoc {c : Pattern} :
    (a ++ b ++ c).Fits before t ↔ (a ++ (b ++ c)).Fits before t := by
  simp only [Fits, takes_append_assoc]

/-- A class of characters fits before one of them. -/
theorem fits_one {p : Char → Bool} : (one p).Fits before t ↔ t.head?.any p := by
  constructor
  · rintro ⟨_, rest, rfl, c, rfl, hc⟩
    simpa using hc
  · intro h
    cases t with
    | nil => simp at h
    | cons c t => exact ⟨[c], t, rfl, c, rfl, by simpa using h⟩

/-- An edge is a place where a word begins or ends. -/
theorem fits_edge : edge.Fits before t ↔ before.any isWord ≠ t.head?.any isWord := by
  constructor
  · rintro ⟨_, rest, rfl, rfl, h⟩
    exact h
  · intro h
    exact ⟨[], t, rfl, rfl, h⟩

theorem fits_textEnd : textEnd.Fits before t ↔ t = [] := by
  constructor
  · rintro ⟨_, _, rfl, rfl, rfl⟩
    rfl
  · rintro rfl
    exact ⟨[], [], rfl, rfl, rfl⟩

theorem takes_char {c : Char} : (char c).Takes before x rest ↔ x = [c] := by
  simp [char, Takes]

theorem takes_optional : (optional a).Takes before x rest ↔ a.Takes before x rest ∨ x = [] :=
  Iff.rfl

/-- A stretch of a class is not empty, and takes all there is. -/
theorem takes_someOf {p : Char → Bool} : (someOf p).Takes before x rest ↔
    x ≠ [] ∧ (∀ c ∈ x, p c) ∧ rest.head?.any p = false := by
  rw [someOf, takes_append]
  constructor
  · rintro ⟨_, z, rfl, ⟨c, rfl, hc⟩, hz, hrest⟩
    exact ⟨by simp, List.forall_mem_cons.mpr ⟨hc, hz⟩, hrest⟩
  · rintro ⟨hne, hx, hrest⟩
    obtain ⟨c, z, rfl⟩ := List.exists_cons_of_ne_nil hne
    obtain ⟨hc, hz⟩ := List.forall_mem_cons.mp hx
    exact ⟨[c], z, rfl, ⟨c, rfl, hc⟩, hz, hrest⟩

/-- A stretch of a class fits before one character of it. -/
theorem fits_someOf {p : Char → Bool} : (someOf p).Fits before t ↔ t.head?.any p := by
  constructor
  · rintro ⟨x, rest, rfl, hx⟩
    obtain ⟨hne, hp, -⟩ := takes_someOf.mp hx
    obtain ⟨c, x, rfl⟩ := List.exists_cons_of_ne_nil hne
    simpa using hp c List.mem_cons_self
  · intro h
    refine ⟨t.takeWhile p, t.dropWhile p, List.takeWhile_append_dropWhile.symm,
      takes_someOf.mpr ⟨?_, fun c hc => List.mem_takeWhile_imp hc, head?_dropWhile_any p t⟩⟩
    cases t with
    | nil => simp at h
    | cons c t => simp [show p c = true by simpa using h]

theorem takes_gap : gap.Takes before x rest ↔
    x ≠ [] ∧ (∀ c ∈ x, isBlank c) ∧ rest.head?.any isBlank = false :=
  takes_someOf

/-- An alternative takes what one of its patterns takes. -/
theorem takes_anyOf {ps : List Pattern} :
    (anyOf ps).Takes before x rest ↔ ∃ p ∈ ps, p.Takes before x rest := by
  induction ps with
  | nil => simp [anyOf, Takes]
  | cons p ps ih =>
    cases ps with
    | nil => simp [anyOf]
    | cons q ps =>
      have hcons : anyOf (p :: q :: ps) = alt p (anyOf (q :: ps)) := rfl
      rw [hcons, Takes, ih]
      simp

/-- An alternative fits where one of its patterns does. -/
theorem fits_anyOf {ps : List Pattern} :
    (anyOf ps).Fits before t ↔ ∃ p ∈ ps, p.Fits before t := by
  simp only [Fits, takes_anyOf]
  grind

end Pattern
end DumpBridge.Text
