import Mathlib.Data.List.Forall2
import DumpBridge.Proofs.Text.Characters
import DumpBridge.Proofs.Text.Passing

/-!
# How far matches reach

Whether a match can begin with one of some characters, end with one or join two of
them can be read off the pattern.  The functions `leadsIn`, `endsIn` and `joins`
do so; they may say yes too often but never no too often (`leadsIn_of_takes`,
`endsIn_of_takes`, `joins_of_takes`), so that one evaluation settles that no match
of a pattern reaches over a given place.

A match that starts inside a text and cannot reach over its end is replaced alike
whatever follows (`exists_replaceFrom_append`).
-/

namespace DumpBridge.Text

/-- The blanks, one by one. -/
def blankChars : List Char :=
  [' ', '\t', '\n', '\x0b', '\x0c', '\r', '\u0085', '\u00a0', '\u1680', '\u2000', '\u2001',
   '\u2002', '\u2003', '\u2004', '\u2005', '\u2006', '\u2007', '\u2008', '\u2009', '\u200a',
   '\u2028', '\u2029', '\u202f', '\u205f', '\u3000']

/-- The list has every blank. -/
theorem mem_blankChars {c : Char} (h : isBlank c) : c ∈ blankChars := by
  have hcode : c.toNat ∈ blankChars.map Char.toNat := by
    rw [isBlank, Bool.or_eq_true, decide_eq_true_eq] at h
    rcases h with rfl | h
    · decide
    · split at h
      · rw [Bool.and_eq_true, decide_eq_true_eq, decide_eq_true_eq] at h
        have hcases : c.toNat = 9 ∨ c.toNat = 10 ∨ c.toNat = 11 ∨ c.toNat = 12 ∨ c.toNat = 13 := by
          omega
        rcases hcases with h | h | h | h | h <;> rw [h] <;> decide
      · simp only [inRanges, blankRanges, List.any_cons, List.any_nil, Bool.or_eq_true,
          Bool.and_eq_true, decide_eq_true_eq, Bool.or_false] at h
        simp only [blankChars, List.map_cons, List.map_nil, List.mem_cons, List.not_mem_nil,
          or_false, Char.reduceToNat]
        omega
  obtain ⟨d, hd, hdc⟩ := List.mem_map.mp hcode
  rwa [← Char.toNat_inj.mp hdc]

/-- No blank is a digit. -/
theorem isDigit_eq_false_of_isBlank {c : Char} (hc : isBlank c) : isDigit c = false := by
  have hall : ∀ c ∈ blankChars, isDigit c = false := by decide
  exact hall c (mem_blankChars hc)

namespace Pattern

variable {p : Pattern} {before : Option Char} {x y s t rest : Text} {bs cs : List Char} {b c : Char}

/-- Whether the pattern may take nothing. -/
def nullable : Pattern → Bool
  | one _ => false
  | seq a b => a.nullable && b.nullable
  | alt a b => a.nullable || b.nullable
  | capture _ a => a.nullable
  | _ => true

/-- Whether the pattern may take blanks and nothing else. -/
def skips : Pattern → Bool
  | one p => blankChars.any p
  | seq a b => a.skips && b.skips
  | alt a b => a.skips || b.skips
  | capture _ a => a.skips
  | _ => true

/-- Whether the first character that the pattern takes, blanks apart, may be one of `cs`. -/
def leadsIn (cs : List Char) : Pattern → Bool
  | one p | run p => cs.any p
  | seq a b => a.leadsIn cs || (a.skips && b.leadsIn cs)
  | alt a b => a.leadsIn cs || b.leadsIn cs
  | star a | starLazy a | capture _ a => a.leadsIn cs
  | _ => false

/-- Whether the last character that the pattern takes may be one of `cs`. -/
def endsIn (cs : List Char) : Pattern → Bool
  | one p | run p => cs.any p
  | seq a b => b.endsIn cs || (b.nullable && a.endsIn cs)
  | alt a b => a.endsIn cs || b.endsIn cs
  | star a | starLazy a | capture _ a => a.endsIn cs
  | _ => false

/-- Whether the pattern may take one of `bs` and right after it one of `cs`. -/
def joins (bs cs : List Char) : Pattern → Bool
  | run p => bs.any p && cs.any p
  | seq a b => a.joins bs cs || b.joins bs cs || (a.endsIn bs && b.leadsIn cs)
  | alt a b => a.joins bs cs || b.joins bs cs
  | star a | starLazy a => a.joins bs cs || (a.endsIn bs && a.leadsIn cs)
  | capture _ a => a.joins bs cs
  | _ => false

/-- Whether the pattern may take one of `cs`. -/
def uses (cs : List Char) : Pattern → Bool
  | one p | run p => cs.any p
  | seq a b | alt a b => a.uses cs || b.uses cs
  | star a | starLazy a | capture _ a => a.uses cs
  | _ => false

/-- Whether the pattern may take nothing at a place inside a word. -/
def passable : Pattern → Bool
  | one _ | edge | textEnd => false
  | seq a b => a.passable && b.passable
  | alt a b => a.passable || b.passable
  | capture _ a => a.passable
  | _ => true

/-- Whether the first character that the pattern takes at a place inside a word may be
one of `cs`. -/
def startsInside (cs : List Char) : Pattern → Bool
  | one p | run p => cs.any p
  | seq a b => a.startsInside cs || (a.passable && b.startsInside cs)
  | alt a b => a.startsInside cs || b.startsInside cs
  | star a | starLazy a | capture _ a => a.startsInside cs
  | _ => false

/-! ## The answers are safe -/

/-- A pattern that takes nothing somewhere may take nothing. -/
theorem nullable_of_takes (h : p.Takes before [] rest) : p.nullable := by
  induction p generalizing before rest with
  | one q =>
    obtain ⟨c, hc, -⟩ := h
    simp at hc
  | seq a b iha ihb =>
    obtain ⟨y, z, hsplit, hy, hz⟩ := h
    obtain ⟨rfl, rfl⟩ := List.append_eq_nil_iff.mp hsplit.symm
    rw [nullable, iha hy, ihb hz, Bool.and_true]
  | alt a b iha ihb =>
    rw [nullable, Bool.or_eq_true]
    exact h.imp iha ihb
  | capture _ a ih => exact ih h
  | _ => rfl

/-- A pattern that takes blanks only somewhere may do so. -/
theorem skips_of_takes (h : p.Takes before x rest) (hx : ∀ c ∈ x, isBlank c) :
    p.skips := by
  induction p generalizing before x rest with
  | one q =>
    obtain ⟨c, rfl, hc⟩ := h
    exact List.any_eq_true.mpr ⟨c, mem_blankChars (hx c (by simp)), hc⟩
  | seq a b iha ihb =>
    obtain ⟨y, z, rfl, hy, hz⟩ := h
    obtain ⟨hblank, hblank'⟩ := List.forall_mem_append.mp hx
    rw [skips, iha hy hblank, ihb hz hblank', Bool.and_true]
  | alt a b iha ihb =>
    rw [skips, Bool.or_eq_true]
    exact h.imp (iha · hx) (ihb · hx)
  | capture _ a ih => exact ih h hx
  | _ => rfl

/-- Where a text is cut at a character and into two parts, the character is in the first part
or in the second. -/
theorem append_cons_split {z : Text} (h : s ++ c :: x = y ++ z) :
    (∃ x', y = s ++ c :: x') ∨ ∃ s', s = y ++ s' ∧ z = s' ++ c :: x := by
  rcases List.append_eq_append_iff.mp h with ⟨y', rfl, hz⟩ | ⟨s', hs, hz⟩
  · cases y' with
    | nil => exact Or.inr ⟨[], by simp, by simpa using hz.symm⟩
    | cons d y' =>
      obtain ⟨rfl, rfl⟩ := List.cons.inj hz
      exact Or.inl ⟨y', rfl⟩
  · exact Or.inr ⟨s', hs, hz⟩

/-- The first solid character of some rounds is the first solid one of a round. -/
theorem Rounds.leads {takes : Option Char → Text → Text → Prop} {P : Prop}
    (htakes : ∀ before s x rest, takes before (s ++ c :: x) rest → (∀ c ∈ s, isBlank c) → P)
    (h : Rounds takes before y rest) (hy : y = s ++ c :: x) (hs : ∀ c ∈ s, isBlank c) :
    P := by
  induction h generalizing s with
  | done => simp at hy
  | more _ first _ ih =>
    rcases append_cons_split hy.symm with ⟨x', rfl⟩ | ⟨s', rfl, hrest⟩
    · exact htakes _ _ _ _ first hs
    · exact ih hrest (List.forall_mem_append.mp hs).2

/-- **A match begins**, after its blanks, with one of the characters that the pattern may
begin with. -/
theorem leadsIn_of_takes (h : p.Takes before (s ++ c :: x) rest) (hs : ∀ c ∈ s, isBlank c)
    (hc : c ∈ cs) : p.leadsIn cs := by
  induction p generalizing before s x rest with
  | nothing => simp [Takes] at h
  | one q =>
    obtain ⟨d, hd, hq⟩ := h
    obtain ⟨rfl, hcons⟩ : s = [] ∧ c :: x = [d] := by
      cases s with
      | nil => exact ⟨rfl, hd⟩
      | cons e s => simp at hd
    obtain ⟨rfl, -⟩ := List.cons.inj hcons
    exact List.any_eq_true.mpr ⟨c, hc, hq⟩
  | run q => exact List.any_eq_true.mpr ⟨c, hc, h.1 c (by simp)⟩
  | seq a b iha ihb =>
    obtain ⟨y, z, hsplit, hy, hz⟩ := h
    rw [leadsIn, Bool.or_eq_true, Bool.and_eq_true]
    rcases append_cons_split hsplit with ⟨x', rfl⟩ | ⟨s', rfl, rfl⟩
    · exact Or.inl (iha hy hs)
    · obtain ⟨hblank, hblank'⟩ := List.forall_mem_append.mp hs
      exact Or.inr ⟨skips_of_takes hy hblank, ihb hz hblank'⟩
  | alt a b iha ihb =>
    rw [leadsIn, Bool.or_eq_true]
    exact h.imp (iha · hs) (ihb · hs)
  | star a ih | starLazy a ih => exact Rounds.leads (fun _ _ _ _ => ih) h rfl hs
  | capture _ a ih => exact ih h hs
  | edge | textEnd => simp [Takes] at h

/-- The last character of some rounds is the last one of a round. -/
theorem Rounds.ends {takes : Option Char → Text → Text → Prop} {P : Prop}
    (htakes : ∀ before x rest, takes before (x ++ [c]) rest → P)
    (h : Rounds takes before y rest) (hy : y = x ++ [c]) : P := by
  induction h generalizing x with
  | done => simp at hy
  | @more before y z rest _ first _ ih =>
    rcases List.eq_nil_or_concat z with rfl | ⟨z, d, rfl⟩
    · rw [List.append_nil] at hy
      exact htakes _ _ _ (hy ▸ first)
    · rw [List.concat_eq_append, ← List.append_assoc] at hy
      obtain ⟨-, hd⟩ := List.append_inj' hy rfl
      exact ih (x := z) (by rw [List.concat_eq_append, hd])

/-- **A match ends** with one of the characters that the pattern may end with. -/
theorem endsIn_of_takes (h : p.Takes before (x ++ [c]) rest) (hc : c ∈ cs) :
    p.endsIn cs := by
  induction p generalizing before x rest with
  | nothing => simp [Takes] at h
  | one q =>
    obtain ⟨d, hd, hq⟩ := h
    obtain ⟨-, hcons⟩ : x = [] ∧ [c] = [d] := by
      cases x with
      | nil => exact ⟨rfl, hd⟩
      | cons e x => simp at hd
    obtain ⟨rfl, -⟩ := List.cons.inj hcons
    exact List.any_eq_true.mpr ⟨c, hc, hq⟩
  | run q => exact List.any_eq_true.mpr ⟨c, hc, h.1 c (by simp)⟩
  | seq a b iha ihb =>
    obtain ⟨y, z, hsplit, hy, hz⟩ := h
    rw [endsIn, Bool.or_eq_true, Bool.and_eq_true]
    rcases List.eq_nil_or_concat z with rfl | ⟨z, d, rfl⟩
    · rw [List.append_nil] at hsplit
      subst hsplit
      exact Or.inr ⟨nullable_of_takes hz, iha hy⟩
    · rw [List.concat_eq_append, ← List.append_assoc] at hsplit
      obtain ⟨rfl, hd⟩ := List.append_inj' hsplit rfl
      obtain ⟨rfl, -⟩ := List.cons.inj hd
      rw [List.concat_eq_append] at hz
      exact Or.inl (ihb hz)
  | alt a b iha ihb =>
    rw [endsIn, Bool.or_eq_true]
    exact h.imp iha ihb
  | star a ih | starLazy a ih => exact Rounds.ends (fun _ _ _ => ih) h rfl
  | capture _ a ih => exact ih h
  | edge | textEnd => simp [Takes] at h

/-- Where two neighbours come in two parts, both are in one of the parts, or the first
ends the first part and the second starts the second. -/
theorem neighbours_split {u v : Text} (h : x ++ b :: c :: y = u ++ v) :
    (∃ y', u = x ++ b :: c :: y') ∨ (u = x ++ [b] ∧ v = c :: y) ∨ ∃ x', v = x' ++ b :: c :: y := by
  rcases List.append_eq_append_iff.mp h with ⟨u', rfl, hu⟩ | ⟨x', -, hv⟩
  · match u', hu with
    | [], hu => exact Or.inr (Or.inr ⟨[], by simpa using hu.symm⟩)
    | [_], hu =>
      obtain ⟨rfl, rfl⟩ := List.cons.inj hu
      exact Or.inr (Or.inl ⟨rfl, rfl⟩)
    | _ :: _ :: u', hu =>
      obtain ⟨hb, hu⟩ := List.cons.inj hu
      obtain ⟨hc, -⟩ := List.cons.inj hu
      exact Or.inl ⟨u', by rw [hb, hc]⟩
  · exact Or.inr (Or.inr ⟨x', hv⟩)

/-- The first of some rounds starts their text. -/
theorem Rounds.first {takes : Option Char → Text → Text → Prop}
    (h : Rounds takes before (c :: x) rest) : ∃ x rest, takes before (c :: x) rest := by
  generalize hcons : c :: x = u at h
  cases h with
  | done => simp at hcons
  | more hne first _ =>
    obtain ⟨d, u, rfl⟩ := List.exists_cons_of_ne_nil hne
    obtain ⟨rfl, -⟩ := List.cons.inj hcons
    exact ⟨_, _, first⟩

/-- Two neighbours in some rounds are neighbours in one, or one round ends and the next
begins between them. -/
theorem Rounds.joins {takes : Option Char → Text → Text → Prop} {P : Prop}
    (hinner : ∀ before x y rest, takes before (x ++ b :: c :: y) rest → P)
    (hends : ∀ before x rest, takes before (x ++ [b]) rest →
      ∀ before y rest, takes before (c :: y) rest → P)
    {u : Text} (h : Rounds takes before u rest) (hu : u = x ++ b :: c :: y) : P := by
  induction h generalizing x with
  | done => simp at hu
  | more _ first others ih =>
    rcases neighbours_split hu.symm with ⟨y', rfl⟩ | ⟨rfl, rfl⟩ | ⟨x', rfl⟩
    · exact hinner _ _ _ _ first
    · obtain ⟨_, _, hfirst⟩ := others.first
      exact hends _ _ _ first _ _ _ hfirst
    · exact ih rfl

/-- **Two neighbours in a match** are a pair that the pattern may join. -/
theorem joins_of_takes (h : p.Takes before (x ++ b :: c :: y) rest) (hb : b ∈ bs) (hc : c ∈ cs) :
    p.joins bs cs := by
  have hlead : ∀ {q : Pattern} {before y rest}, q.Takes before (c :: y) rest → q.leadsIn cs :=
    fun h => leadsIn_of_takes (s := []) h (by simp) hc
  induction p generalizing before x y rest with
  | nothing => simp [Takes] at h
  | one q =>
    obtain ⟨d, hd, -⟩ := h
    have hlength := congrArg List.length hd
    simp at hlength
    omega
  | run q =>
    rw [joins, Bool.and_eq_true]
    exact ⟨List.any_eq_true.mpr ⟨b, hb, h.1 b (by simp)⟩,
      List.any_eq_true.mpr ⟨c, hc, h.1 c (by simp)⟩⟩
  | seq a b' iha ihb =>
    obtain ⟨s, t, hsplit, hs, ht⟩ := h
    rw [joins, Bool.or_eq_true, Bool.or_eq_true, Bool.and_eq_true]
    rcases neighbours_split hsplit with ⟨y', rfl⟩ | ⟨rfl, rfl⟩ | ⟨x', rfl⟩
    · exact Or.inl (Or.inl (iha hs))
    · exact Or.inr ⟨endsIn_of_takes hs hb, hlead ht⟩
    · exact Or.inl (Or.inr (ihb ht))
  | alt a b' iha ihb =>
    rw [joins, Bool.or_eq_true]
    exact h.imp iha ihb
  | star a ih | starLazy a ih =>
    rw [joins, Bool.or_eq_true, Bool.and_eq_true]
    exact Rounds.joins (fun _ _ _ _ h => Or.inl (ih h))
      (fun _ _ _ h _ _ _ h' => Or.inr ⟨endsIn_of_takes h hb, hlead h'⟩) h rfl
  | capture _ a ih => exact ih h
  | edge | textEnd => simp [Takes] at h

/-- A pattern that does not use some characters takes none of them. -/
theorem within_of_uses (hp : p.uses cs = false) : p.Within (· ∉ cs) := by
  induction p with
  | one q | run q =>
    intro c hc hmem
    rw [uses, List.any_eq_false] at hp
    exact hp c hmem hc
  | seq a b iha ihb | alt a b iha ihb =>
    rw [uses, Bool.or_eq_false_iff] at hp
    exact ⟨iha hp.1, ihb hp.2⟩
  | star a ih | starLazy a ih | capture _ a ih => exact ih hp
  | _ => trivial

/-- A pattern that takes nothing inside a word may do so. -/
theorem passable_of_takes (h : p.Takes before [] (c :: rest)) (hbefore : before.any isWord)
    (hc : isWord c) : p.passable := by
  induction p generalizing before rest with
  | one q =>
    obtain ⟨d, hd, -⟩ := h
    simp at hd
  | seq a b iha ihb =>
    obtain ⟨y, z, hsplit, hy, hz⟩ := h
    obtain ⟨rfl, rfl⟩ := List.append_eq_nil_iff.mp hsplit.symm
    rw [passable, iha hy hbefore, ihb hz (by simpa using hbefore), Bool.and_true]
  | alt a b iha ihb =>
    rw [passable, Bool.or_eq_true]
    exact h.imp (iha · hbefore) (ihb · hbefore)
  | capture _ a ih => exact ih h hbefore
  | edge => simp [Takes, hbefore, hc] at h
  | textEnd => simp [Takes] at h
  | _ => rfl

/-- A match that begins inside a word begins with a character that the pattern allows there. -/
theorem startsInside_of_takes (h : p.Takes before (c :: x) rest) (hbefore : before.any isWord)
    (hc : isWord c) (hmem : c ∈ cs) : p.startsInside cs := by
  induction p generalizing before x rest with
  | nothing => simp [Takes] at h
  | one q =>
    obtain ⟨d, hd, hq⟩ := h
    obtain ⟨rfl, -⟩ := List.cons.inj hd
    exact List.any_eq_true.mpr ⟨c, hmem, hq⟩
  | run q => exact List.any_eq_true.mpr ⟨c, hmem, h.1 c (by simp)⟩
  | seq a b iha ihb =>
    obtain ⟨y, z, hsplit, hy, hz⟩ := h
    rw [startsInside, Bool.or_eq_true, Bool.and_eq_true]
    cases y with
    | nil =>
      rw [List.nil_append] at hsplit
      subst hsplit
      exact Or.inr ⟨passable_of_takes hy hbefore hc, ihb hz (by simpa using hbefore)⟩
    | cons d y =>
      obtain ⟨rfl, -⟩ := List.cons.inj hsplit
      exact Or.inl (iha hy hbefore)
  | alt a b iha ihb =>
    rw [startsInside, Bool.or_eq_true]
    exact h.imp (iha · hbefore) (ihb · hbefore)
  | star a ih | starLazy a ih =>
    obtain ⟨_, _, hfirst⟩ := Rounds.first h
    exact ih hfirst hbefore
  | capture _ a ih => exact ih h hbefore
  | edge | textEnd => simp [Takes] at h

/-! ## What stands around -/

/-- Whether a word goes on before a place only depends on what did so before the text in
between. -/
theorem any_getLast?_or {before' : Option Char} (h : before.any isWord = before'.any isWord)
    (y : Text) : (y.getLast?.or before).any isWord = (y.getLast?.or before').any isWord := by
  cases y.getLast? with
  | none => exact h
  | some c => rfl

theorem head?_append_congr {rest' : Text} (h : rest.head? = rest'.head?) (z : Text) :
    (z ++ rest).head? = (z ++ rest').head? := by
  rw [List.head?_append, List.head?_append, h]

/-- Rounds see of their surroundings what each round sees. -/
theorem Rounds.congr {takes : Option Char → Text → Text → Prop} {before' : Option Char}
    {rest' : Text}
    (htakes : ∀ before before' x rest rest', before.any isWord = before'.any isWord →
      rest.head? = rest'.head? → takes before x rest → takes before' x rest')
    (h : Rounds takes before x rest) (hbefore : before.any isWord = before'.any isWord)
    (hrest : rest.head? = rest'.head?) : Rounds takes before' x rest' := by
  induction h generalizing before' with
  | done => exact .done _ _
  | more hne first _ ih =>
    exact .more hne (htakes _ _ _ _ _ hbefore (head?_append_congr hrest _) first)
      (ih (any_getLast?_or hbefore _) hrest)

/-- What a pattern takes depends on the text around it only through the next character,
and through whether the one in front belongs to a word. -/
theorem Takes.congr {before' : Option Char} {rest' : Text} (h : p.Takes before x rest)
    (hbefore : before.any isWord = before'.any isWord) (hrest : rest.head? = rest'.head?) :
    p.Takes before' x rest' := by
  induction p generalizing before before' x rest rest' with
  | nothing | one q => exact h
  | run q => exact ⟨h.1, hrest ▸ h.2⟩
  | seq a b iha ihb =>
    obtain ⟨y, z, hsplit, hy, hz⟩ := h
    exact ⟨y, z, hsplit, iha hy hbefore (head?_append_congr hrest z),
      ihb hz (any_getLast?_or hbefore y) hrest⟩
  | alt a b iha ihb => exact h.imp (iha · hbefore hrest) (ihb · hbefore hrest)
  | star a ih | starLazy a ih =>
    exact Rounds.congr (fun _ _ _ _ _ hb hr h => ih h hb hr) h hbefore hrest
  | capture _ a ih => exact ih h hbefore hrest
  | edge => exact ⟨h.1, hbefore ▸ hrest ▸ h.2⟩
  | textEnd =>
    refine ⟨h.1, ?_⟩
    rw [← List.head?_eq_none_iff, ← hrest, h.2]
    rfl

/-- Whether the pattern cannot tell two characters that follow its match, or the end of
the text, from each other. -/
def blindTo (next next' : Option Char) : Pattern → Bool
  | run q => next.any q == next'.any q
  | seq a b | alt a b => a.blindTo next next' && b.blindTo next next'
  | star a | starLazy a | capture _ a => a.blindTo next next'
  | edge => next.any isWord == next'.any isWord
  | textEnd => next.isNone == next'.isNone
  | _ => true

theorem blindTo_self (p : Pattern) (next : Option Char) : p.blindTo next next := by
  induction p with
  | seq a b iha ihb | alt a b iha ihb => rw [blindTo, iha, ihb, Bool.and_true]
  | star a ih | starLazy a ih | capture _ a ih => exact ih
  | run q | edge | textEnd => simp [blindTo]
  | _ => rfl

theorem blindTo_append {rest' : Text} (h : p.blindTo rest.head? rest'.head?) (z : Text) :
    p.blindTo (z ++ rest).head? (z ++ rest').head? := by
  cases z with
  | nil => exact h
  | cons c z => exact blindTo_self p (some c)

/-- Rounds of a pattern that does not see the difference are rounds before either text. -/
theorem Rounds.of_blindTo {rest' : Text} (hp : p.blindTo rest.head? rest'.head?)
    (htakes : ∀ before x rest rest', p.blindTo rest.head? rest'.head? →
      p.Takes before x rest → p.Takes before x rest')
    (h : Rounds p.Takes before x rest) : Rounds p.Takes before x rest' := by
  induction h with
  | done => exact .done _ _
  | more hne first _ ih => exact .more hne (htakes _ _ _ _ (blindTo_append hp _) first) (ih hp)

/-- What a pattern cannot tell apart may follow its match alike. -/
theorem Takes.of_blindTo {rest' : Text} (h : p.Takes before x rest)
    (hp : p.blindTo rest.head? rest'.head?) : p.Takes before x rest' := by
  induction p generalizing before x rest rest' with
  | nothing | one q => exact h
  | run q =>
    rw [blindTo, beq_iff_eq] at hp
    exact ⟨h.1, hp ▸ h.2⟩
  | seq a b iha ihb =>
    obtain ⟨y, z, hsplit, hy, hz⟩ := h
    rw [blindTo, Bool.and_eq_true] at hp
    exact ⟨y, z, hsplit, iha hy (blindTo_append hp.1 z), ihb hz hp.2⟩
  | alt a b iha ihb =>
    rw [blindTo, Bool.and_eq_true] at hp
    exact h.imp (iha · hp.1) (ihb · hp.2)
  | star a ih | starLazy a ih => exact Rounds.of_blindTo hp (fun _ _ _ _ hp h => ih h hp) h
  | capture _ a ih => exact ih h hp
  | edge =>
    rw [blindTo, beq_iff_eq] at hp
    exact ⟨h.1, hp ▸ h.2⟩
  | textEnd =>
    rw [blindTo, beq_iff_eq, h.2] at hp
    refine ⟨h.1, ?_⟩
    cases rest' with
    | nil => rfl
    | cons c rest' => simp at hp

/-- Places that differ only in the character in front, and not in whether it belongs to
a word. -/
structure Alike (c d : Cursor) : Prop where
  rest : c.rest = d.rest
  taken : c.taken = d.taken
  captures : c.captures = d.captures
  word : c.before.any isWord = d.before.any isWord

theorem Alike.refl (c : Cursor) : Alike c c := ⟨rfl, rfl, rfl, rfl⟩

/-- Alike cursors give alike ends in a fold of alike steps. -/
theorem Alike.foldr (step : Text → Cursor → List Cursor → List Cursor) {bound : Text}
    {c d : Cursor} (h : Alike c d)
    (hstep : ∀ c d, Alike c d → ∀ ls ms, List.Forall₂ Alike ls ms →
      List.Forall₂ Alike (step bound c ls) (step bound d ms))
    {cs ds ls ms : List Cursor} (hcs : List.Forall₂ Alike cs ds) (hls : List.Forall₂ Alike ls ms) :
    List.Forall₂ Alike
      (cs.foldr (fun e others => if c.taken < e.taken then step bound e others else others) ls)
      (ds.foldr (fun e others => if d.taken < e.taken then step bound e others else others)
        ms) := by
  rw [h.taken]
  induction hcs with
  | nil => exact hls
  | cons he _ ih =>
    rw [List.foldr_cons, List.foldr_cons, he.taken]
    split
    · exact hstep _ _ he _ _ ih
    · exact ih

/-- A repetition that takes as much as it can ends alike from alike cursors. -/
theorem alike_greedy {step : Cursor → List Cursor}
    (hstep : ∀ c d, Alike c d → List.Forall₂ Alike (step c) (step d)) (bound : Text) :
    ∀ c d, Alike c d → ∀ ls ms, List.Forall₂ Alike ls ms →
      List.Forall₂ Alike (greedy step bound c ls) (greedy step bound d ms) := by
  induction bound with
  | nil => exact fun c d h ls ms hls => .cons h hls
  | cons _ bound ih =>
    intro c d h ls ms hls
    exact h.foldr (greedy step) ih (hstep c d h) (.cons h hls)

/-- A repetition that takes as little as it can ends alike from alike cursors. -/
theorem alike_reluctant {step : Cursor → List Cursor}
    (hstep : ∀ c d, Alike c d → List.Forall₂ Alike (step c) (step d)) (bound : Text) :
    ∀ c d, Alike c d → ∀ ls ms, List.Forall₂ Alike ls ms →
      List.Forall₂ Alike (reluctant step bound c ls) (reluctant step bound d ms) := by
  induction bound with
  | nil => exact fun c d h ls ms hls => .cons h hls
  | cons _ bound ih =>
    intro c d h ls ms hls
    exact .cons h (h.foldr (reluctant step) ih (hstep c d h) hls)

/-- Of the character in front, a pattern sees only whether it belongs to a word. -/
theorem alike_ends (p : Pattern) (c d : Cursor) (h : Alike c d) :
    List.Forall₂ Alike (p.ends c) (p.ends d) := by
  induction p generalizing c d with
  | nothing => exact .cons h .nil
  | one q =>
    rw [ends, ends, h.rest]
    split
    · exact .nil
    · split
      · exact .cons ⟨rfl, by rw [h.taken], h.captures, rfl⟩ .nil
      · exact .nil
  | run q =>
    refine .cons ?_ .nil
    rw [Cursor.skip, Cursor.skip, h.rest]
    split
    · exact h
    · split
      · rw [h.taken, h.captures]
        exact .refl _
      · exact h
  | seq a b iha ihb => exact List.rel_flatMap (iha c d h) ihb
  | alt a b iha ihb => exact List.rel_append (iha c d h) (ihb c d h)
  | star a ih =>
    rw [ends, ends, h.rest]
    exact alike_greedy ih _ c d h _ _ .nil
  | starLazy a ih =>
    rw [ends, ends, h.rest]
    exact alike_reluctant ih _ c d h _ _ .nil
  | capture slot a ih =>
    refine List.rel_map (fun e e' he => ?_) (ih c d h)
    exact ⟨he.rest, he.taken, by rw [he.taken, he.captures, h.rest, h.taken], he.word⟩
  | edge =>
    rw [ends, ends, Cursor.isEdge, Cursor.isEdge, h.rest, h.word]
    split
    · exact .cons h .nil
    · exact .nil
  | textEnd =>
    rw [ends, ends, h.rest]
    split
    · exact .cons h .nil
    · exact .nil

/-- What is replaced depends on the character in front only as far as it belongs to a
word. -/
theorem replaceFrom_congr {new : Cursor → Text} {before' : Option Char}
    (hnew : ∀ c d : Cursor, c.captures = d.captures → new c = new d)
    (h : before.any isWord = before'.any isWord) (t : Text) :
    p.replaceFrom new before 0 t = p.replaceFrom new before' 0 t := by
  cases t with
  | nil => rfl
  | cons c t =>
    have hends :=
      alike_ends p (.start before (c :: t)) (.start before' (c :: t)) ⟨rfl, rfl, rfl, h⟩
    rw [replaceFrom, replaceFrom, matchAfter, matchAfter]
    generalize p.ends (.start before (c :: t)) = cs at hends ⊢
    generalize p.ends (.start before' (c :: t)) = ds at hends ⊢
    cases hends with
    | nil => rfl
    | cons hstop _ =>
      simp only [List.head?_cons]
      rw [hstop.taken, hnew _ _ hstop.captures]

/-- So does how far a match reaches. -/
theorem exists_matchAfter_congr {before' : Option Char} {stop : Cursor}
    (h : before.any isWord = before'.any isWord) (hstop : p.matchAfter before t = some stop) :
    ∃ stop', p.matchAfter before' t = some stop' ∧ stop'.taken = stop.taken := by
  have hends := alike_ends p (.start before t) (.start before' t) ⟨rfl, rfl, rfl, h⟩
  rw [matchAfter] at hstop ⊢
  generalize p.ends (.start before t) = cs at hends hstop
  generalize p.ends (.start before' t) = ds at hends ⊢
  cases hends with
  | nil => simp at hstop
  | cons halike _ =>
    obtain rfl := Option.some.inj hstop
    exact ⟨_, rfl, halike.taken.symm⟩

/-! ## Matches that end in time -/

theorem takes_of_matchAfter {stop : Cursor} (h : p.matchAfter before t = some stop) :
    ∃ y, t = y ++ stop.rest ∧ stop.taken = y.length ∧ p.Takes before y stop.rest := by
  obtain ⟨y, hreach, htakes⟩ := reaches_of_mem_ends p (List.mem_of_head? h)
  exact ⟨y, hreach.rest, by simpa [Cursor.start] using hreach.taken, htakes⟩

/-- `Gathers c d`: of what was set aside between two places, there is nothing but what was taken
between them. -/
def Gathers (c d : Cursor) : Prop :=
  ∃ y, c.Reaches y d ∧ ∀ k ∈ d.captures, k ∈ c.captures ∨ k.text <:+: y

theorem Gathers.trans {c d e : Cursor} (h : Gathers c d) (h' : Gathers d e) : Gathers c e := by
  obtain ⟨y, hy, hcaptures⟩ := h
  obtain ⟨z, hz, hcaptures'⟩ := h'
  refine ⟨y ++ z, hy.trans hz, fun k hk => ?_⟩
  rcases hcaptures' k hk with hk | hk
  · exact (hcaptures k hk).imp_right fun h => h.trans (List.prefix_append y z).isInfix
  · exact Or.inr (hk.trans (List.suffix_append y z).isInfix)

theorem Chain.gathers {step : Cursor → List Cursor} {n : Nat} {c d : Cursor}
    (hstep : ∀ c d, d ∈ step c → Gathers c d) (h : Chain step n c d) : Gathers c d := by
  induction h with
  | stop n c => exact ⟨[], .refl c, fun k hk => Or.inl hk⟩
  | round hd _ _ ih => exact (hstep _ _ hd).trans ih

/-- A pattern keeps what was set aside before it. -/
theorem gathers_of_mem_ends (p : Pattern) {c d : Cursor} (hd : d ∈ p.ends c) : Gathers c d := by
  induction p generalizing c d with
  | seq a b iha ihb =>
    obtain ⟨e, he, hd⟩ := List.mem_flatMap.mp hd
    exact (iha he).trans (ihb hd)
  | alt a b iha ihb =>
    rcases List.mem_append.mp hd with hd | hd
    · exact iha hd
    · exact ihb hd
  | star a ih =>
    rcases (mem_greedy_iff c.rest).mp hd with hchain | hd
    · exact hchain.gathers fun _ _ => ih
    · simp at hd
  | starLazy a ih =>
    rcases (mem_reluctant_iff c.rest).mp hd with hchain | hd
    · exact hchain.gathers fun _ _ => ih
    · simp at hd
  | capture slot a ih =>
    obtain ⟨e, he, rfl⟩ := List.mem_map.mp hd
    obtain ⟨y, hy, hcaptures⟩ := ih he
    refine ⟨y, ⟨hy.rest, hy.before, hy.taken⟩, List.forall_mem_cons.mpr ⟨Or.inr ?_, hcaptures⟩⟩
    have htext : c.rest.take (e.taken - c.taken) = y := by
      rw [hy.rest, hy.taken, Nat.add_sub_cancel_left, List.take_left]
    exact htext ▸ List.infix_rfl
  | _ =>
    obtain ⟨y, hy, -⟩ := reaches_of_mem_ends _ hd
    refine ⟨y, hy, fun k hk => Or.inl ?_⟩
    rwa [captures_of_mem_ends rfl hd] at hk

/-- **What a match sets aside** is taken by it. -/
theorem captured_infix_taken {stop : Cursor} (h : p.matchAfter before t = some stop) (slot : Nat)
    (hy : t = y ++ stop.rest) : stop.captured slot <:+: y := by
  obtain ⟨z, hz, hcaptures⟩ := gathers_of_mem_ends p (List.mem_of_head? h)
  obtain rfl : y = z := List.append_cancel_right (hy.symm.trans hz.rest)
  unfold Cursor.captured Cursor.capture?
  cases hfind : stop.captures.find? fun capture => capture.slot = slot with
  | none => exact List.nil_infix
  | some capture =>
    rcases hcaptures capture (List.mem_of_find?_eq_some hfind) with hmem | hinfix
    · simp [Cursor.start] at hmem
    · exact hinfix

/-- So it is a piece of the text. -/
theorem captured_infix_text {stop : Cursor} (h : p.matchAfter before t = some stop) (slot : Nat) :
    stop.captured slot <:+: t := by
  obtain ⟨y, hsplit, -, -⟩ := takes_of_matchAfter h
  rw [hsplit]
  exact (captured_infix_taken h slot hsplit).trans (List.prefix_append y _).isInfix

/-- That holds of the first match in a text, too. -/
theorem captured_infix_of_findAfter {stop : Cursor} {skipped : Text}
    (h : p.findAfter before t = some (skipped, stop)) (slot : Nat) :
    stop.captured slot <:+: t := by
  fun_induction findAfter p before t generalizing skipped with
  | case1 before =>
    obtain ⟨found, hfound, hpair⟩ := Option.map_eq_some_iff.mp h
    obtain ⟨-, rfl⟩ := Prod.mk.inj hpair
    exact captured_infix_text hfound slot
  | case2 before c rest found hfound =>
    obtain ⟨-, rfl⟩ := Prod.mk.inj (Option.some.inj h)
    exact captured_infix_text hfound slot
  | case3 before c rest hnone ih =>
    obtain ⟨⟨_, found⟩, hfound, hpair⟩ := Option.map_eq_some_iff.mp h
    obtain ⟨-, rfl⟩ := Prod.mk.inj hpair
    exact (ih hfound).trans (List.suffix_cons c rest).isInfix

theorem captured_subset {stop : Cursor} (h : p.matchAfter before t = some stop) (slot : Nat)
    (hy : t = y ++ stop.rest) : stop.captured slot ⊆ y :=
  (captured_infix_taken h slot hy).subset

/-- Characters of a match that is replaced already are passed over. -/
theorem replaceFrom_skip (new : Cursor → Text) (before : Option Char) (y t : Text) :
    p.replaceFrom new before y.length (y ++ t) = p.replaceFrom new (y.getLast?.or before) 0 t := by
  induction y generalizing before with
  | nil => rfl
  | cons c y ih =>
    rw [List.length_cons, List.cons_append, replaceFrom, ih, getLast?_cons_or]

/-- A match gives way to its new text. -/
theorem replaceFrom_match {new : Cursor → Text} {stop : Cursor}
    (hstop : p.matchAfter before (y ++ t) = some stop) (htaken : stop.taken = y.length)
    (hne : y ≠ []) :
    p.replaceFrom new before 0 (y ++ t) = new stop ++ p.replaceFrom new
      (y.getLast?.or before) 0 t := by
  obtain ⟨c, y, rfl⟩ := List.exists_cons_of_ne_nil hne
  rw [List.cons_append] at hstop ⊢
  rw [replaceFrom, hstop]
  simp only [htaken, List.length_cons, Nat.add_one_sub_one, Nat.add_eq_zero_iff, Nat.one_ne_zero,
    and_false, if_false]
  rw [replaceFrom_skip, getLast?_cons_or]

/-- **One step of replacing** keeps a character, or puts the new text in for a match. -/
theorem replaceFrom_cons_cases (p : Pattern) (new : Cursor → Text) (before : Option Char)
    (c : Char) (t : Text) :
    p.replaceFrom new before 0 (c :: t) = c :: p.replaceFrom new (some c) 0 t ∨
      ∃ y stop, p.matchAfter before (c :: t) = some stop ∧ c :: t = y ++ stop.rest ∧ y ≠ [] ∧
        stop.taken = y.length ∧ p.Takes before y stop.rest ∧ p.replaceFrom new before 0 (c :: t) =
          new stop ++ p.replaceFrom new (y.getLast?.or before) 0 stop.rest := by
  cases hstop : p.matchAfter before (c :: t) with
  | none => exact Or.inl (replaceFrom_cons_of_none new hstop)
  | some stop =>
    obtain ⟨y, hsplit, hlength, htakes⟩ := takes_of_matchAfter hstop
    cases y with
    | nil =>
      refine Or.inl ?_
      rw [replaceFrom, hstop]
      exact if_pos hlength
    | cons d y =>
      refine Or.inr ⟨d :: y, stop, rfl, hsplit, List.cons_ne_nil d y, hlength, htakes, ?_⟩
      rw [hsplit] at hstop ⊢
      exact replaceFrom_match hstop hlength (List.cons_ne_nil d y)

/-- Induction along the steps of replacing. -/
theorem replaceFrom_induction (p : Pattern) (new : Cursor → Text)
    {motive : Option Char → Text → Prop} (nil : ∀ before, motive before [])
    (kept : ∀ before c t,
      p.replaceFrom new before 0 (c :: t) = c :: p.replaceFrom new (some c) 0 t →
      motive (some c) t → motive before (c :: t))
    (found : ∀ before y stop, p.matchAfter before (y ++ stop.rest) = some stop →
      p.Takes before y stop.rest → p.replaceFrom new before 0 (y ++ stop.rest) =
        new stop ++ p.replaceFrom new (y.getLast?.or before) 0 stop.rest →
      motive (y.getLast?.or before) stop.rest → motive before (y ++ stop.rest))
    (before : Option Char) (t : Text) : motive before t := by
  -- The induction is on the length, since a match takes several characters at once.
  induction hlength : t.length using Nat.strongRecOn generalizing before t with
  | ind n ih =>
    cases t with
    | nil => exact nil before
    | cons c t =>
      rcases replaceFrom_cons_cases p new before c t with
        hstep | ⟨y, stop, hstop, hsplit, hne, -, htakes, hout⟩
      · exact kept before c t hstep (ih t.length (by simp [← hlength]) (some c) t rfl)
      · have hshorter : stop.rest.length < n := by
          have hpos := List.length_pos_iff.mpr hne
          rw [← hlength, hsplit, List.length_append]
          omega
        rw [hsplit] at hstop hout ⊢
        exact found before y stop hstop htakes hout (ih _ hshorter _ _ rfl)

/-- `p.Confines step s new before x t`: a match that starts in `x` leaves the last character
of `x` alone, where `t` follows.  Taking the steps over the characters from `s`, a match
comes to the same as the text that takes its place. -/
def Confines {σ : Type} (step : σ → Char → σ) (s : σ) (p : Pattern) (new : Cursor → Text)
    (before : Option Char) (x t : Text) : Prop :=
  ∀ u v, x = u ++ v → v ≠ [] → ∀ stop,
    p.matchAfter (u.getLast?.or before) (v ++ t) = some stop → stop.taken < v.length ∧
      (new stop).foldl step (u.foldl step s) = (v.take stop.taken).foldl step (u.foldl step s)

variable {σ : Type} {step : σ → Char → σ} {a : σ} {new : Cursor → Text}

/-- What is confined to a text is confined to the later part of it. -/
theorem Confines.right (h : p.Confines step a new before (y ++ x) t) :
    p.Confines step (y.foldl step a) new (y.getLast?.or before) x t := by
  intro u v hx hv stop hstop
  have hmatch : p.matchAfter ((y ++ u).getLast?.or before) (v ++ t) = some stop := by
    rwa [List.getLast?_append, Option.or_assoc]
  have hconfined := h (y ++ u) v (by rw [hx, List.append_assoc]) hv stop hmatch
  rwa [List.foldl_append] at hconfined

/-- **Replacing in a text that confines its matches**: the text is changed on its own, and
what follows on its own. -/
theorem exists_replaceFrom_append (h : p.Confines step a new before x t) :
    ∃ z, p.replaceFrom new before 0 (x ++ t) = z ++ p.replaceFrom new (x.getLast?.or before) 0 t ∧
      z.getLast? = x.getLast? ∧ z.foldl step a = x.foldl step a := by
  -- The induction is on the length, since a match takes several characters at once.
  induction hlength : x.length using Nat.strongRecOn generalizing x before a with
  | ind n ih =>
    cases x with
    | nil => exact ⟨[], by simp, rfl, rfl⟩
    | cons c x =>
      rcases replaceFrom_cons_cases p new before c (x ++ t) with
        hcons | ⟨y, stop, hstop, hsplit, hy, htaken, -, hout⟩
      · have hrest : p.Confines step (step a c) new (some c) x t := Confines.right (y := [c]) h
        obtain ⟨z, hz, hlast, hfold⟩ := ih x.length (by simp [← hlength]) hrest rfl
        refine ⟨c :: z, ?_, ?_, hfold⟩
        · rw [List.cons_append, hcons, hz, getLast?_cons_or]
          rfl
        · rw [List.getLast?_cons, List.getLast?_cons, hlast]
      · obtain ⟨hlt, hnew⟩ := h [] (c :: x) rfl (List.cons_ne_nil c x) stop hstop
        rw [← List.cons_append] at hsplit hout
        rw [htaken] at hlt hnew
        generalize c :: x = w at *
        rcases List.append_eq_append_iff.mp hsplit with ⟨more, rfl, -⟩ | ⟨x', rfl, hrest⟩
        · rw [List.length_append] at hlt
          omega
        · rw [List.length_append] at hlt
          have hne : x' ≠ [] := List.length_pos_iff.mp (by omega)
          have hshorter : x'.length < n := by
            have hpos := List.length_pos_iff.mpr hy
            rw [← hlength, List.length_append]
            omega
          obtain ⟨z, hz, hlast, hfold⟩ := ih x'.length hshorter h.right rfl
          refine ⟨new stop ++ z, ?_, ?_, ?_⟩
          · rw [hout, hrest, hz, List.append_assoc, List.getLast?_append, Option.or_assoc]
          · rw [List.getLast?_append, hlast, List.getLast?_append,
              List.getLast?_eq_some_getLast hne]
            rfl
          · rw [List.take_left, List.foldl_nil] at hnew
            rw [List.foldl_append, hnew, hfold, List.foldl_append]

/-- Steps over the characters come to the same on a text and after replacing in it, if they do
on a match and what takes its place. -/
theorem foldl_replaceWith
    (hnew : ∀ before t stop y, p.matchAfter before t = some stop → t = y ++ stop.rest →
      p.Takes before y stop.rest → ∀ s, (new stop).foldl step s = y.foldl step s) (t : Text)
        (s : σ) :
    (p.replaceWith new t).foldl step s = t.foldl step s := by
  have hfrom : ∀ before t s, (p.replaceFrom new before 0 t).foldl step s = t.foldl step s := by
    intro before t
    induction before, t using replaceFrom_induction p new with
    | nil => exact fun _ => rfl
    | kept before c t hstep ih =>
      intro s
      rw [hstep]
      exact ih (step s c)
    | found before y stop hstop htakes hout ih =>
      intro s
      rw [hout, List.foldl_append, hnew _ _ stop y hstop rfl htakes, ih, ← List.foldl_append]
  exact hfrom none t s

end Pattern
end DumpBridge.Text
