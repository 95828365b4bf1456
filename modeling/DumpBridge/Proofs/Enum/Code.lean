import DumpBridge.Proofs.Enum.Placed

/-!
# Rules for code and enumerations

Many rules look for a pattern in the code of a line.  Such a rule leaves an
enumeration alone if the pattern neither starts in its code nor reaches into it from
the blank in front.  Both can be read off the pattern (`isQuiet`, `isApart`), and a
rule of this kind is `Steady`.

Steady rules can follow one another (`Steady.comp`), and each of them keeps all
enumerations of a line in their places (`Steady.placed`).  A rule whose pattern takes
any word after its own words is not steady: it may take the word of the enumeration
itself.  Where it does not, it keeps the enumerations too (`placed_of_spared`).
-/

namespace DumpBridge

open Text (Pattern Cursor isBlank isWord blankChars mem_blankChars)
open Text.Pattern
open Literal

/-! ## Patterns that leave enumerations alone -/

namespace Text.Pattern

variable {p : Pattern} {before : Option Char} {s x t : Text} {cs : List Char} {c : Char}

/-- Whether no match starts in the code of an enumeration. -/
def isQuiet (p : Pattern) : Bool :=
  !p.nullable && !p.leadsIn ['e', 'E', '(', ')'] &&
    !p.startsInside ['n', 'N', 'u', 'U', 'm', 'M'] &&
    !p.endsIn (',' :: blankChars)

/-- Whether, besides, no match reaches from a blank into the word of an enumeration. -/
def isApart (p : Pattern) : Bool :=
  p.isQuiet && !p.joins blankChars ['e', 'E']

/-- The parts of `isQuiet`. -/
structure Quiet (p : Pattern) : Prop where
  nullable : p.nullable = false
  leadsIn : p.leadsIn ['e', 'E', '(', ')'] = false
  startsInside : p.startsInside ['n', 'N', 'u', 'U', 'm', 'M'] = false
  endsIn : p.endsIn (',' :: blankChars) = false

/-- One evaluation settles that a pattern is quiet. -/
theorem quiet_of_isQuiet (h : p.isQuiet) : p.Quiet := by
  simp only [isQuiet, Bool.and_eq_true, Bool.not_eq_true'] at h
  exact ⟨h.1.1.1, h.1.1.2, h.1.2, h.2⟩

theorem quiet_of_isApart (h : p.isApart) :
    p.Quiet ∧ p.joins blankChars ['e', 'E'] = false := by
  rw [isApart, Bool.and_eq_true, Bool.not_eq_true'] at h
  exact ⟨quiet_of_isQuiet h.1, h.2⟩

/-- Blanks and commas are no match. -/
theorem Quiet.not_takes (hp : p.Quiet) {rest : Text} (hx : ∀ c ∈ x, c ∈ ',' :: blankChars) :
    ¬ p.Takes before x rest := by
  intro h
  rcases List.eq_nil_or_concat x with rfl | ⟨x, c, rfl⟩
  · have hnull := nullable_of_takes h
    simp [hp.nullable] at hnull
  · rw [List.concat_eq_append] at h hx
    have hends := endsIn_of_takes h (hx c (by simp))
    simp [hp.endsIn] at hends

theorem Quiet.not_fits_commas (hp : p.Quiet) (hx : ∀ c ∈ x, c ∈ ',' :: blankChars) :
    ¬ p.Fits before x := by
  rintro ⟨y, m, rfl, hy⟩
  exact hp.not_takes (fun c hc => hx c (List.mem_append_left m hc)) hy

/-- Blanks before a letter or parenthesis of an enumeration start no match. -/
theorem Quiet.not_fits_blanks (hp : p.Quiet) (hs : ∀ c ∈ s, isBlank c)
    (hc : c ∈ ['e', 'E', '(', ')']) (t : Text) : ¬ p.Fits before (s ++ c :: t) := by
  rintro ⟨y, m, hsplit, hy⟩
  rcases append_cons_split hsplit with ⟨y', rfl⟩ | ⟨s', rfl, -⟩
  · have hlead := leadsIn_of_takes hy hs hc
    simp [hp.leadsIn] at hlead
  · refine hp.not_takes (fun d hd => ?_) hy
    exact List.mem_cons_of_mem _ (mem_blankChars (hs d (List.mem_append_left s' hd)))

/-- What reaches over the end of a text with a blank at the end takes the blank and goes on
with what follows. -/
theorem Quiet.exists_neighbour (hp : p.Quiet) {v w y rest : Text} (hv : v ≠ [])
    (hblank : v.getLast?.all isBlank) (hy : p.Takes before y rest)
    (hsplit : v ++ w = y ++ rest) (hlength : v.length ≤ y.length) :
    ∃ v' b c y', v = v' ++ [b] ∧ b ∈ blankChars ∧ y = v' ++ b :: c :: y' ∧
      w = c :: (y' ++ rest) := by
  obtain ⟨v', b, rfl⟩ : ∃ v' b, v = v' ++ [b] := by
    rcases List.eq_nil_or_concat v with rfl | ⟨v', b, rfl⟩
    · exact absurd rfl hv
    · exact ⟨v', b, List.concat_eq_append⟩
  have hb : b ∈ blankChars := mem_blankChars (by simpa using hblank)
  obtain ⟨y', rfl⟩ : v' ++ [b] <+: y := by
    refine List.prefix_of_prefix_length_le (List.prefix_append _ w) ?_ hlength
    rw [hsplit]
    exact List.prefix_append y rest
  rw [List.append_assoc _ y', List.append_cancel_left_eq] at hsplit
  cases y' with
  | nil =>
    rw [List.append_nil] at hy
    have hends := endsIn_of_takes hy (List.mem_cons_of_mem ',' hb)
    simp [hp.endsIn] at hends
  | cons c y' => exact ⟨v', b, c, y', rfl, hb, by simp, hsplit⟩

/-- A match in a text with a blank at the end does not reach an enumeration behind it. -/
theorem length_lt_of_isApart (hp : p.isApart) {v w y rest : Text} (hv : v ≠ [])
    (hblank : v.getLast?.all isBlank) (hw : w.head?.any (· ∈ ['e', 'E']))
    (hy : p.Takes before y rest) (hsplit : v ++ w = y ++ rest) : y.length < v.length := by
  obtain ⟨hquiet, hjoins⟩ := quiet_of_isApart hp
  refine Nat.lt_of_not_le fun hlength => ?_
  obtain ⟨v', b, c, y', -, hb, rfl, rfl⟩ := hquiet.exists_neighbour hv hblank hy hsplit hlength
  have hc : c ∈ ['e', 'E'] := by simpa using hw
  have hjoin := joins_of_takes hy hb hc
  simp [hjoins] at hjoin

/-- What no match starts in is passed over. -/
theorem passes_of_not_fits
    (h : ∀ u v, x = u ++ v → v ≠ [] → ¬ p.Fits (u.getLast?.or before) (v ++ t)) :
    p.Passes before x t := by
  induction x generalizing before with
  | nil => trivial
  | cons c x ih =>
    refine ⟨h [] (c :: x) rfl (by simp), ih fun u v hx hv => ?_⟩
    rw [← getLast?_cons_or c u before]
    exact h (c :: u) v (by rw [hx]; rfl) hv

/-- Blanks and commas are passed over, if nothing follows them. -/
theorem Quiet.passes_commas (hp : p.Quiet) (hx : ∀ c ∈ x, c ∈ ',' :: blankChars) :
    p.Passes before x [] := by
  refine passes_of_not_fits fun u v hsplit _ => hp.not_fits_commas fun c hc => ?_
  exact hx c (by rw [hsplit]; simpa using Or.inr hc)

/-- Blanks and a parenthesis are passed over. -/
theorem Quiet.passes_blanks (hp : p.Quiet) (hs : ∀ c ∈ s, isBlank c)
    (hc : c ∈ ['e', 'E', '(', ')']) (t : Text) : p.Passes before (s ++ [c]) t := by
  refine passes_of_not_fits fun u v hsplit hv => ?_
  obtain ⟨s', rfl⟩ : ∃ s', v = s' ++ [c] := by
    rcases List.eq_nil_or_concat v with rfl | ⟨s', d, rfl⟩
    · exact absurd rfl hv
    · rw [List.concat_eq_append, ← List.append_assoc] at hsplit
      obtain ⟨-, hd⟩ := List.append_inj' hsplit rfl
      exact ⟨s', by rw [List.concat_eq_append, hd]⟩
  rw [← List.append_assoc, List.append_left_inj] at hsplit
  rw [List.append_assoc]
  exact hp.not_fits_blanks (fun d hd => hs d (by rw [hsplit]; simp [hd])) hc t

/-- Letters inside the word of an enumeration are passed over. -/
theorem Quiet.passes_inside (hp : p.Quiet) (hbefore : before.any isWord)
    (hx : ∀ c ∈ x, c ∈ ['n', 'N', 'u', 'U', 'm', 'M']) : p.Passes before x t := by
  have hword : ∀ c ∈ ['n', 'N', 'u', 'U', 'm', 'M'], isWord c := by decide
  induction x generalizing before with
  | nil => trivial
  | cons c x ih =>
    obtain ⟨hc, hx⟩ := List.forall_mem_cons.mp hx
    refine ⟨?_, ih (hword c hc) hx⟩
    rintro ⟨y, m, hsplit, hy⟩
    cases y with
    | nil => exact hp.not_takes (by simp) hy
    | cons d y =>
      obtain ⟨rfl, -⟩ := List.cons.inj hsplit
      have hstart := startsInside_of_takes hy hbefore (hword c hc) hc
      simp [hp.startsInside] at hstart

end Text.Pattern

namespace Enumeration

variable {p a : Pattern} {new : Cursor → Text} {f g : Text → Text} {before : Option Char}
  {c x t : Text} {es : List (Enumeration .standard)}

/-- What stands before the first literal is passed over, up to the end of the code. -/
theorem passes_front (hp : p.Quiet) (e : Enumeration .standard) :
    p.Passes before (e.head ++ e.first.lead) [] := by
  obtain ⟨d, w, hword, hd, hw⟩ := e.exists_word
  have hsplit : e.head ++ e.first.lead =
      ([] ++ [d]) ++ (w ++ ((e.gap ++ ['(']) ++ e.first.lead)) := by
    rw [head, hword]
    simp
  have hd' : d ∈ ['e', 'E', '(', ')'] := List.mem_append_left ['(', ')'] hd
  have hletters : ∀ d ∈ ['e', 'E'], isWord d := by decide
  rw [hsplit]
  refine passes_append.mpr ⟨hp.passes_blanks (by simp) hd' _, passes_append.mpr
    ⟨hp.passes_inside ?_ hw, passes_append.mpr
      ⟨hp.passes_blanks e.gap_blank (by simp) _, hp.passes_commas fun c hc => ?_⟩⟩⟩
  · simpa using hletters d hd
  · exact List.mem_cons_of_mem _ (mem_blankChars (e.first.lead_blank c hc))

/-! ## Maps that keep enumerations -/

/-- A map of code that keeps the code between the literals of an enumeration. -/
structure Tame (f : Text → Text) : Prop where
  nil : f [] = []
  code : ∀ c, (∀ d ∈ c, isQuote d = false) → ∀ d ∈ f c, isQuote d = false
  comma : ∀ a b : Text, (∀ d ∈ a, isBlank d) → (∀ d ∈ b, isBlank d) →
    f (a ++ ',' :: b) = a ++ ',' :: b
  close : ∀ a y : Text, (∀ d ∈ a, isBlank d) → f (a ++ ')' :: y) = a ++ ')' :: f y

/-- `e.KeptBehind f c`: the map keeps the code before the first literal, behind the code
`c`. -/
def KeptBehind (e : Enumeration .standard) (f : Text → Text) (c : Text) : Prop :=
  ∃ z, f (c ++ (e.head ++ e.first.lead)) = z ++ (e.head ++ e.first.lead) ∧ z.getLast? = c.getLast?

/-- A tame map that keeps the code before the first literal behind every blank. -/
structure Steady (f : Text → Text) : Prop extends Tame f where
  front : ∀ (e : Enumeration .standard) (c : Text), c.getLast?.all isBlank → e.KeptBehind f c

theorem steady_id : Steady fun c => c where
  nil := rfl
  code _ hc := hc
  comma _ _ _ _ := rfl
  close _ _ _ := rfl
  front _ c _ := ⟨c, rfl, rfl⟩

/-- Two steady maps are steady one after the other. -/
theorem Steady.comp (hf : Steady f) (hg : Steady g) : Steady fun c => g (f c) where
  nil := by rw [hf.nil, hg.nil]
  code c hc := hg.code _ (hf.code c hc)
  comma a b ha hb := by rw [hf.comma a b ha hb, hg.comma a b ha hb]
  close a y ha := by rw [hf.close a y ha, hg.close a _ ha]
  front e c hc := by
    obtain ⟨z, hz, hlast⟩ := hf.front e c hc
    obtain ⟨z', hz', hlast'⟩ := hg.front e z (by rwa [hlast])
    refine ⟨z', ?_, by rw [hlast', hlast]⟩
    show g (f (c ++ (e.head ++ e.first.lead))) = _
    rw [hz, hz']

/-- **A tame map goes over a gap and an enumeration on their own**, if it keeps the front of
the enumeration behind the gap. -/
theorem Tame.carried (hf : Tame f) (hx : ScriptGap x) (e : Enumeration .standard)
    (hfront : ∀ u c, x = u ++ c → u.getLast?.any isWord = false → c.getLast?.all isBlank →
      e.KeptBehind f c) (t : Text) : e.Carried (mapCode .standard f) x t := by
  have hliteral : ∀ (item : Item .standard) (y : Text), y.head?.any isQuote = false →
      mapCode .standard f (item.literal ++ y) = item.literal ++ mapCode .standard f y := by
    intro item y hy
    refine item.isLiteral.mapCode_append f fun hmark => ?_
    rw [hmark] at hy
    exact absurd hy (by decide)
  have hhead : ∀ (item : Item .standard) (y : Text), (item.literal ++ y).head?.all isQuote := by
    intro item y
    rw [item.isLiteral.head?]
    decide
  -- The last run of code goes on behind the enumeration; the others lie between two literals.
  have hafter : ∀ (trail : Text) (items : List (Item .standard)), (∀ c ∈ trail, isBlank c) →
      mapCode .standard f (after trail items ++ t) =
        after trail items ++ mapCode .standard f t := by
    intro trail items htrail
    induction items generalizing trail with
    | nil =>
      have hquote : ∀ c ∈ trail ++ [')'], isQuote c = false :=
        List.forall_mem_append.mpr ⟨isQuote_of_blank htrail, by decide⟩
      obtain ⟨y, r, rfl, hy, hr, hmap⟩ :=
        exists_mapCode_append (q := .standard) f (by simp) hquote t
      rw [after, hmap, mapCode_run hf.nil hy hr, List.append_assoc, List.singleton_append,
        hf.close trail y htrail]
      simp
    | cons item items ih =>
      rw [after_cons_append, mapCode_run hf.nil (isQuote_between htrail item) (hhead item _),
        hf.comma _ _ htrail item.lead_blank,
        hliteral item _ (isQuote_head?_after item.trail_blank items t), ih _ item.trail_blank,
        after_cons_append]
  obtain ⟨z, hz, hlast, hshut⟩ := (blocks_of_shut hx.shut).exists_mapCode hx.blank hf.nil hf.code
    e.isQuote_front hfront
    (hhead e.first (after e.first.trail e.others ++ t))
  refine ⟨z, ⟨hshut, by rw [hlast]; exact hx.blank⟩, hlast, ?_⟩
  rw [text_append, hz, hliteral _ _ (isQuote_head?_after e.first.trail_blank e.others t),
    hafter _ _ e.first.trail_blank, text_append]

/-- **A steady map** keeps the enumerations of a line in their places. -/
theorem Steady.placed (hf : Steady f) (h : Placed ScriptGap es t) :
    Placed ScriptGap es (mapCode .standard f t) := by
  refine h.carried (C := fun _ => True) (fun x hx e _ t _ => ⟨trivial, ?_⟩) trivial
  exact hf.carried hx e (fun _ c _ _ => hf.front e c) t

/-! ## Replacing a pattern in code -/

/-- What takes the place of a match: a text made of what was set aside, without new quote
marks. -/
structure Plain (p : Pattern) (new : Cursor → Text) : Prop where
  congr : ∀ c d : Cursor, c.captures = d.captures → new c = new d
  code : ∀ before t stop, p.matchAfter before t = some stop → ∀ m, isQuote m → m ∉ t →
    m ∉ new stop

theorem plain_const {word : Text} (h : ∀ c ∈ word, isQuote c = false) : Plain p fun _ => word := by
  refine ⟨fun _ _ _ => rfl, fun _ _ _ _ m hm _ hmem => ?_⟩
  simp [h m hmem] at hm

/-- A pattern that is quiet in enumerations is replaced by a tame map. -/
theorem tame_replaceWith (hp : p.Quiet) (hnew : Plain p new) : Tame (p.replaceWith new) where
  nil := rfl
  code c hc d hd := by
    cases hquote : isQuote d with
    | false => rfl
    | true =>
      refine absurd hd (not_mem_replaceWith (fun before t stop hstop => ?_) fun hmem => ?_)
      · exact hnew.code before t stop hstop d hquote
      · simp [hc d hmem] at hquote
  comma a b ha hb := by
    have hpasses : p.Passes none (a ++ ',' :: b) [] := by
      refine hp.passes_commas (List.forall_mem_append.mpr ⟨fun c hc => ?_,
        List.forall_mem_cons.mpr ⟨by simp, fun c hc => ?_⟩⟩)
      · exact List.mem_cons_of_mem _ (mem_blankChars (ha c hc))
      · exact List.mem_cons_of_mem _ (mem_blankChars (hb c hc))
    have hkept : p.replaceFrom new none 0 (a ++ ',' :: b ++ []) = _ := replaceFrom_of_passes hpasses
    simpa [replaceWith, replaceFrom] using hkept
  close a y ha := by
    have hkept : p.replaceFrom new none 0 (a ++ [')'] ++ y) = _ :=
      replaceFrom_of_passes (hp.passes_blanks ha (by simp) y)
    have hbefore : ((a ++ [')']).getLast?.or none).any isWord =
        (none : Option Char).any isWord := by
      rw [List.getLast?_concat]
      decide
    rw [replaceFrom_congr hnew.congr hbefore] at hkept
    simpa [replaceWith] using hkept

/-- A match in the gap that would reach the end of the gap would reach into the word. -/
theorem keptBehind_of_confines {e : Enumeration .standard} (hp : p.Quiet)
    (h : p.Confines (fun _ _ => ()) () new none c (e.head ++ e.first.lead)) :
    e.KeptBehind (p.replaceWith new) c := by
  obtain ⟨z, hz, hlast, -⟩ := exists_replaceFrom_append h
  have hkept : p.replaceFrom new (c.getLast?.or none) 0 (e.head ++ e.first.lead ++ []) = _ :=
    replaceFrom_of_passes (e.passes_front hp)
  rw [List.append_nil] at hkept
  refine ⟨z, ?_, hlast⟩
  rw [replaceWith, hz, hkept, replaceFrom, List.append_nil]

/-- An enumeration begins with the letter of its word. -/
theorem head?_front (e : Enumeration .standard) :
    (e.head ++ e.first.lead).head?.any (· ∈ ['e', 'E']) := by
  obtain ⟨d, w, hword, hd, -⟩ := e.exists_word
  rw [head, hword]
  simpa using hd

theorem head?_text (e : Enumeration .standard) (t : Text) :
    (e.text ++ t).head?.any (· ∈ ['e', 'E']) := by
  obtain ⟨c, u, htext, hc⟩ := e.exists_text
  rw [htext]
  simpa using hc

theorem getLast?_suffix {u v : Text} (hv : v ≠ []) : (u ++ v).getLast? = v.getLast? := by
  rw [List.getLast?_append, List.getLast?_eq_some_getLast hv]
  rfl

/-- A pattern that keeps apart from enumerations is replaced by a steady map. -/
theorem steady_replaceWith (hp : p.isApart) (hnew : Plain p new) :
    Steady (p.replaceWith new) := by
  have hquiet := (quiet_of_isApart hp).1
  refine ⟨tame_replaceWith hquiet hnew, fun e c hc => keptBehind_of_confines hquiet ?_⟩
  intro u v hcut hv stop hstop
  rw [hcut, getLast?_suffix hv] at hc
  obtain ⟨y, hsplit, htaken, hy⟩ := takes_of_matchAfter hstop
  refine ⟨?_, rfl⟩
  rw [htaken]
  exact length_lt_of_isApart hp hv hc e.head?_front hy hsplit

theorem steady_erase (hp : p.isApart) : Steady p.erase :=
  steady_replaceWith hp (plain_const (by simp))

/-! ## Patterns that take a word -/

/-- **A pattern that takes any word** keeps the front of an enumeration, unless the word is
that of the enumeration. -/
theorem keptBehind_of_spared {e : Enumeration .standard} (hp : (a ++ wordChars).Quiet)
    (hjoins : a.joins blankChars ['e', 'E'] = false) (hc : c.getLast?.all isBlank)
    (hspared : ∀ u v, c = u ++ v →
      ¬ (a ++ EnumType.opener).Fits u.getLast? (v ++ (e.head ++ e.first.lead))) :
    e.KeptBehind ((a ++ wordChars).replaceWith new) c := by
  refine keptBehind_of_confines hp ?_
  intro u v hcut hv stop hstop
  rw [hcut, getLast?_suffix hv] at hc
  obtain ⟨y, hsplit, htaken, hy⟩ := takes_of_matchAfter hstop
  refine ⟨?_, rfl⟩
  rw [htaken]
  refine Nat.lt_of_not_le fun hlength => ?_
  obtain ⟨v', b, d, y', rfl, hb, rfl, hw⟩ := hp.exists_neighbour hv hc hy hsplit hlength
  have hd : d ∈ ['e', 'E'] := by
    have hfront := e.head?_front
    rw [hw] at hfront
    simpa using hfront
  obtain ⟨y₁, y₂, hcut', ha, hwords⟩ := takes_append.mp hy
  obtain ⟨-, hwords, -⟩ := takes_someOf.mp hwords
  have hblank : isWord b = false := Text.isWord_eq_false_of_isBlank (by simpa using hc)
  -- The first part does not take both the blank and the letter, and a word takes no blank.
  rcases neighbours_split hcut' with ⟨y', rfl⟩ | ⟨rfl, rfl⟩ | ⟨x', rfl⟩
  · have hjoin := joins_of_takes ha hb hd
    simp [hjoins] at hjoin
  · refine hspared u (v' ++ [b]) hcut ⟨v' ++ [b] ++ e.head, e.first.lead, by simp, ?_⟩
    refine takes_append.mpr ⟨v' ++ [b], e.head, rfl, ?_, e.takes_head ?_ _⟩
    · rw [hw]
      simpa using ha
    · rw [List.getLast?_concat]
      exact hblank
  · have hword := hwords b (by simp)
    simp [hblank] at hword

/-- Such a pattern keeps the enumerations of a line in their places, if it never stands right
before an enumeration. -/
theorem placed_of_spared (hp : (a ++ wordChars).isQuiet)
    (hjoins : a.joins blankChars ['e', 'E'] = false) (hnew : Plain (a ++ wordChars) new)
    (h : Placed ScriptGap es t) (hspared : (a ++ EnumType.opener).occurs t = false) :
    Placed ScriptGap es (mapCode .standard ((a ++ wordChars).replaceWith new) t) := by
  have hquiet := quiet_of_isQuiet hp
  have hnone : ∀ u v, t = u ++ v → ¬ (a ++ EnumType.opener).Fits u.getLast? v := by
    intro u v hsplit hfits
    have hoccurs := occurs_iff.mpr ⟨u, v, hsplit, hfits⟩
    simp [hspared] at hoccurs
  refine h.carried (C := fun t => ∀ u v, t = u ++ v → ¬ (a ++ EnumType.opener).Fits u.getLast? v)
    (fun x hx e _ t hline => ?_) hnone
  refine ⟨fun u v hsplit hfits => ?_,
    (tame_replaceWith hquiet hnew).carried hx e (fun u c hcut hu hc => ?_) t⟩
  · obtain ⟨y, m, rfl, hy⟩ := hfits
    exact hline (x ++ (e.text ++ u)) (y ++ m) (by rw [hsplit]; simp only [List.append_assoc])
      ⟨y, m, rfl, hy.congr (e.any_getLast?_behind x u).symm rfl⟩
  · refine keptBehind_of_spared hquiet hjoins hc fun u' v hcut' hfits => ?_
    -- What is taken up to the parenthesis is taken on the line as well.
    obtain ⟨y, m, hsplit, hy⟩ := hfits
    obtain ⟨y₁, y₂, rfl, ha, hopen⟩ := takes_append.mp hy
    obtain ⟨hword, w, gap, hy₂, hw, hgap⟩ := (takes_callOpener isKeyword_enum).mp hopen
    have hbefore : u'.getLast?.any isWord = (u ++ u').getLast?.any isWord := by
      rw [List.getLast?_append]
      cases u'.getLast? with
      | none => exact hu.symm
      | some d => rfl
    have hhead : ∀ rest, (y₂ ++ m).head? = (y₂ ++ (m ++ rest)).head? := by
      intro rest
      obtain ⟨d, w, rfl⟩ := List.exists_cons_of_ne_nil (isWord_of_spells isKeyword_enum hw).1
      rw [hy₂]
      rfl
    have hline' : x ++ (e.text ++ t) = (u ++ u') ++ ((y₁ ++ y₂) ++
        (m ++ (e.first.literal ++ (after e.first.trail e.others ++ t)))) := by
      rw [hcut, hcut', text_append, ← List.append_assoc (y₁ ++ y₂), ← hsplit]
      simp only [List.append_assoc]
    refine hline (u ++ u') _ hline' ⟨_, _, rfl, takes_append.mpr
      ⟨y₁, y₂, rfl, ha.congr hbefore (hhead _), (takes_callOpener isKeyword_enum).mpr ?_⟩⟩
    refine ⟨?_, w, gap, hy₂, hw, hgap⟩
    rwa [← any_getLast?_or hbefore]

end Enumeration
end DumpBridge
