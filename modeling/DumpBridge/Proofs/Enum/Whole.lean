import DumpBridge.Line.Columns
import DumpBridge.Proofs.Enum.Code

/-!
# Rules for whole lines and enumerations

Some rules look for a pattern on the whole line, literals included.  Where the pattern
does not occur in an enumeration, or is only found outside literals, the enumeration
stays.  A gap keeps its end, and no literal is left open in it, as long as what takes
the place of a match has the same marks (`carried_replaceWith`).

`everyMatch` goes over a line and asks something of each match and of the literal
that is open where the match starts.
-/

namespace DumpBridge

open Text (Pattern Cursor isBlank isWord blankChars mem_blankChars)
open Text.Pattern
open Literal

/-! ## Outside literals -/

namespace Enumeration

variable {p : Pattern} {new : Cursor → Text} {before : Option Char} {x t u v : Text} {d : Char}
  {es : List (Enumeration .standard)}

/-- What stands outside the literals of an enumeration or begins one, blanks apart. -/
def codeMarks : List Char :=
  ['e', 'E', 'n', 'N', 'u', 'U', 'm', 'M', '(', ',', ')', '\'']

/-- An enumeration leaves no literal open. -/
theorem foldl_after {trail : Text} (htrail : ∀ c ∈ trail, isBlank c)
    (items : List (Item .standard)) : (after trail items).foldl markStep none = none := by
  induction items generalizing trail with
  | nil =>
    exact foldl_markStep_code
      (List.forall_mem_append.mpr ⟨isQuote_of_blank htrail, by decide⟩) none
  | cons item items ih =>
    rw [after, List.foldl_append, foldl_markStep_code (isQuote_between htrail item),
      List.foldl_append,
      item.isLiteral.foldl_markStep, ih item.trail_blank]

theorem foldl_text (e : Enumeration .standard) : e.text.foldl markStep none = none := by
  have hsplit := e.text_append []
  simp only [List.append_nil] at hsplit
  rw [hsplit, List.foldl_append, foldl_markStep_code e.isQuote_front, List.foldl_append,
    e.first.isLiteral.foldl_markStep, foldl_after e.first.trail_blank]

/-- Where no literal is open in code and a literal, there is code, or a mark, or the place
is behind the literal. -/
theorem outside_cases {c ℓ r : Text} (hc : ∀ b ∈ c, isQuote b = false)
    (hmarks : ∀ b ∈ c, b ∈ codeMarks ∨ isBlank b) (hℓ : IsLiteral .standard '\'' ℓ)
    (hcut : c ++ (ℓ ++ r) = u ++ d :: v) (hshut : u.foldl markStep none = none) :
    (d ∈ codeMarks ∨ isBlank d) ∨
      ∃ u', u'.foldl markStep none = none ∧ r = u' ++ d :: v := by
  rcases append_cons_split hcut.symm with ⟨v', rfl⟩ | ⟨u', rfl, hrest⟩
  · exact Or.inl (hmarks d (by simp))
  · rw [List.foldl_append, foldl_markStep_code hc] at hshut
    rcases append_cons_split hrest.symm with ⟨v', hinside⟩ | ⟨u'', rfl, hbehind⟩
    · rw [hℓ.eq_of_shut hinside hshut]
      exact Or.inl (Or.inl (by decide))
    · rw [List.foldl_append, hℓ.foldl_markStep] at hshut
      exact Or.inr ⟨u'', hshut, hbehind⟩

/-- Outside literals, what follows an item has marks of code and blanks only. -/
theorem outside_after {trail : Text} (htrail : ∀ c ∈ trail, isBlank c)
    (items : List (Item .standard)) (hcut : after trail items = u ++ d :: v)
    (hshut : u.foldl markStep none = none) : d ∈ codeMarks ∨ isBlank d := by
  induction items generalizing trail u with
  | nil =>
    have hmem : d ∈ trail ++ [')'] := by
      rw [after] at hcut
      rw [hcut]
      simp
    rcases List.mem_append.mp hmem with hmem | hmem
    · exact Or.inr (htrail d hmem)
    · rw [List.mem_singleton.mp hmem]
      decide
  | cons item items ih =>
    have hcode := isQuote_between htrail item
    have hmarks : ∀ b ∈ trail ++ ',' :: item.lead, b ∈ codeMarks ∨ isBlank b :=
      List.forall_mem_append.mpr ⟨fun b hb => Or.inr (htrail b hb),
        List.forall_mem_cons.mpr ⟨Or.inl (by decide), fun b hb => Or.inr (item.lead_blank b hb)⟩⟩
    rcases outside_cases hcode hmarks item.isLiteral hcut hshut with hd | ⟨u', hshut', hcut'⟩
    · exact hd
    · exact ih item.trail_blank hcut' hshut'

theorem codeMarks_front (e : Enumeration .standard) :
    ∀ b ∈ e.head ++ e.first.lead, b ∈ codeMarks ∨ isBlank b := by
  obtain ⟨c, w, hword, hc, hw⟩ := e.exists_word
  intro b hb
  simp only [head, hword, List.mem_append, List.mem_cons, List.not_mem_nil, or_false] at hb
  rcases hb with ((rfl | hb) | hb | rfl) | hb
  · exact Or.inl (List.mem_append_left _ hc)
  · exact Or.inl
      (List.mem_append_right ['e', 'E'] (List.mem_append_left ['(', ',', ')', '\''] (hw b hb)))
  · exact Or.inr (e.gap_blank b hb)
  · exact Or.inl (by decide)
  · exact Or.inr (e.first.lead_blank b hb)

/-- Where no literal of an enumeration is open, there is a mark of its code or a blank. -/
theorem outside_text (e : Enumeration .standard) (hcut : e.text = u ++ d :: v)
    (hshut : u.foldl markStep none = none) : d ∈ codeMarks ∨ isBlank d := by
  have hsplit := e.text_append []
  simp only [List.append_nil] at hsplit
  rw [hsplit] at hcut
  rcases outside_cases e.isQuote_front e.codeMarks_front e.first.isLiteral hcut hshut with
    hd | ⟨u', hshut', hcut'⟩
  · exact hd
  · exact outside_after e.first.trail_blank e.others hcut' hshut'

/-- From there, blanks lead up to a mark. -/
theorem exists_mark_text (e : Enumeration .standard) (hcut : e.text = u ++ v) (hne : v ≠ [])
    (hshut : u.foldl markStep none = none) :
    ∃ s c r, v = s ++ c :: r ∧ (∀ b ∈ s, isBlank b) ∧ c ∈ codeMarks := by
  induction v generalizing u with
  | nil => exact absurd rfl hne
  | cons d v ih =>
    rcases e.outside_text hcut hshut with hd | hd
    · exact ⟨[], d, v, rfl, by simp, hd⟩
    · have hshut' : (u ++ [d]).foldl markStep none = none := by
        rw [List.foldl_append, hshut]
        exact foldl_markStep_code (isQuote_of_blank (by simpa using hd)) none
      have hne' : v ≠ [] := by
        rintro rfl
        have hlast := e.getLast?_text none
        rw [hcut, List.getLast?_concat] at hlast
        obtain rfl : d = ')' := by simpa using hlast
        exact absurd hd (by decide)
      obtain ⟨s, c, r, rfl, hs, hc⟩ := ih (by simpa using hcut) hne' hshut'
      exact ⟨d :: s, c, r, rfl, List.forall_mem_cons.mpr ⟨hd, hs⟩, hc⟩

/-- Whether no match starts with blanks or with blanks and a mark of an enumeration. -/
def isForeign (p : Pattern) : Bool :=
  !p.nullable && !p.endsIn blankChars && !p.leadsIn codeMarks

/-- Such a pattern does not fit outside the literals of an enumeration. -/
theorem not_fits_outside (hp : isForeign p) (e : Enumeration .standard) (hcut : e.text = u ++ v)
    (hne : v ≠ []) (hshut : u.foldl markStep none = none) : ¬ p.Fits before (v ++ t) := by
  simp only [isForeign, Bool.and_eq_true, Bool.not_eq_true'] at hp
  obtain ⟨⟨hnull, hends⟩, hleads⟩ := hp
  obtain ⟨s, c, r, rfl, hs, hc⟩ := e.exists_mark_text hcut hne hshut
  intro hfits
  obtain ⟨y, m, hsplit, hy⟩ := hfits
  rw [List.append_assoc, List.cons_append] at hsplit
  rcases append_cons_split hsplit with ⟨y', rfl⟩ | ⟨s', rfl, -⟩
  · have hlead := leadsIn_of_takes hy hs hc
    simp [hleads] at hlead
  · rcases List.eq_nil_or_concat y with rfl | ⟨y, b, rfl⟩
    · have hempty := nullable_of_takes hy
      simp [hnull] at hempty
    · rw [List.concat_eq_append] at hy hs
      have hend := endsIn_of_takes hy (mem_blankChars (hs b (by simp)))
      simp [hends] at hend

/-- **A pattern that is only found outside literals** passes over an enumeration. -/
theorem passes_text_of_outside (hp : isForeign p) (e : Enumeration .standard)
    (hout : ∀ u v, e.text = u ++ v → v ≠ [] → p.Fits (u.getLast?.or before) (v ++ t) →
      u.foldl markStep none = none) : p.Passes before e.text t := by
  refine passes_of_not_fits fun u v hcut hne hfits => ?_
  exact e.not_fits_outside hp hcut hne (hout u v hcut hne hfits) hfits

/-- **A pattern that does not occur in an enumeration** passes over it, if its matches have no
closing parenthesis. -/
theorem passes_text_of_not_occurs (hp : p.uses [')'] = false) (e : Enumeration .standard)
    (hnone : p.occurs e.text = false) (hbefore : before.any isWord = false) :
    p.Passes before e.text t := by
  refine passes_of_not_fits fun u v hcut hne hfits => ?_
  obtain ⟨y, m, hsplit, hy⟩ := hfits
  -- The match ends before the last parenthesis, so it is one of the enumeration alone.
  obtain ⟨v', rfl⟩ : ∃ v', v = v' ++ [')'] := by
    have hlast := e.getLast?_text none
    rw [hcut, getLast?_suffix hne, Option.or_none] at hlast
    exact List.getLast?_eq_some_iff.mp hlast
  have hparen : ')' ∉ y := fun hmem => (within_of_uses hp).of_takes hy ')' hmem (by simp)
  rw [List.append_assoc, List.singleton_append] at hsplit
  obtain ⟨m', rfl, hrest⟩ := Text.exists_append_of_not_mem hparen hsplit
  have hfits : p.Fits u.getLast? (y ++ (m' ++ [')'])) := by
    refine ⟨y, m' ++ [')'], rfl, hy.congr ?_ ?_⟩
    · cases u.getLast? with
      | none => simpa using hbefore
      | some c => rfl
    · rw [hrest]
      cases m' <;> rfl
  have hoccurs : p.occurs e.text :=
    occurs_iff.mpr ⟨u, _, by rw [hcut, List.append_assoc y], hfits⟩
  simp [hnone] at hoccurs

/-- A match without quote marks does not reach from a gap into an enumeration, if it ends with
none of its marks. -/
theorem length_lt_of_code (hp : p.endsIn (codeMarks ++ blankChars) = false) (hne : v ≠ [])
    (hblank : v.getLast?.all isBlank) (e : Enumeration .standard) {y rest : Text}
    (hcode : ∀ c ∈ y, isQuote c = false) (hy : p.Takes before y rest)
    (hsplit : v ++ (e.text ++ t) = y ++ rest) : y.length < v.length := by
  refine Nat.lt_of_not_le fun hlength => ?_
  obtain ⟨y', rfl⟩ : v <+: y := by
    refine List.prefix_of_prefix_length_le (List.prefix_append _ (e.text ++ t)) ?_ hlength
    rw [hsplit]
    exact List.prefix_append y rest
  -- Up to its first literal, the enumeration holds all that is taken of it.
  obtain ⟨body, -, -, -, hliteral⟩ := e.first.isLiteral.exists_inner
  have hquote : '\'' ∉ y' := by
    intro hmem
    exact absurd (hcode '\'' (List.mem_append_right v hmem)) (by decide)
  rw [List.append_assoc, List.append_cancel_left_eq, text_append, hliteral,
    List.cons_append] at hsplit
  obtain ⟨front, hfront, -⟩ := Text.exists_append_of_not_mem hquote hsplit
  have hlast : ∀ u b, v ++ y' = u ++ [b] → b ∈ codeMarks ∨ isBlank b := by
    intro u b hcut
    rcases List.eq_nil_or_concat y' with rfl | ⟨y', b', rfl⟩
    · rw [List.append_nil] at hcut
      rw [hcut, List.getLast?_concat] at hblank
      exact Or.inr (by simpa using hblank)
    · rw [List.concat_eq_append, ← List.append_assoc] at hcut
      obtain ⟨-, hb⟩ := List.append_inj' hcut rfl
      obtain rfl : b' = b := by simpa using hb
      exact e.codeMarks_front b' (by rw [hfront]; simp)
  rcases List.eq_nil_or_concat (v ++ y') with hnil | ⟨u, b, hcut⟩
  · exact hne (List.append_eq_nil_iff.mp hnil).1
  · rw [List.concat_eq_append] at hcut
    rw [hcut] at hy
    have hmem : b ∈ codeMarks ++ blankChars := by
      rcases hlast u b hcut with hb | hb
      · exact List.mem_append_left _ hb
      · exact List.mem_append_right _ (mem_blankChars hb)
    have hend := endsIn_of_takes hy hmem
    simp [hp] at hend

/-! ## Replacing on the whole line -/

/-- **A gap and an enumeration** are changed on their own, if the gap confines the matches in it
and the enumeration has none. -/
theorem carried_replaceWith (hnew : ∀ c d : Cursor, c.captures = d.captures → new c = new d)
    (hx : ScriptGap x) (e : Enumeration .standard)
    (hgap : p.Confines markStep none new none x (e.text ++ t))
    (htext : p.Passes x.getLast? e.text t) :
    e.Carried (p.replaceWith new) x t := by
  obtain ⟨z, hz, hlast, hshut⟩ := exists_replaceFrom_append hgap
  have hparen : (e.text.getLast?.or (x.getLast?.or none)).any isWord =
      (none : Option Char).any isWord := by
    rw [e.getLast?_text]
    decide
  refine ⟨z, ⟨by rw [hshut]; exact hx.shut, by rw [hlast]; exact hx.blank⟩, hlast, ?_⟩
  rw [replaceWith, hz, replaceFrom_of_passes (by simpa using htext), replaceFrom_congr hnew hparen,
    replaceWith]

/-- Replacing a pattern that keeps apart from enumerations and occurs in none keeps them in
their places, if a match and what takes its place have the same marks. -/
theorem placed_of_not_occurs (hp : p.isApart) (huses : p.uses [')'] = false)
    (hnew : ∀ c d : Cursor, c.captures = d.captures → new c = new d)
    (hmarks : ∀ before t stop y, p.matchAfter before t = some stop → t = y ++ stop.rest →
      p.Takes before y stop.rest → ∀ s, (new stop).foldl markStep s = y.foldl markStep s)
    (h : Placed ScriptGap es t) (hnone : ∀ e ∈ es, p.occurs e.text = false) :
    Placed ScriptGap es (p.replaceWith new t) := by
  refine h.carried (C := fun _ => True) (fun x hx e he t _ => ?_) trivial
  refine ⟨trivial, carried_replaceWith hnew hx e ?_ ?_⟩
  · intro u v hcut hv stop hstop
    have hblank := hx.blank
    rw [hcut, getLast?_suffix hv] at hblank
    obtain ⟨y, hsplit, htaken, hy⟩ := takes_of_matchAfter hstop
    have hlt := length_lt_of_isApart hp hv hblank (e.head?_text t) hy hsplit
    rw [htaken]
    refine ⟨hlt, ?_⟩
    have htake : v.take y.length = y := by
      have hprefix := congrArg (List.take y.length) hsplit
      rwa [List.take_append_of_le_length (Nat.le_of_lt hlt), List.take_left] at hprefix
    rw [htake]
    exact hmarks _ _ stop y hstop hsplit hy _
  · have hbefore : (x.getLast?.or none).any isWord = false := any_getLast?_of_blank hx.blank rfl
    exact e.passes_text_of_not_occurs huses (hnone e he) (by simpa using hbefore)

/-! ## Asking something of every match -/

/-- Whether each match that starts in a text is as it should be, given the literal that is open
where it starts. -/
def everyMatch (p : Pattern) (good : Option Char → Text → Bool) :
    Option Char → Option Char → Text → Bool
  | _, _, [] => true
  | mark, before, c :: t =>
    ((p.matchAfter before (c :: t)).all fun stop => good mark ((c :: t).take stop.taken)) &&
      everyMatch p good (markStep mark c) (some c) t

/-- `EveryMatch p good t`: each match that starts on the line is as it should be. -/
def EveryMatch (p : Pattern) (good : Option Char → Text → Bool) (t : Text) : Prop :=
  ∀ u v, t = u ++ v → v ≠ [] → ∀ stop, p.matchAfter u.getLast? v = some stop →
    good (u.foldl markStep none) (v.take stop.taken)

variable {good : Option Char → Text → Bool}

/-- **The check covers every match**, wherever it starts. -/
theorem everyMatch_sound {mark : Option Char} (h : everyMatch p good mark before t)
    (hcut : t = u ++ v) (hne : v ≠ []) {stop : Cursor}
    (hstop : p.matchAfter (u.getLast?.or before) v = some stop) :
    good (u.foldl markStep mark) (v.take stop.taken) := by
  induction t generalizing u mark before with
  | nil =>
    obtain ⟨-, rfl⟩ := List.append_eq_nil_iff.mp hcut.symm
    exact absurd rfl hne
  | cons c t ih =>
    rw [everyMatch, Bool.and_eq_true] at h
    cases u with
    | nil =>
      obtain rfl : c :: t = v := hcut
      have hgood := h.1
      rw [show p.matchAfter before (c :: t) = some stop by simpa using hstop] at hgood
      exact hgood
    | cons b u =>
      obtain ⟨rfl, hcut'⟩ := List.cons.inj hcut
      rw [getLast?_cons_or] at hstop
      have hgood := ih h.2 hcut' hstop
      exact hgood

theorem everyMatch_of_true (h : everyMatch p good none none t) : EveryMatch p good t := by
  intro u v hcut hne stop hstop
  exact everyMatch_sound h hcut hne (by simpa using hstop)

/-- What holds of every match on a line holds of those behind an enumeration. -/
theorem EveryMatch.right {e : Enumeration .standard} (hx : ScriptGap x)
    (h : EveryMatch p good (x ++ (e.text ++ t))) : EveryMatch p good t := by
  intro u v hcut hne stop hstop
  obtain ⟨stop', hstop', htaken⟩ := exists_matchAfter_congr (e.any_getLast?_behind x u).symm hstop
  have hgood :=
    h (x ++ (e.text ++ u)) v (by rw [hcut]; simp only [List.append_assoc]) hne stop' hstop'
  rwa [List.foldl_append, hx.shut, List.foldl_append, e.foldl_text, htaken] at hgood

/-- **A pattern that is only found outside literals** is replaced around the enumerations, if
no match in a gap reaches the end of the gap and what takes its place leaves no literal
open. -/
theorem placed_of_everyMatch (hp : isForeign p)
    (hnew : ∀ c d : Cursor, c.captures = d.captures → new c = new d)
    (hgood : ∀ mark y, good mark y → mark = none)
    (hmatch :
      ∀ (before : Option Char) (v t : Text) (e : Enumeration .standard) (stop : Cursor) (y : Text),
      v ≠ [] → v.getLast?.all isBlank → v.foldl markStep none = none → good none y →
      p.matchAfter before (v ++ (e.text ++ t)) = some stop →
      v ++ (e.text ++ t) = y ++ stop.rest → p.Takes before y stop.rest →
      y.length < v.length ∧ (new stop).foldl markStep none = y.foldl markStep none)
    (h : Placed ScriptGap es t) (hevery : everyMatch p good none none t) :
    Placed ScriptGap es (p.replaceWith new t) := by
  refine h.carried (fun x hx e he t hline => ?_) (everyMatch_of_true hevery)
  refine ⟨hline.right hx, carried_replaceWith hnew hx e ?_ ?_⟩
  · intro u v hcut hv stop hstop
    rw [Option.or_none] at hstop
    have hgoodv := hline u (v ++ (e.text ++ t)) (by rw [hcut, List.append_assoc])
      (by simp [hv]) stop hstop
    have hu := hgood _ _ hgoodv
    have hshut := hx.shut
    have hblank := hx.blank
    rw [hcut, List.foldl_append, hu] at hshut
    rw [hcut, getLast?_suffix hv] at hblank
    obtain ⟨y, hsplit, htaken, hy⟩ := takes_of_matchAfter hstop
    rw [hu, htaken, hsplit, List.take_left] at hgoodv
    obtain ⟨hlt, hmarks⟩ := hmatch _ v t e stop y hv hblank hshut hgoodv hstop hsplit hy
    have htake : v.take y.length = y := by
      have hprefix := congrArg (List.take y.length) hsplit
      rwa [List.take_append_of_le_length (Nat.le_of_lt hlt), List.take_left] at hprefix
    rw [hu, htaken, htake]
    exact ⟨hlt, hmarks⟩
  · refine e.passes_text_of_outside hp fun u v hcut hne hfits => ?_
    obtain ⟨stop, hstop⟩ := Option.isSome_iff_exists.mp (matchAfter_isSome_iff.mpr hfits)
    rw [← List.getLast?_append] at hstop
    have hgoodv := hline (x ++ u) (v ++ t) (by rw [hcut]; simp only [List.append_assoc])
      (by simp [hne]) stop hstop
    have hopen := hgood _ _ hgoodv
    rwa [List.foldl_append, hx.shut] at hopen

end Enumeration
end DumpBridge
