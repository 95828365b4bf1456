import DumpBridge.Literal.Call
import DumpBridge.Literal.Quoted
import DumpBridge.Literal.Segment
import DumpBridge.Proofs.Text.Preferred

/-!
# Where characters come from

Changing a text brings in no character but those that are put in.  The lemmas
here say so of each way to change a text, for one character `x` that the text
does not have.  A match sets nothing aside but what its pattern lets it
(`Sets.captured`).
-/

namespace DumpBridge.Text

variable {x : Char} {t : Text}

/-- Replacing brings in characters of the new text only. -/
theorem not_mem_replace {old new : Text} (hnew : x ∉ new) (ht : x ∉ t) :
    x ∉ replace old new t := by
  have hfrom : ∀ skip, x ∉ replaceFrom old new skip t := by
    intro skip
    fun_induction replaceFrom old new skip t with
    | case1 => simp
    | case2 skip c rest ih => exact ih (by simp_all)
    | case3 c rest hpre ih =>
      rw [List.mem_append, not_or]
      exact ⟨hnew, ih (by simp_all)⟩
    | case4 c rest hpre ih =>
      rw [List.mem_cons, not_or]
      exact ⟨by simp_all, ih (by simp_all)⟩
  exact hfrom 0

/-- Dropping from the end brings nothing in. -/
theorem not_mem_dropEndWhile {p : Char → Bool} (ht : x ∉ t) : x ∉ dropEndWhile p t := by
  intro hmem
  rw [dropEndWhile, List.mem_reverse] at hmem
  have hreverse := (List.dropWhile_suffix p).subset hmem
  exact ht (List.mem_reverse.mp hreverse)

theorem not_mem_trimEnd (ht : x ∉ t) : x ∉ trimEnd t :=
  not_mem_dropEndWhile ht

theorem not_mem_trimStart (ht : x ∉ t) : x ∉ trimStart t :=
  fun hmem => ht ((List.dropWhile_suffix isBlank).subset hmem)

theorem not_mem_trim (ht : x ∉ t) : x ∉ trim t :=
  not_mem_trimEnd (not_mem_trimStart ht)

/-- Joining brings in characters of the separator only. -/
theorem not_mem_join {sep : Text} {pieces : List Text} (hsep : x ∉ sep)
    (hpieces : ∀ piece ∈ pieces, x ∉ piece) : x ∉ join sep pieces := by
  fun_induction join sep pieces with
  | case1 => simp
  | case2 piece => exact hpieces piece (by simp)
  | case3 piece rest _ ih =>
    obtain ⟨hpiece, hrest⟩ := List.forall_mem_cons.mp hpieces
    simp [hpiece, hsep, ih hrest]

/-! ## Matches -/

namespace Pattern

variable {p : Pattern} {c d : Cursor} {before : Option Char} {new : Cursor → Text} {slot : Nat}
  {Q : Capture → Prop}

/-- `p.Within q`: the pattern takes characters of the class `q` only. -/
def Within (q : Char → Prop) : Pattern → Prop
  | one r | run r => ∀ c, r c → q c
  | seq a b | alt a b => a.Within q ∧ b.Within q
  | star a | starLazy a | capture _ a => a.Within q
  | _ => True

/-- Rounds take characters that each of them takes. -/
theorem Rounds.forall_mem {takes : Option Char → Text → Text → Prop} {q : Char → Prop}
    {y rest : Text} (h : Rounds takes before y rest)
    (htakes : ∀ before y rest, takes before y rest → ∀ c ∈ y, q c) :
    ∀ c ∈ y, q c := by
  induction h with
  | done => simp
  | more _ hfirst _ ih => exact List.forall_mem_append.mpr ⟨htakes _ _ _ hfirst, ih⟩

/-- **What a pattern takes** has characters of its class only. -/
theorem Within.of_takes {q : Char → Prop} {y rest : Text} (h : p.Within q)
    (hy : p.Takes before y rest) : ∀ c ∈ y, q c := by
  induction p generalizing before y rest with
  | one r =>
    obtain ⟨c, rfl, hc⟩ := hy
    simpa using h c hc
  | run r => exact fun c hc => h c (hy.1 c hc)
  | seq a b iha ihb =>
    obtain ⟨s, m, rfl, hs, hm⟩ := hy
    exact List.forall_mem_append.mpr ⟨iha h.1 hs, ihb h.2 hm⟩
  | alt a b iha ihb =>
    rcases hy with hy | hy
    · exact iha h.1 hy
    · exact ihb h.2 hy
  | star a ih | starLazy a ih => exact Rounds.forall_mem hy fun _ _ _ => ih h
  | capture _ a ih => exact ih h hy
  | nothing => simp [show y = [] from hy]
  | edge | textEnd => simp [hy.1]

/-- What is left after a match is a suffix of the text. -/
theorem suffix_of_mem_ends (hd : d ∈ p.ends c) : d.rest <:+ c.rest := by
  obtain ⟨y, hreach, -⟩ := reaches_of_mem_ends p hd
  exact ⟨y, hreach.rest.symm⟩

/-- `p.Sets t Q`: of everything that the pattern sets aside of the text `t`, `Q`
holds. -/
def Sets (t : Text) (Q : Capture → Prop) : Pattern → Prop
  | seq a b | alt a b => a.Sets t Q ∧ b.Sets t Q
  | star a | starLazy a => a.Sets t Q
  | capture slot a => a.Sets t Q ∧ ∀ before y rest, y ++ rest <:+ t → a.Takes before y rest →
      Q ⟨slot, y ++ rest, y.length⟩
  | _ => True

theorem sets_of_isPlain (h : p.isPlain) : p.Sets t Q := by
  induction p <;> simp_all [isPlain, Sets]

/-- What a chain of rounds has set aside, each round has, or it was there before. -/
theorem Chain.sets {step : Cursor → List Cursor} {n : Nat}
    (hstep : ∀ c d, d ∈ step c → c.rest <:+ t → (∀ k ∈ c.captures, Q k) →
      d.rest <:+ t ∧ ∀ k ∈ d.captures, Q k)
    (h : Chain step n c d) (hrest : c.rest <:+ t) (hc : ∀ k ∈ c.captures, Q k) :
    ∀ k ∈ d.captures, Q k := by
  induction h with
  | stop n c => exact hc
  | round hd _ _ ih =>
    obtain ⟨hrest, hc⟩ := hstep _ _ hd hrest hc
    exact ih hrest hc

/-- What a match has set aside is what its pattern sets aside. -/
theorem Sets.of_mem_ends (h : p.Sets t Q) (hd : d ∈ p.ends c) (hrest : c.rest <:+ t)
    (hc : ∀ k ∈ c.captures, Q k) : ∀ k ∈ d.captures, Q k := by
  induction p generalizing c d with
  | seq a b iha ihb =>
    obtain ⟨e, he, hd⟩ := List.mem_flatMap.mp hd
    exact ihb h.2 hd ((suffix_of_mem_ends he).trans hrest) (iha h.1 he hrest hc)
  | alt a b iha ihb =>
    rcases List.mem_append.mp hd with hd | hd
    · exact iha h.1 hd hrest hc
    · exact ihb h.2 hd hrest hc
  | star a ih =>
    rcases (mem_greedy_iff c.rest).mp hd with hchain | hd
    · exact hchain.sets
        (fun _ _ hd hrest hc => ⟨(suffix_of_mem_ends hd).trans hrest, ih h hd hrest hc⟩) hrest hc
    · simp at hd
  | starLazy a ih =>
    rcases (mem_reluctant_iff c.rest).mp hd with hchain | hd
    · exact hchain.sets
        (fun _ _ hd hrest hc => ⟨(suffix_of_mem_ends hd).trans hrest, ih h hd hrest hc⟩) hrest hc
    · simp at hd
  | capture slot a ih =>
    obtain ⟨e, he, rfl⟩ := List.mem_map.mp hd
    obtain ⟨y, hreach, htakes⟩ := reaches_of_mem_ends a he
    refine List.forall_mem_cons.mpr ⟨?_, ih h.1 he hrest hc⟩
    rw [hreach.rest] at hrest ⊢
    rw [hreach.taken, Nat.add_sub_cancel_left]
    exact h.2 _ _ _ hrest htakes
  | nothing | one q | run q | edge | textEnd => rwa [captures_of_mem_ends rfl hd]

/-- **What a match has set aside** has the property of all the pattern sets aside. -/
theorem Sets.of_matchAfter (h : p.Sets t Q) (hd : p.matchAfter before t = some d) :
    ∀ k ∈ d.captures, Q k :=
  h.of_mem_ends (List.mem_of_head? hd) (List.suffix_refl t) (by simp [Cursor.start])

/-- So has the text in a slot, if the empty text does too. -/
theorem Sets.captured {P : Text → Prop} (h : p.Sets t fun k => k.slot = slot → P k.text)
    (hd : p.matchAfter before t = some d) (hnil : P []) : P (d.captured slot) := by
  unfold Cursor.captured Cursor.capture?
  cases hfind : d.captures.find? fun capture => capture.slot = slot with
  | none => exact hnil
  | some capture =>
    have hslot : capture.slot = slot := by simpa using List.find?_some hfind
    exact h.of_matchAfter hd capture (List.mem_of_find?_eq_some hfind) hslot

/-- Replacing matches brings in characters of the new texts only, from wherever it starts. -/
theorem not_mem_replaceFrom {skip : Nat}
    (hnew : ∀ before t found, p.matchAfter before t = some found → x ∉ t → x ∉ new found)
    (ht : x ∉ t) : x ∉ p.replaceFrom new before skip t := by
  fun_induction replaceFrom p new before skip t with
  | case1 => simp
  | case2 before skip c rest ih => exact ih (by simp_all)
  | case3 before c rest stop hstop hzero ih =>
    rw [List.mem_cons, not_or]
    exact ⟨by simp_all, ih (by simp_all)⟩
  | case4 before c rest stop hstop hzero ih =>
    rw [List.mem_append, not_or]
    exact ⟨hnew _ _ _ hstop ht, ih (by simp_all)⟩
  | case5 before c rest hnone ih =>
    rw [List.mem_cons, not_or]
    exact ⟨by simp_all, ih (by simp_all)⟩

/-- **Replacing matches** brings in characters of the new texts only. -/
theorem not_mem_replaceWith
    (hnew : ∀ before t found, p.matchAfter before t = some found → x ∉ t → x ∉ new found)
    (ht : x ∉ t) : x ∉ p.replaceWith new t :=
  not_mem_replaceFrom hnew ht

end Pattern
end DumpBridge.Text

namespace DumpBridge.Literal

open Text (Pattern)

variable {q : Quoting} {x : Char} {t : Text}

/-- Changing the code of a text brings nothing in that the change does not. -/
theorem not_mem_mapCode {f : Text → Text} (hf : ∀ s, x ∉ s → x ∉ f s) (ht : x ∉ t) :
    x ∉ mapCode q f t := by
  rw [← flatMap_text_segments q t] at ht
  intro hmem
  obtain ⟨segment, hsegment, hx⟩ := List.mem_flatMap.mp hmem
  have hkept : x ∉ segment.text := fun h => ht (List.mem_flatMap.mpr ⟨segment, hsegment, h⟩)
  cases segment with
  | code s => exact hf s hkept hx
  | literal s => exact hkept hx

theorem flatMap_text_pushPlain (c : Char) (ps : List Piece) :
    (pushPlain c ps).flatMap Piece.text = c :: ps.flatMap Piece.text := by
  rcases ps with _ | ⟨s | ⟨head, inside⟩, ps⟩ <;> rfl

/-- Cutting a line into pieces brings in no character but parentheses. -/
theorem mem_of_mem_piecesFrom {opener : Pattern} {before : Option Char} {skip : Nat}
    (hparen : x ≠ ')') (hx : x ∈ (piecesFrom q opener before skip t).flatMap Piece.text) :
    x ∈ t := by
  fun_induction piecesFrom q opener before skip t with
  | case1 => simp at hx
  | case2 before skip c rest ih => exact List.mem_cons_of_mem c (ih hx)
  | case3 before c rest hnone ih =>
    rw [flatMap_text_pushPlain, List.mem_cons] at hx
    rcases hx with rfl | hx
    · exact List.mem_cons_self
    · exact List.mem_cons_of_mem c (ih hx)
  | case4 before c rest found hfound hclosing => simpa [Piece.text] using hx
  | case5 before c rest found hfound n hclosing ih =>
    rw [List.flatMap_cons, List.mem_append, Piece.text, List.mem_append, List.mem_append] at hx
    rcases hx with ((hx | hx) | hx) | hx
    · exact List.mem_of_mem_take hx
    · exact List.mem_of_mem_drop (List.mem_of_mem_take hx)
    · exact absurd (List.mem_singleton.mp hx) hparen
    · exact List.mem_cons_of_mem c (ih hx)

theorem not_mem_piece {opener : Pattern} {piece : Piece} (hparen : x ≠ ')')
    (hpiece : piece ∈ pieces q opener t) (ht : x ∉ t) : x ∉ piece.text :=
  fun hx => ht (mem_of_mem_piecesFrom hparen (List.mem_flatMap.mpr ⟨piece, hpiece, hx⟩))

/-- The characters of the items of a list are characters of the list. -/
theorem not_mem_item {item : Text} (hitem : item ∈ items q t) (ht : x ∉ t) : x ∉ item := by
  have hbefore : ∀ (l : Lexeme) (rest : List Text), x ∉ l.text → (∀ item ∈ rest, x ∉ item) →
      ∀ item ∈ l.beforeItems rest, x ∉ item := by
    intro l rest hl hrest
    fun_cases Lexeme.beforeItems l rest <;> simp_all
  have hfold : ∀ ls : List Lexeme, x ∉ ls.flatMap Lexeme.text →
      ∀ item ∈ ls.foldr Lexeme.beforeItems [[]], x ∉ item := by
    intro ls
    induction ls with
    | nil => simp
    | cons l ls ih =>
      intro hls
      rw [List.flatMap_cons, List.mem_append, not_or] at hls
      exact hbefore l _ hls.1 (ih hls.2)
  unfold items at hitem
  split at hitem
  · simp at hitem
  · exact hfold _ (by rwa [flatMap_text_lexemes]) item hitem

theorem not_mem_decode (ht : x ∉ t) : x ∉ decode q t := by
  fun_induction decode q t <;> simp_all

/-- A list is read if every member is. -/
theorem mapM_eq_some_iff {α β : Type} {f : α → Option β} {l : List α} {r : List β} :
    l.mapM f = some r ↔ l.map f = r.map some := by
  induction l generalizing r with
  | nil => cases r <;> simp
  | cons a l ih =>
    rw [List.mapM_cons]
    cases r with
    | nil => cases f a <;> cases l.mapM f <;> simp
    | cons b r =>
      rw [List.map_cons, List.map_cons, List.cons.injEq, ← ih]
      cases f a <;> cases l.mapM f <;> simp

/-- The values of a list have the characters of the list. -/
theorem not_mem_value {values : List Text} (hvalues : valueList? q t = some values) (ht : x ∉ t) :
    ∀ value ∈ values, x ∉ value := by
  have hitem : ∀ item ∈ items q t, ∀ value, itemValue? q item = some value → x ∉ value := by
    intro item hitem value hvalue
    have htrim := Text.not_mem_trim (not_mem_item hitem ht)
    simp only [itemValue?, Option.ite_none_right_eq_some, Option.some.injEq] at hvalue
    obtain ⟨-, rfl⟩ := hvalue
    exact not_mem_decode fun h => htrim (List.mem_of_mem_tail (List.dropLast_subset _ h))
  unfold valueList? at hvalues
  split at hvalues
  · simp at hvalues
  · intro value hvalue
    rw [mapM_eq_some_iff] at hvalues
    have hmem : some value ∈ (items q t).map (itemValue? q) := by
      rw [hvalues]
      exact List.mem_map_of_mem hvalue
    obtain ⟨item, hmem, hvalue⟩ := List.mem_map.mp hmem
    exact hitem item hmem value hvalue

/-- Quoting a value brings quote marks in only. -/
theorem not_mem_quote {value : Text} (hmark : x ≠ '\'') (ht : x ∉ value) : x ∉ quote value := by
  have hreplace : x ∉ Text.replace ['\''] ['\'', '\''] value :=
    Text.not_mem_replace (by simpa using hmark) ht
  simp [quote, hmark, hreplace]

end DumpBridge.Literal
