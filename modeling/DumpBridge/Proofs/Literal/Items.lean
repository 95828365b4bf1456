import DumpBridge.Literal.Items
import DumpBridge.Proofs.Literal.Nesting

/-!
# Items and the commas between them

The items of a text are what stands between its commas outside literals.  A list
of texts can be items if none of them has such a comma of its own and none but
the last leaves a literal open (`AreItems`).  `items_eq_iff` says that `items`
and joining with commas are inverse to each other on such lists.

Lexemes carry the proof: to join lexed lists at a comma and to cut a lexed list
there is the same condition on the parts (`lexed_intercalate_iff`), so each item
is read alone as it is read in the list.
-/

namespace DumpBridge.Literal

/-- A list of texts that a text can be cut into at its commas outside literals.
A list of nothing but one empty text is left out: an empty text has no items. -/
structure AreItems (q : Quoting) (ts : List Text) : Prop where
  ne_nil : ts ≠ []
  ne_empty : ts ≠ [[]]
  no_comma : ∀ t ∈ ts, .code ',' ∉ lexemes q t
  outside : ∀ t ∈ ts.dropLast, markAfter none (lexemes q t) = none

variable {q : Quoting} {p ls : List Lexeme} {parts : List (List Lexeme)} {t : Text} {ts : List Text}

/-! ## Cutting lexemes at commas -/

/-- Putting a lexeme before items lengthens the first one, unless it is a comma. -/
theorem beforeItems_of_ne {l : Lexeme} (hl : l ≠ .code ',') (item : Text) (items : List Text) :
    l.beforeItems (item :: items) = (l.text ++ item) :: items := by
  unfold Lexeme.beforeItems
  split <;> simp_all

/-- Lexemes without a comma lengthen the first item. -/
theorem foldr_beforeItems_of_not_mem (h : .code ',' ∉ ls) (item : Text) (items : List Text) :
    ls.foldr Lexeme.beforeItems (item :: items) = (ls.flatMap Lexeme.text ++ item) :: items := by
  induction ls with
  | nil => rfl
  | cons l ls ih =>
    rw [List.mem_cons, not_or] at h
    rw [List.foldr_cons, ih h.2, beforeItems_of_ne (Ne.symm h.1), List.flatMap_cons,
      List.append_assoc]

/-- **The items are what stands between the commas of code.** -/
theorem foldr_beforeItems (ls : List Lexeme) :
    ls.foldr Lexeme.beforeItems [[]] = (ls.splitOn (.code ',')).map (List.flatMap Lexeme.text) := by
  induction ls with
  | nil => simp
  | cons l ls ih =>
    rw [List.foldr_cons, ih, List.splitOn_cons_eq_if_modifyHead]
    by_cases hl : l = .code ','
    · simp [hl, Lexeme.beforeItems]
    · obtain ⟨first, others, hsplit⟩ :=
        List.exists_cons_of_ne_nil (List.splitOn_ne_nil (.code ',') ls)
      simp [hl, hsplit, beforeItems_of_ne hl]

/-- Lexemes joined at commas have the texts of the parts joined with commas. -/
theorem flatMap_text_intercalate (parts : List (List Lexeme)) :
    ([.code ','].intercalate parts).flatMap Lexeme.text =
      Text.join [','] (parts.map (List.flatMap Lexeme.text)) := by
  induction parts with
  | nil => rfl
  | cons p parts ih =>
    cases parts with
    | nil => simp [Text.join]
    | cons p' parts =>
      rw [List.intercalate_cons_cons, List.flatMap_append, ih]
      simp [Text.join, Lexeme.text]

/-- **Lexed lists and commas.**  Lists joined at commas are lexed just if each of
them is, and each but the last ends outside literals. -/
theorem lexed_intercalate_iff : Lexed q none ([.code ','].intercalate parts) ↔
    (∀ p ∈ parts, Lexed q none p) ∧ ∀ p ∈ parts.dropLast, markAfter none p = none := by
  induction parts with
  | nil => simp [Lexed.nil]
  | cons p parts ih =>
    cases parts with
    | nil => simp
    | cons p' parts =>
      rw [List.intercalate_cons_cons, List.append_assoc, List.singleton_append,
        lexed_append_code_iff (by decide), ih, List.dropLast_cons_cons,
        List.forall_mem_cons (a := p), List.forall_mem_cons (a := p)]
      constructor
      · rintro ⟨hp, hmark, hparts, hmarks⟩
        exact ⟨⟨hp, hparts⟩, hmark, hmarks⟩
      · rintro ⟨⟨hp, hparts⟩, hmark, hmarks⟩
        exact ⟨hp, hmark, hparts, hmarks⟩

/-- No part has a comma at which the list is cut. -/
theorem comma_not_mem_of_mem_splitOn (hp : p ∈ ls.splitOn (.code ',')) : .code ',' ∉ p := by
  induction ls generalizing p with
  | nil => simp_all
  | cons l ls ih =>
    obtain ⟨first, others, hsplit⟩ :=
      List.exists_cons_of_ne_nil (List.splitOn_ne_nil (.code ',') ls)
    rw [List.splitOn_cons_eq_if_modifyHead, hsplit] at hp
    rw [hsplit] at ih
    by_cases hl : l = .code ','
    · rw [if_pos (by simpa using hl), List.mem_cons] at hp
      rcases hp with rfl | hp
      · simp
      · exact ih hp
    · rw [if_neg (by simpa using hl), List.modifyHead_cons, List.mem_cons] at hp
      rcases hp with rfl | hp
      · have hfirst := ih List.mem_cons_self
        simpa [Ne.symm hl] using hfirst
      · exact ih (List.mem_cons_of_mem first hp)

/-! ## Items and their text -/

/-- The items of a text that is not empty. -/
theorem items_eq_map (ht : t ≠ []) :
    items q t = ((lexemes q t).splitOn (.code ',')).map (List.flatMap Lexeme.text) := by
  rw [items, if_neg (by simpa using ht), foldr_beforeItems]

theorem join_items (ht : t ≠ []) : Text.join [','] (items q t) = t := by
  rw [items_eq_map ht, ← flatMap_text_intercalate, List.intercalate_splitOn, flatMap_text_lexemes]

/-- Each item is read alone as it is read in the text. -/
theorem areItems_items (ht : t ≠ []) : AreItems q (items q t) := by
  have hjoin := join_items (q := q) ht
  have hlexed : Lexed q none ([.code ','].intercalate ((lexemes q t).splitOn (.code ','))) := by
    rw [List.intercalate_splitOn]
    exact lexed_lexemes q t
  obtain ⟨hparts, hmarks⟩ := lexed_intercalate_iff.mp hlexed
  have halone : ∀ p ∈ (lexemes q t).splitOn (.code ','), lexemes q (p.flatMap Lexeme.text) = p :=
    fun p hp => lexemes_eq_iff.mpr ⟨hparts p hp, rfl⟩
  refine ⟨?_, ?_, ?_, ?_⟩
  · rw [items_eq_map ht]
    simp
  · intro hempty
    rw [hempty] at hjoin
    exact ht hjoin.symm
  · rw [items_eq_map ht, List.forall_mem_map]
    intro p hp
    rw [halone p hp]
    exact comma_not_mem_of_mem_splitOn hp
  · rw [items_eq_map ht, ← List.map_dropLast, List.forall_mem_map]
    intro p hp
    rw [halone p (List.dropLast_subset _ hp)]
    exact hmarks p hp

theorem map_text_lexemes (ts : List Text) :
    (ts.map (lexemes q)).map (List.flatMap Lexeme.text) = ts := by
  rw [List.map_map]
  exact List.map_id'' (flatMap_text_lexemes q) ts

namespace AreItems

theorem join_ne_nil (h : AreItems q ts) : Text.join [','] ts ≠ [] := by
  obtain ⟨t, ts, rfl⟩ := List.exists_cons_of_ne_nil h.ne_nil
  cases ts with
  | nil => simpa [Text.join] using h.ne_empty
  | cons t' ts => simp [Text.join]

/-- The lexemes of texts that can be items, joined with commas, are theirs. -/
theorem lexemes_join (h : AreItems q ts) :
    lexemes q (Text.join [','] ts) = [.code ','].intercalate (ts.map (lexemes q)) := by
  rw [lexemes_eq_iff, lexed_intercalate_iff, flatMap_text_intercalate, map_text_lexemes,
    ← List.map_dropLast, List.forall_mem_map, List.forall_mem_map]
  exact ⟨⟨fun t _ => lexed_lexemes q t, h.outside⟩, rfl⟩

/-- Texts that can be items are the items of what they give when joined. -/
theorem items_join (h : AreItems q ts) : items q (Text.join [','] ts) = ts := by
  rw [items_eq_map h.join_ne_nil, h.lexemes_join, List.splitOn_intercalate]
  · exact map_text_lexemes ts
  · rw [List.forall_mem_map]
    exact h.no_comma
  · simpa using h.ne_nil

end AreItems

/-- **Cutting and joining are inverse.**  An empty text has no items.  Any other is cut
into the one list of texts that can be items and give it back when joined. -/
theorem items_eq_iff (q : Quoting) (t : Text) (ts : List Text) :
    items q t = ts ↔ t = [] ∧ ts = [] ∨ AreItems q ts ∧ Text.join [','] ts = t := by
  constructor
  · rintro rfl
    by_cases ht : t = []
    · exact .inl ⟨ht, by rw [ht]; rfl⟩
    · exact .inr ⟨areItems_items ht, join_items ht⟩
  · rintro (⟨rfl, rfl⟩ | ⟨h, rfl⟩)
    · rfl
    · exact h.items_join

end DumpBridge.Literal
