import DumpBridge.Proofs.Text.Span

/-!
# Replacing pieces of a text

`Text.replace` walks over a text and counts down the characters of an
occurrence that it has replaced already.  The lemmas here give its steps
without the count: an occurrence at the front gives way to the new text
(`replace_append`), and a character at which no occurrence starts is kept
(`replace_cons`).  `replace_induction` goes over a text in these steps.
-/

namespace DumpBridge.Text

/-- Characters that belong to a replaced occurrence are passed over. -/
theorem replaceFrom_skip (old new : Text) (skip : Nat) (t : Text) :
    replaceFrom old new skip t = replace old new (t.drop skip) := by
  induction t generalizing skip with
  | nil => cases skip <;> rfl
  | cons c t ih =>
    cases skip with
    | zero => rfl
    | succ n => simpa [replaceFrom] using ih n

@[simp] theorem replace_nil (old new : Text) : replace old new [] = [] := rfl

/-- An occurrence at the front gives way to the new text. -/
theorem replace_append {old : Text} (hold : old ≠ []) (new t : Text) :
    replace old new (old ++ t) = new ++ replace old new t := by
  cases old with
  | nil => exact absurd rfl hold
  | cons c old =>
    have hpre : (c :: old).isPrefixOf (c :: (old ++ t)) := by
      rw [List.isPrefixOf_iff_prefix]
      exact List.prefix_append (c :: old) t
    rw [replace, List.cons_append, replaceFrom, if_pos hpre, replaceFrom_skip]
    simp

/-- A character at which no occurrence starts is kept. -/
theorem replace_cons {old : Text} {c : Char} {t : Text} (hnot : ¬ old <+: c :: t) (new : Text) :
    replace old new (c :: t) = c :: replace old new t := by
  have hpre : ¬ old.isPrefixOf (c :: t) := by
    rwa [List.isPrefixOf_iff_prefix]
  rw [replace, replaceFrom, if_neg hpre, replace]

/-- An occurrence starts with the first character of what is replaced. -/
theorem replace_cons_of_ne {old : Text} {c d : Char} (hcd : c ≠ d) (new t : Text) :
    replace (d :: old) new (c :: t) = c :: replace (d :: old) new t := by
  refine replace_cons ?_ new
  rw [List.cons_prefix_cons]
  exact fun h => hcd h.1.symm

/-- A stretch without the first character of what is replaced is kept. -/
theorem replace_append_of_not_mem {old x : Text} {d : Char} (hd : d ∉ x) (new t : Text) :
    replace (d :: old) new (x ++ t) = x ++ replace (d :: old) new t := by
  induction x with
  | nil => rfl
  | cons c x ih =>
    have hcd : c ≠ d := fun h => hd (h ▸ List.mem_cons_self)
    rw [List.cons_append, replace_cons_of_ne hcd, ih (fun h => hd (List.mem_cons_of_mem c h)),
      List.cons_append]

/-- A pair of characters gives way to the new text. -/
theorem replace_pair (a b : Char) (new t : Text) :
    replace [a, b] new (a :: b :: t) = new ++ replace [a, b] new t :=
  replace_append (by simp) new t

/-- A character before one that does not complete the pair is kept. -/
theorem replace_pair_of_ne {a b c d : Char} (hd : d ≠ b) (new t : Text) :
    replace [a, b] new (c :: d :: t) = c :: replace [a, b] new (d :: t) := by
  refine replace_cons ?_ new
  simp only [List.cons_prefix_cons]
  exact fun h => hd h.2.1.symm

/-- Induction along the steps of replacing. -/
theorem replace_induction {old : Text} (hold : old ≠ []) {motive : Text → Prop} (nil : motive [])
    (occurrence : ∀ t, motive t → motive (old ++ t))
    (kept : ∀ c t, ¬ old <+: c :: t → motive t → motive (c :: t)) (t : Text) : motive t := by
  induction hlength : t.length using Nat.strongRecOn generalizing t with
  | ind n ih =>
    cases t with
    | nil => exact nil
    | cons c t =>
      by_cases hprefix : old <+: c :: t
      · obtain ⟨r, hr⟩ := hprefix
        have hlong := congrArg List.length hr
        have hpos := List.length_pos_iff.mpr hold
        simp only [List.length_append, List.length_cons] at hlong hlength
        rw [← hr]
        exact occurrence r (ih r.length (by omega) r rfl)
      · exact kept c t hprefix (ih t.length (by simp [← hlength]) t rfl)

/-- Replacing begins anew at a character that what is replaced does not have. -/
theorem replace_append_cons {old : Text} {c : Char} (hold : old ≠ []) (hc : c ∉ old)
    (new x t : Text) :
    replace old new (x ++ c :: t) = replace old new x ++ c :: replace old new t := by
  have hfront : ∀ s : Text, old <+: s ++ c :: t → old <+: s := by
    intro s hprefix
    obtain ⟨r, hr⟩ := hprefix
    obtain ⟨s', rfl, -⟩ := exists_append_of_not_mem hc hr.symm
    exact List.prefix_append old s'
  induction x using replace_induction hold with
  | nil =>
    refine replace_cons (fun hprefix => hold ?_) new
    exact List.prefix_nil.mp (hfront [] hprefix)
  | occurrence x ih =>
    rw [List.append_assoc, replace_append hold, replace_append hold, ih, List.append_assoc]
  | kept d x hnot ih =>
    have hnot' : ¬ old <+: d :: (x ++ c :: t) := fun h => hnot (hfront (d :: x) h)
    rw [List.cons_append, replace_cons hnot', replace_cons hnot, ih, List.cons_append]

/-- Where the old text is not, nothing is replaced. -/
theorem replace_of_not_infix {old t : Text} (h : ¬ old <:+: t) (new : Text) :
    replace old new t = t := by
  induction t with
  | nil => rfl
  | cons c t ih =>
    have hnot : ¬ old <+: c :: t := fun hprefix => h hprefix.isInfix
    rw [replace_cons hnot, ih fun hinside => h (hinside.trans (List.suffix_cons c t).isInfix)]

/-- A step by step count is the same after replacing, if the new text counts as the old. -/
theorem foldl_replace {σ : Type} {step : σ → Char → σ} {old new : Text} (hold : old ≠ [])
    (h : ∀ s, new.foldl step s = old.foldl step s) (t : Text) (s : σ) :
    (replace old new t).foldl step s = t.foldl step s := by
  induction t using replace_induction hold generalizing s with
  | nil => rfl
  | occurrence t ih => rw [replace_append hold, List.foldl_append, List.foldl_append, h, ih]
  | kept c t hnot ih => rw [replace_cons hnot, List.foldl_cons, List.foldl_cons, ih]

/-- A text that ends otherwise than what is replaced keeps its end. -/
theorem getLast?_replace {old t : Text} (hold : old ≠ []) (new : Text)
    (h : t.getLast? ≠ old.getLast?) : (replace old new t).getLast? = t.getLast? := by
  induction t using replace_induction hold with
  | nil => rfl
  | occurrence t ih =>
    have hne : t ≠ [] := by
      rintro rfl
      simp at h
    obtain ⟨b, hb⟩ : ∃ b, t.getLast? = some b := ⟨_, List.getLast?_eq_some_getLast hne⟩
    rw [List.getLast?_append, hb] at h
    rw [replace_append hold, List.getLast?_append, List.getLast?_append,
      ih (by rw [hb]; exact h), hb]
    rfl
  | kept c t hnot ih =>
    rw [replace_cons hnot, List.getLast?_cons, List.getLast?_cons]
    cases t with
    | nil => rfl
    | cons d t => rw [ih (by rwa [List.getLast?_cons_cons] at h)]

end DumpBridge.Text
