import DumpBridge.Text.Lower
import DumpBridge.Proofs.Text.Reach

/-!
# Names in any case

The lower case of a text does not depend on the case of its letters `A` to `Z`
(`lower_congr`): none of the tables that it looks into tells such a letter from its
lower case (`apply_toLower`).

A name of word characters has no blanks and no marks in lower case either
(`isListable_of_mem_lower`), so it can be written in a list of names.
-/

namespace DumpBridge.Text

/-! ## The letters `A` to `Z` -/

/-- What is the same for each letter `A` to `Z` and its lower case does not see the case. -/
theorem apply_toLower {α : Type} (f : Char → α)
    (hf : ∀ n ∈ List.range' 65 26, f (Char.ofNat (n + 32)) = f (Char.ofNat n)) (c : Char) :
    f c.toLower = f c := by
  have hlower := toNat_toLower c
  by_cases hupper : 65 ≤ c.toNat ∧ c.toNat ≤ 90
  · rw [if_pos hupper] at hlower
    have hletter := hf c.toNat (List.mem_range'_1.mpr (by omega))
    rwa [← hlower, Char.ofNat_toNat, Char.ofNat_toNat] at hletter
  · rw [if_neg hupper, Char.toNat_inj] at hlower
    rw [hlower]

/-- Whether a letter has cases does not depend on its case in ASCII. -/
theorem isCased_toLower (c : Char) : isCased c.toLower = isCased c :=
  apply_toLower isCased (by decide) c

/-- Neither does whether it is passed over. -/
theorem isCaseIgnorable_toLower (c : Char) : isCaseIgnorable c.toLower = isCaseIgnorable c :=
  apply_toLower isCaseIgnorable (by decide) c

/-- Its lower case is the same. -/
theorem lowerChar_toLower (c : Char) : lowerChar c.toLower = lowerChar c :=
  apply_toLower lowerChar (by decide) c

/-- So it does not matter which case is met first. -/
theorem meetsCased_map_toLower (t : Text) : meetsCased (t.map Char.toLower) = meetsCased t := by
  have hskip : isCaseIgnorable ∘ Char.toLower = isCaseIgnorable := funext isCaseIgnorable_toLower
  rw [meetsCased, meetsCased, List.dropWhile_map, hskip]
  cases t.dropWhile isCaseIgnorable with
  | nil => rfl
  | cons c _ => exact isCased_toLower c

/-- **Lower case in ASCII first changes nothing** of the lower case of a text. -/
theorem lowerFrom_map_toLower (before t : Text) :
    lowerFrom (before.map Char.toLower) (t.map Char.toLower) = lowerFrom before t := by
  induction t generalizing before with
  | nil => rfl
  | cons c t ih =>
    have hsigma : (c.toLower = 'Σ') = (c = 'Σ') :=
      apply_toLower (· = 'Σ') (by decide) c
    have hdotted : (c.toLower = 'İ') = (c = 'İ') :=
      apply_toLower (· = 'İ') (by decide) c
    have hrest := ih (c :: before)
    rw [List.map_cons] at hrest
    simp only [List.map_cons, lowerFrom, hsigma, hdotted, meetsCased_map_toLower,
      lowerChar_toLower, hrest]

/-- **Lower case does not see the case of `A` to `Z`.** -/
theorem lower_congr {s t : Text} (h : sameAsciiLetters s t) : lower s = lower t := by
  have hmap : s.map Char.toLower = t.map Char.toLower := by simpa [sameAsciiLetters] using h
  rw [lower, lower, ← lowerFrom_map_toLower, hmap, lowerFrom_map_toLower]

/-! ## Names that can be listed -/

/-- The marks that a list of names is made of, or that are taken off its names. -/
def listMarks : List Char :=
  [',', ')', '"', '\x60']

/-- Whether a character of a name stays as it is when the name is read off a list. -/
def isListable (c : Char) : Bool :=
  !isBlank c && !listMarks.contains c

/-- What cannot stand in a list is a blank or a mark. -/
theorem mem_of_not_isListable {c : Char} (h : isListable c = false) :
    c ∈ blankChars ++ listMarks := by
  rw [isListable, Bool.and_eq_false_iff, Bool.not_eq_false', Bool.not_eq_false'] at h
  rw [List.mem_append]
  rcases h with h | h
  · exact Or.inl (mem_blankChars h)
  · exact Or.inr (by simpa using h)

theorem isListable_toLower (c : Char) : isListable c.toLower = isListable c :=
  apply_toLower isListable (by decide) c

/-- A number is that of its character, or the character is the first one. -/
theorem toNat_ofNat (n : Nat) : (Char.ofNat n).toNat = n ∨ (Char.ofNat n).toNat = 0 := by
  by_cases h : n.isValidChar
  · have hvalid : Char.ofNat n = Char.ofNatAux n h := dif_pos h
    exact Or.inl (congrArg Char.toNat hvalid)
  · have hother : Char.ofNat n = Char.ofNat 0 := dif_neg h
    exact Or.inr (congrArg Char.toNat hother)

/-- No run of upper-case letters has its lower case at a blank or a mark. -/
theorem lowerRuns_listable : ∀ run ∈ lowerRuns, ∀ c ∈ blankChars ++ listMarks,
    ¬ ((run.first : Int) + run.shift ≤ c.toNat ∧ (c.toNat : Int) ≤ run.last + run.shift) := by
  decide +kernel

/-- The lower case of what can stand in a list can stand there. -/
theorem isListable_lowerChar {c : Char} (hc : isListable c) :
    isListable (lowerChar c) := by
  unfold lowerChar
  split
  · rwa [isListable_toLower]
  · split
    · next run hrun =>
      have hrange := List.find?_some hrun
      simp only [Bool.and_eq_true, decide_eq_true_eq] at hrange
      by_contra hnot
      have hmem := mem_of_not_isListable (Bool.not_eq_true _ ▸ hnot)
      have hpositive : ∀ c ∈ blankChars ++ listMarks, 0 < c.toNat := by decide
      have hpos := hpositive _ hmem
      refine lowerRuns_listable run (List.mem_of_find?_eq_some hrun) _ hmem ?_
      rcases toNat_ofNat (c.toNat + run.shift).toNat with hcode | hcode
      · rw [hcode] at hpos ⊢
        omega
      · omega
    · exact hc

/-- So can the lower case of a text. -/
theorem isListable_of_mem_lower {t : Text} (ht : ∀ c ∈ t, isListable c) :
    ∀ c ∈ lower t, isListable c := by
  have hfrom : ∀ before, ∀ c ∈ lowerFrom before t, isListable c := by
    induction t with
    | nil => simp [lowerFrom]
    | cons d t ih =>
      obtain ⟨hd, ht⟩ := List.forall_mem_cons.mp ht
      intro before
      rw [lowerFrom]
      refine List.forall_mem_append.mpr ⟨?_, ih ht _⟩
      split
      · split <;> decide
      · split
        · decide
        · simpa using isListable_lowerChar hd
  exact hfrom []

/-- A name that differs from a listable one in the case of `A` to `Z` only is listable. -/
theorem isListable_of_sameAsciiLetters {s t : Text} (h : sameAsciiLetters s t)
    (ht : ∀ c ∈ t, isListable c) : ∀ c ∈ s, isListable c := by
  have hmap : s.map Char.toLower = t.map Char.toLower := by simpa [sameAsciiLetters] using h
  intro c hc
  have hmem : c.toLower ∈ t.map Char.toLower := hmap ▸ List.mem_map_of_mem hc
  obtain ⟨d, hd, hsame⟩ := List.mem_map.mp hmem
  rw [← isListable_toLower, ← hsame, isListable_toLower]
  exact ht d hd

end DumpBridge.Text
