import DumpBridge.Text.Pattern

/-!
# Characters of words

Blanks, letters and word characters are given by tables of code points.  The
proofs need little of the tables: a blank is no character of a word
(`isWord_eq_false_of_isBlank`), and what a keyword's letter matches is one
(`isWord_of_sameLetter`).
-/

namespace DumpBridge.Text

open Pattern (sameLetter)

/-- The code points in ranges, one by one. -/
def pointsOf (ranges : List (Nat × Nat)) : List Nat :=
  ranges.flatMap fun range => List.range' range.1 (range.2 + 1 - range.1)

theorem mem_pointsOf {ranges : List (Nat × Nat)} {n : Nat} (hn : inRanges ranges n) :
    n ∈ pointsOf ranges := by
  obtain ⟨range, hrange, hle⟩ := List.any_eq_true.mp hn
  rw [Bool.and_eq_true, decide_eq_true_eq, decide_eq_true_eq] at hle
  exact List.mem_flatMap.mpr ⟨range, hrange, List.mem_range'_1.mpr (by omega)⟩

/-- A blank is no character of a word. -/
theorem isWord_eq_false_of_isBlank {c : Char} (hc : isBlank c) : isWord c = false := by
  rw [isBlank, Bool.or_eq_true, decide_eq_true_eq] at hc
  rcases hc with rfl | hc
  · decide
  · by_cases hlow : c.toNat < 0x80
    · have hall : ∀ n ∈ List.range' 9 5, isWord (Char.ofNat n) = false := by decide
      rw [if_pos hlow, Bool.and_eq_true, decide_eq_true_eq, decide_eq_true_eq] at hc
      rw [← Char.ofNat_toNat c]
      exact hall c.toNat (List.mem_range'_1.mpr (by omega))
    · -- There are only nineteen blanks outside ASCII, so they are tried one by one.
      have hall : ∀ n ∈ pointsOf blankRanges, inRanges wordRanges n = false := by
        decide +kernel
      rw [if_neg hlow] at hc
      rw [isWord, if_neg hlow]
      exact hall c.toNat (mem_pointsOf hc)

theorem isBlank_eq_false_of_isWord {c : Char} (hc : isWord c) : isBlank c = false := by
  cases hblank : isBlank c with
  | false => rfl
  | true => simp [isWord_eq_false_of_isBlank hblank] at hc

/-- Lower case moves the capital letters of ASCII. -/
theorem toNat_toLower (c : Char) :
    c.toLower.toNat = if 65 ≤ c.toNat ∧ c.toNat ≤ 90 then c.toNat + 32 else c.toNat := by
  unfold Char.toLower
  split
  · next h =>
    have hrange : 65 ≤ c.toNat ∧ c.toNat ≤ 90 := by
      simpa [UInt32.le_iff_toNat_le] using h
    have hsum : (c.val + ('a'.val - 'A'.val)).toNat = c.toNat + 32 := by
      rw [UInt32.toNat_add]
      have hshift : ('a'.val - 'A'.val).toNat = 32 := rfl
      have hval : c.val.toNat = c.toNat := rfl
      omega
    rw [if_pos hrange]
    exact hsum
  · next h =>
    have hrange : ¬ (65 ≤ c.toNat ∧ c.toNat ≤ 90) := by
      simpa [UInt32.le_iff_toNat_le] using h
    rw [if_neg hrange]

/-- Upper case moves the small ones back. -/
theorem toNat_toUpper (c : Char) :
    c.toUpper.toNat = if 97 ≤ c.toNat ∧ c.toNat ≤ 122 then c.toNat - 32 else c.toNat := by
  unfold Char.toUpper
  split
  · next h =>
    have hrange : 97 ≤ c.toNat ∧ c.toNat ≤ 122 := by
      simpa [UInt32.le_iff_toNat_le] using h
    have hsum : (c.val + ('A'.val - 'a'.val)).toNat = c.toNat - 32 := by
      rw [UInt32.toNat_add]
      have hshift : ('A'.val - 'a'.val).toNat = 4294967264 := rfl
      have hval : c.val.toNat = c.toNat := rfl
      omega
    rw [if_pos hrange]
    exact hsum
  · next h =>
    have hrange : ¬ (97 ≤ c.toNat ∧ c.toNat ≤ 122) := by
      simpa [UInt32.le_iff_toNat_le] using h
    rw [if_neg hrange]

/-- The capital letters are a range. -/
theorem isUpper_iff {c : Char} : c.isUpper ↔ 65 ≤ c.toNat ∧ c.toNat ≤ 90 := by
  have hrange : c.isUpper = decide (65 ≤ c.val ∧ c.val ≤ 90) := rfl
  simp [hrange, UInt32.le_iff_toNat_le]

theorem isLower_iff {c : Char} : c.isLower ↔ 97 ≤ c.toNat ∧ c.toNat ≤ 122 := by
  have hrange : c.isLower = (decide (97 ≤ c.val) && decide (c.val ≤ 122)) := rfl
  simp [hrange, UInt32.le_iff_toNat_le]

/-- Names begin with a letter of ASCII or an underscore. -/
theorem isNameStart_iff {c : Char} : isNameStart c ↔
    (65 ≤ c.toNat ∧ c.toNat ≤ 90) ∨ (97 ≤ c.toNat ∧ c.toNat ≤ 122) ∨ c.toNat = 95 := by
  have hunderscore : c = '_' ↔ c.toNat = 95 := by
    rw [← Char.toNat_inj]
    rfl
  have hletter : c.isAlpha = (c.isUpper || c.isLower) := rfl
  simp [isNameStart, hletter, isUpper_iff, isLower_iff, hunderscore, or_assoc]

/-- These are characters of words. -/
theorem isWord_of_isNameStart {c : Char} (hc : isNameStart c) : isWord c := by
  have hlow : c.toNat < 0x80 := by
    have := isNameStart_iff.mp hc
    omega
  rw [isNameStart, Bool.or_eq_true] at hc
  rw [isWord, if_pos hlow]
  rcases hc with hc | hc
  · simp [Char.isAlphanum, hc]
  · simp [hc]

/-- A letter, digit or underscore, of which keywords are made. -/
def isKeyChar (c : Char) : Bool :=
  isNameStart c || c.isDigit

/-- Keys have letters and digits of ASCII, and underscores. -/
theorem isKeyChar_iff {c : Char} : isKeyChar c ↔ (48 ≤ c.toNat ∧ c.toNat ≤ 57) ∨
    (65 ≤ c.toNat ∧ c.toNat ≤ 90) ∨ (97 ≤ c.toNat ∧ c.toNat ≤ 122) ∨ c.toNat = 95 := by
  have hdigit : c.isDigit ↔ 48 ≤ c.toNat ∧ c.toNat ≤ 57 := by
    simp [Char.isDigit, UInt32.le_iff_toNat_le]
  rw [isKeyChar, Bool.or_eq_true, isNameStart_iff, hdigit, or_comm]

/-- These are characters of words too. -/
theorem isWord_of_isKeyChar {c : Char} (hc : isKeyChar c) : isWord c := by
  have hlow : c.toNat < 0x80 := by
    have := isKeyChar_iff.mp hc
    omega
  rw [isKeyChar, Bool.or_eq_true] at hc
  rcases hc with hc | hc
  · exact isWord_of_isNameStart hc
  · rw [isWord, if_pos hlow]
    simp [Char.isAlphanum, hc]

/-- Blanks have no case. -/
theorem toUpper_eq_self_of_isBlank {c : Char} (hc : isBlank c) : c.toUpper = c := by
  rw [← Char.toNat_inj, toNat_toUpper]
  refine if_neg fun hrange => ?_
  have hletter : isNameStart c := isNameStart_iff.mpr (Or.inr (Or.inl hrange))
  have hsolid := isBlank_eq_false_of_isWord (isWord_of_isNameStart hletter)
  simp [hc] at hsolid

/-- A keyword's letter matches characters of words only. -/
theorem isWord_of_sameLetter {a c : Char} (ha : isKeyChar a)
    (hsame : sameLetter a c) : isWord c := by
  simp only [sameLetter, Bool.or_eq_true, Bool.and_eq_true, decide_eq_true_eq] at hsame
  rcases hsame with (hlower | ⟨-, rfl⟩) | ⟨-, rfl⟩
  · apply isWord_of_isKeyChar
    have hnat := congrArg Char.toNat hlower
    rw [toNat_toLower, toNat_toLower] at hnat
    rw [isKeyChar_iff] at ha ⊢
    grind
  · decide +kernel
  · decide +kernel

/-- What stands before the letters matches itself only. -/
theorem eq_of_sameLetter {a c : Char} (ha : a.toNat < 65) (hsame : sameLetter a c) :
    c = a := by
  have hlower : a.toLower.toNat = a.toNat := by rw [toNat_toLower, if_neg (by omega)]
  simp only [sameLetter, Bool.or_eq_true, Bool.and_eq_true, decide_eq_true_eq] at hsame
  rcases hsame with (hsame | ⟨hsame, -⟩) | ⟨hsame, -⟩
  · have hnat := congrArg Char.toNat hsame
    rw [hlower, toNat_toLower] at hnat
    rw [← Char.toNat_inj]
    split at hnat <;> omega
  · rw [hsame] at hlower
    have hnat : 'k'.toNat = 107 := rfl
    omega
  · rw [hsame] at hlower
    have hnat : 's'.toNat = 115 := rfl
    omega

/-- A capital letter that no letter outside ASCII folds into is the capital of
what it matches. -/
theorem toUpper_eq_of_sameLetter {a c : Char} (ha : a.isUpper) (hk : a ≠ 'K') (hs : a ≠ 'S')
    (hsame : sameLetter a c) : c.toUpper = a := by
  have hrange : 65 ≤ a.toNat ∧ a.toNat ≤ 90 := isUpper_iff.mp ha
  have hlower : a.toLower.toNat = a.toNat + 32 := by rw [toNat_toLower, if_pos hrange]
  have hfold : ∀ b : Char, b.toNat = a.toNat → a = b := fun b hb => Char.toNat_inj.mp hb.symm
  simp only [sameLetter, Bool.or_eq_true, Bool.and_eq_true, decide_eq_true_eq] at hsame
  rcases hsame with (hsame | ⟨hsame, -⟩) | ⟨hsame, -⟩
  · rw [← Char.toNat_inj, toNat_toUpper]
    have hnat := congrArg Char.toNat hsame
    rw [hlower, toNat_toLower] at hnat
    split at hnat <;> split <;> omega
  · rw [hsame] at hlower
    have hnat : 'k'.toNat = 107 := rfl
    exact absurd (hfold 'K' (by have : 'K'.toNat = 75 := rfl; omega)) hk
  · rw [hsame] at hlower
    have hnat : 's'.toNat = 115 := rfl
    exact absurd (hfold 'S' (by have : 'S'.toNat = 83 := rfl; omega)) hs

/-- A small letter that no letter outside ASCII folds into matches itself and its
capital. -/
theorem eq_or_eq_of_sameLetter {a c : Char} (ha : a.isLower) (hk : a ≠ 'k') (hs : a ≠ 's')
    (hsame : sameLetter a c) : c = a ∨ c = a.toUpper := by
  have hrange : 97 ≤ a.toNat ∧ a.toNat ≤ 122 := isLower_iff.mp ha
  have hlower : a.toLower = a := by
    rw [← Char.toNat_inj, toNat_toLower, if_neg (by omega)]
  simp only [sameLetter, hlower, hk, hs, decide_false, Bool.false_and, Bool.or_false,
    decide_eq_true_eq] at hsame
  have hnat := congrArg Char.toNat hsame
  rw [toNat_toLower] at hnat
  rw [← Char.toNat_inj, ← Char.toNat_inj, toNat_toUpper, if_pos hrange]
  split at hnat <;> omega

end DumpBridge.Text
