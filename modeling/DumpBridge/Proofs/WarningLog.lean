import DumpBridge.Warning
import Mathlib.Data.Finset.Card
import Mathlib.Data.List.Induction

/-!
# The warnings that a log keeps

A log counts every warning and keeps the first ones, each once, up to its limit.  One
more warning comes last, if there is room and it is new (`take_eraseDups_concat`), so a
whole run keeps a beginning of the list without repetitions (`stored_addAll`).

In that list a warning stands behind as many others as there are different ones before
its first occurrence (`getElem?_eraseDups_eq_some_iff`).  `addAll_keeps_first` says with
this which warnings a log keeps and where.
-/

namespace DumpBridge.WarningLog

/-! ## Lists without repetitions -/

section Lists

variable {α : Type} [DecidableEq α] {l : List α} {a : α} {k : Nat}

theorem eraseDups_concat (l : List α) (a : α) :
    (l ++ [a]).eraseDups = l.eraseDups ++ if a ∈ l then [] else [a] := by
  rw [List.eraseDups_append]
  split <;> simp_all [List.removeAll, List.eraseDups_cons]

/-- A full list stays as it is, and another one gets what it has not. -/
theorem take_eraseDups_concat (n : Nat) (l : List α) (a : α) :
    (l ++ [a]).eraseDups.take n =
      if (l.eraseDups.take n).length < n && !(l.eraseDups.take n).contains a then
        l.eraseDups.take n ++ [a]
      else l.eraseDups.take n := by
  rw [eraseDups_concat]
  rcases Nat.lt_or_ge l.eraseDups.length n with hlt | hge
  · -- There is room, so that all members are there to compare with.
    rw [List.take_of_length_le (Nat.le_of_lt hlt)]
    by_cases ha : a ∈ l
    · simp [ha, List.take_of_length_le (Nat.le_of_lt hlt)]
    · have hfits : (l.eraseDups ++ [a]).length ≤ n := by simp; omega
      simp [ha, hlt, List.take_of_length_le hfits]
  · simp [List.take_append_of_le_length hge, Nat.min_eq_left hge]

/-- Without repetitions there are as many entries as different ones. -/
theorem length_eraseDups (l : List α) : l.eraseDups.length = l.toFinset.card := by
  induction l using List.reverseRecOn with
  | nil => rfl
  | append_singleton l a ih =>
    have hinsert : (l ++ [a]).toFinset = insert a l.toFinset := by
      ext b
      simp
    rw [eraseDups_concat, List.length_append, ih, hinsert]
    by_cases ha : a ∈ l
    · simp [ha]
    · simp [ha]

/-- **Where a member stands** without repetitions: behind as many as there are different ones
before its first occurrence. -/
theorem getElem?_eraseDups_eq_some_iff : l.eraseDups[k]? = some a ↔
    ∃ before after, l = before ++ a :: after ∧ a ∉ before ∧ before.toFinset.card = k := by
  -- The induction is on the last member, which comes behind all others or not at all.
  induction l using List.reverseRecOn with
  | nil => simp
  | append_singleton l b ih =>
    rw [eraseDups_concat]
    constructor
    · intro h
      by_cases hk : k < l.eraseDups.length
      · rw [List.getElem?_append_left hk] at h
        obtain ⟨before, after, rfl, hnew, hcard⟩ := ih.mp h
        exact ⟨before, after ++ [b], by simp, hnew, hcard⟩
      · rw [List.getElem?_append_right (Nat.le_of_not_lt hk)] at h
        by_cases hb : b ∈ l
        · simp [hb] at h
        · rw [if_neg hb, List.getElem?_singleton] at h
          split at h
          · next hzero =>
            obtain rfl := Option.some.inj h
            have hlength := length_eraseDups l
            exact ⟨l, [], rfl, hb, by omega⟩
          · cases h
    · intro h
      obtain ⟨before, after, hcut, hnew, hcard⟩ := h
      rcases List.eq_nil_or_concat after with rfl | ⟨after, d, rfl⟩
      · obtain ⟨rfl, hlast⟩ := List.append_inj' hcut rfl
        obtain rfl : b = a := by simpa using hlast
        rw [if_neg hnew, ← hcard, ← length_eraseDups]
        simp
      · rw [List.concat_eq_append, ← List.cons_append, ← List.append_assoc] at hcut
        obtain ⟨rfl, -⟩ := List.append_inj' hcut rfl
        have hfound := ih.mpr ⟨before, after, rfl, hnew, hcard⟩
        rw [List.getElem?_append_left (List.getElem?_eq_some_iff.mp hfound).1, hfound]

end Lists

/-! ## Runs -/

variable {limit : Nat}

/-- All warnings are counted. -/
theorem total_addAll (log : WarningLog) (warnings : List Warning) :
    (log.addAll warnings).total = log.total + warnings.length := by
  induction warnings generalizing log with
  | nil => rfl
  | cons warning warnings ih =>
    have hadd : (log.add warning).total = log.total + 1 := rfl
    change ((log.add warning).addAll warnings).total = _
    rw [ih, hadd, List.length_cons]
    omega

theorem limit_addAll (log : WarningLog) (warnings : List Warning) :
    (log.addAll warnings).limit = log.limit := by
  induction warnings generalizing log with
  | nil => rfl
  | cons warning warnings ih => exact ih (log.add warning)

/-- **The log keeps the first warnings**, each once. -/
theorem stored_addAll (warnings : List Warning) :
    (({ limit := limit } : WarningLog).addAll warnings).stored = warnings.eraseDups.take limit := by
  -- The induction is on the last warning, which is added to what the others leave.
  induction warnings using List.reverseRecOn with
  | nil => exact List.take_nil.symm
  | append_singleton warnings warning ih =>
    rw [take_eraseDups_concat, ← ih, addAll, List.foldl_concat]
    change (add (addAll { limit := limit } warnings) warning).stored = _
    rw [add, limit_addAll]

/-- **What a log keeps.**  Of any warnings, a fresh log with any limit keeps the first different
ones in the order of their first occurrence: at place `k` the one before whose first occurrence
there are `k` different ones, for every place below the limit.  It counts them all, and there were
warnings just if any came in, also if none could be kept. -/
theorem addAll_keeps_first (limit : Nat) (warnings : List Warning) :
    let log := ({ limit := limit } : WarningLog).addAll warnings
    log.stored = warnings.eraseDups.take limit ∧
      (∀ k warning, log.stored[k]? = some warning ↔ k < limit ∧ ∃ before after,
        warnings = before ++ warning :: after ∧ warning ∉ before ∧ before.toFinset.card = k) ∧
      log.count = min limit warnings.toFinset.card ∧
      log.total = warnings.length ∧
      (log.hasWarnings ↔ warnings ≠ []) := by
  intro log
  have hstored : log.stored = warnings.eraseDups.take limit := stored_addAll warnings
  have htotal : log.total = warnings.length := by
    rw [total_addAll]
    exact Nat.zero_add _
  refine ⟨hstored, fun k warning => ?_, ?_, htotal, ?_⟩
  · rw [hstored, ← getElem?_eraseDups_eq_some_iff, List.getElem?_take]
    by_cases hk : k < limit
    · simp [hk]
    · simp [hk]
  · rw [count, hstored, List.length_take, length_eraseDups]
  · rw [hasWarnings, htotal, decide_eq_true_iff, List.length_pos_iff]

end DumpBridge.WarningLog
