import DumpBridge.Literal.Segment
import DumpBridge.Proofs.Literal.Nesting
import DumpBridge.Proofs.Text.Span

/-!
# The first run of code

A text that begins outside literals begins with a run of code up to the first
quote mark.  A map over the code of the text maps that run as a whole
(`exists_mapCode_append`); a filter may be cut anywhere in it
(`mapCode_filter_append`).
-/

namespace DumpBridge.Literal

open Text (isBlank isWord)

variable {q : Quoting} {x t : Text}

/-- Blanks and characters of words are no quote marks. -/
theorem isQuote_eq_false {d : Char} (hd : isBlank d ∨ isWord d) :
    isQuote d = false :=
  isQuote_eq_false_of_class (fun d => isBlank d = true ∨ isWord d = true) (by decide) (by decide) hd

theorem isQuote_of_blank (hx : ∀ c ∈ x, isBlank c) : ∀ c ∈ x, isQuote c = false :=
  fun c hc => isQuote_eq_false (Or.inl (hx c hc))

/-- Code up to a quote mark or the end of the text is one segment. -/
theorem segments_append (hne : x ≠ []) (hx : ∀ c ∈ x, isQuote c = false)
    (ht : t.head?.all isQuote) : segments q (x ++ t) = .code x :: segments q t := by
  have hcode : ∀ c u, isQuote c = false →
      segments q (c :: u) = (Lexeme.code c).before (segments q u) := by
    intro c u hc
    rw [segments, lexemes_code hc, List.foldr_cons]
    rfl
  -- What follows begins with a literal, if with anything, so it takes no code in front.
  have hfirst : ∀ c, (Lexeme.code c).before (segments q t) = .code [c] :: segments q t := by
    intro c
    cases t with
    | nil => rfl
    | cons m t =>
      have hm : isQuote m := by simpa using ht
      rw [segments, lexemes, lexemesFrom, if_pos hm, List.foldr_cons]
      rcases (lexemesFrom q (some m) t).foldr Lexeme.before [] with _ | ⟨s | s, rest⟩ <;> rfl
  induction x with
  | nil => exact absurd rfl hne
  | cons c x ih =>
    obtain ⟨hc, hx⟩ := List.forall_mem_cons.mp hx
    rw [List.cons_append, hcode c _ hc]
    cases x with
    | nil => exact hfirst c
    | cons d x => rw [ih (by simp) hx]; rfl

theorem mapCode_append (f : Text → Text) (hne : x ≠ []) (hx : ∀ c ∈ x, isQuote c = false)
    (ht : t.head?.all isQuote) : mapCode q f (x ++ t) = f x ++ mapCode q f t := by
  rw [mapCode, segments_append hne hx ht, List.flatMap_cons]
  rfl

/-- What stands before the first quote mark is code. -/
theorem isQuote_of_mem_takeWhile {c : Char} (hc : c ∈ t.takeWhile (!isQuote ·)) :
    isQuote c = false := by
  simpa using List.mem_takeWhile_imp hc

/-- Behind it a text ends or goes on with a quote mark. -/
theorem head?_dropWhile_isQuote (t : Text) :
    (t.dropWhile (!isQuote ·)).head?.all isQuote := by
  have hhead := Text.head?_dropWhile_any (!isQuote ·) t
  cases h : t.dropWhile (!isQuote ·) with
  | nil => rfl
  | cons c r => simpa [h] using hhead

/-- **The first run of code** begins with what stands before any quote mark. -/
theorem exists_mapCode_append (f : Text → Text) (hne : x ≠ []) (hx : ∀ c ∈ x, isQuote c = false)
    (t : Text) : ∃ y r, t = y ++ r ∧ (∀ c ∈ y, isQuote c = false) ∧
      r.head?.all isQuote ∧ mapCode q f (x ++ t) = f (x ++ y) ++ mapCode q f r := by
  have hcode : ∀ c ∈ t.takeWhile (!isQuote ·), isQuote c = false :=
    fun _ => isQuote_of_mem_takeWhile
  have hrest := head?_dropWhile_isQuote t
  refine ⟨_, _, List.takeWhile_append_dropWhile.symm, hcode, hrest, ?_⟩
  rw [← mapCode_append f (by simp [hne]) (by simpa [or_imp, forall_and] using ⟨hx, hcode⟩) hrest,
    List.append_assoc, List.takeWhile_append_dropWhile]

/-- A filter of code can be cut anywhere. -/
theorem mapCode_filter_append (p : Char → Bool) (hx : ∀ c ∈ x, isQuote c = false) (t : Text) :
    mapCode q (·.filter p) (x ++ t) = x.filter p ++ mapCode q (·.filter p) t := by
  cases x with
  | nil => rfl
  | cons d x =>
    obtain ⟨y, r, rfl, hy, hr, hmap⟩ :=
      exists_mapCode_append (q := q) (·.filter p) (by simp) hx t
    rw [hmap, List.filter_append, List.append_assoc]
    cases y with
    | nil => rfl
    | cons e y => rw [mapCode_append (·.filter p) (by simp) hy hr]

end DumpBridge.Literal
