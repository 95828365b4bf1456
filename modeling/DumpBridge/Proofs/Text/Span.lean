import DumpBridge.Line.Kind
import Mathlib.Data.List.TakeWhile

/-!
# Stretches of one class

A text that is a stretch of one class followed by something else can be cut in
one way only (`span_inj`).  Trimming is the case of blanks: at the front up to
the first solid character, at the end after the last one.

The pieces of a text are the stretches between separators: they have none
(`not_mem_cutFrom`), and a separator ends the pieces before it (`cut_append`).
-/

namespace DumpBridge.Text

variable {p : Char → Bool} {x y rest rest' : Text}

/-- A stretch of a class is what is taken of the class. -/
theorem takeWhile_append_of_head (hx : ∀ c ∈ x, p c) (hrest : rest.head?.any p = false) :
    (x ++ rest).takeWhile p = x := by
  have hstop : rest.takeWhile p = [] := by
    cases rest with
    | nil => rfl
    | cons c rest =>
      have hc : p c = false := by simpa using hrest
      simp [hc]
  rw [List.takeWhile_append_of_pos hx, hstop, List.append_nil]

/-- What follows a stretch of a class is left when the class is dropped. -/
theorem dropWhile_append_of_head (hx : ∀ c ∈ x, p c) (hrest : rest.head?.any p = false) :
    (x ++ rest).dropWhile p = rest := by
  rw [List.dropWhile_append_of_pos hx]
  cases rest with
  | nil => rfl
  | cons c rest =>
    have hc : p c = false := by simpa using hrest
    simp [hc]

/-- What is left does not begin with the class. -/
theorem head?_dropWhile_any (p : Char → Bool) (t : Text) :
    (t.dropWhile p).head?.any p = false := by
  induction t with
  | nil => rfl
  | cons c t ih =>
    by_cases hc : p c
    · simpa [hc] using ih
    · simp [hc]

/-- **One way to cut**: a stretch of a class ends where the class does. -/
theorem span_inj (hx : ∀ c ∈ x, p c) (hy : ∀ c ∈ y, p c)
    (hrest : rest.head?.any p = false) (hrest' : rest'.head?.any p = false)
    (h : x ++ rest = y ++ rest') : x = y ∧ rest = rest' := by
  have hxy : x = y := by
    rw [← takeWhile_append_of_head hx hrest, h, takeWhile_append_of_head hy hrest']
  subst hxy
  exact ⟨rfl, List.append_cancel_left h⟩

/-- A piece without the character `c` that starts a text ends before the first
`c`. -/
theorem exists_append_of_not_mem {s t piece m : Text} {c : Char} (hc : c ∉ piece)
    (h : s ++ c :: t = piece ++ m) : ∃ r, s = piece ++ r ∧ m = r ++ c :: t := by
  rcases List.append_eq_append_iff.mp h with ⟨r, rfl, hr⟩ | ⟨r, hs, hm⟩
  · cases r with
    | nil => exact ⟨[], by simp, by simpa using hr.symm⟩
    | cons d r =>
      obtain ⟨rfl, -⟩ := List.cons.inj hr
      exact absurd (by simp) hc
  · exact ⟨r, hs, hm⟩

/-- A text is cut in one way at its first `c`. -/
theorem append_cons_inj {s t : Text} {c : Char} (hx : c ∉ x) (hy : c ∉ y)
    (h : x ++ c :: s = y ++ c :: t) : x = y ∧ s = t := by
  have hother : ∀ z : Text, c ∉ z → ∀ d ∈ z, (d != c) := by
    intro z hz d hd
    rw [bne_iff_ne]
    rintro rfl
    exact hz hd
  obtain ⟨hxy, hst⟩ := span_inj (hother x hx) (hother y hy) (by simp) (by simp) h
  exact ⟨hxy, List.tail_eq_of_cons_eq hst⟩

/-! ## Trimming -/

theorem trimStart_append (hx : ∀ c ∈ x, isBlank c)
    (hrest : rest.head?.any isBlank = false) : trimStart (x ++ rest) = rest :=
  dropWhile_append_of_head hx hrest

theorem isBlank_of_mem_nil : ∀ c ∈ ([] : Text), isBlank c := by
  simp

theorem isBlank_of_mem_singleton {c : Char} (hc : isBlank c) :
    ∀ d ∈ [c], isBlank d := by
  simpa using hc

theorem isBlank_of_mem_space : ∀ c ∈ [' '], isBlank c :=
  isBlank_of_mem_singleton rfl

theorem space_ne_nil : [' '] ≠ [] :=
  List.cons_ne_nil _ _

/-- What is of a class goes from the end, up to the last character that is not. -/
theorem dropEndWhile_append_cons {t tail : Text} {c : Char} (hc : p c = false)
    (htail : ∀ d ∈ tail, p d) : dropEndWhile p (t ++ c :: tail) = t ++ [c] := by
  have hreverse : (t ++ c :: tail).reverse = tail.reverse ++ c :: t.reverse := by simp
  have hclass : ∀ d ∈ tail.reverse, p d := by simpa using htail
  rw [dropEndWhile, hreverse, dropWhile_append_of_head hclass (by simpa using hc)]
  simp

/-- **What is left between characters of a class**, if it starts and ends with others. -/
theorem dropEndWhile_dropWhile_append {front back t : Text} (hfront : ∀ c ∈ front, p c)
    (hback : ∀ c ∈ back, p c) (hhead : t.head?.any p = false) (hlast : t.getLast?.any p = false) :
    dropEndWhile p ((front ++ (t ++ back)).dropWhile p) = t := by
  cases t with
  | nil =>
    have hall : ∀ c ∈ front ++ ([] ++ back), p c :=
      List.forall_mem_append.mpr ⟨hfront, hback⟩
    rw [List.dropWhile_eq_nil_iff.mpr hall]
    rfl
  | cons c t =>
    have hstart : ((c :: t) ++ back).head?.any p = false := hhead
    have hne : c :: t ≠ [] := by simp
    have hlast' : p ((c :: t).getLast hne) = false := by
      rwa [List.getLast?_eq_some_getLast hne, Option.any_some] at hlast
    have hsplit : c :: t = (c :: t).dropLast ++ [(c :: t).getLast hne] :=
      (List.dropLast_concat_getLast hne).symm
    rw [dropWhile_append_of_head hfront hstart]
    conv => lhs; rw [hsplit]
    rw [List.append_assoc, List.singleton_append, dropEndWhile_append_cons hlast' hback, ← hsplit]

/-- A text that has no character of the class is left between them. -/
theorem dropEndWhile_dropWhile_append_of_forall {front back t : Text}
    (hfront : ∀ c ∈ front, p c) (hback : ∀ c ∈ back, p c)
    (h : ∀ c ∈ t, p c = false) : dropEndWhile p ((front ++ (t ++ back)).dropWhile p) = t := by
  refine dropEndWhile_dropWhile_append hfront hback ?_ ?_
  · cases t with
    | nil => rfl
    | cons c t => exact h c List.mem_cons_self
  · cases hlast : t.getLast? with
    | none => rfl
    | some c => exact h c (List.mem_of_getLast? hlast)

/-- Nothing is taken off a text that has no character of the class. -/
theorem dropEndWhile_dropWhile_of_forall {t : Text} (h : ∀ c ∈ t, p c = false) :
    dropEndWhile p (t.dropWhile p) = t := by
  have hnone : ∀ c ∈ ([] : Text), p c := List.forall_mem_nil _
  have hkept := dropEndWhile_dropWhile_append_of_forall hnone hnone h
  rwa [List.nil_append, List.append_nil] at hkept

/-- Nothing goes in front of a character that is not of the class. -/
theorem exists_dropEndWhile_append_cons (s : Text) {c : Char} (hc : p c = false) (t : Text) :
    ∃ t', dropEndWhile p (s ++ c :: t) = s ++ c :: t' := by
  have hreverse : (s ++ c :: t).reverse = t.reverse ++ (s ++ [c]).reverse := by simp
  rw [dropEndWhile, hreverse, List.dropWhile_append]
  split
  · exact ⟨[], by simp [hc]⟩
  · exact ⟨(t.reverse.dropWhile p).reverse, by simp⟩

/-- Blanks after the last solid character go. -/
theorem trimEnd_append_cons {t tail : Text} {c : Char} (hc : isBlank c = false)
    (htail : ∀ d ∈ tail, isBlank d) : trimEnd (t ++ c :: tail) = t ++ [c] :=
  dropEndWhile_append_cons hc htail

theorem trimEnd_append_blank (t : Text) {tail : Text} (htail : ∀ d ∈ tail, isBlank d) :
    trimEnd (t ++ tail) = trimEnd t := by
  have hblank : ∀ d ∈ tail.reverse, isBlank d := by simpa using htail
  rw [trimEnd, trimEnd, dropEndWhile, List.reverse_append, List.dropWhile_append_of_pos hblank]
  rfl

/-- A text that ends in a solid word ends, trimmed, as the word does. -/
theorem endsWith_trimEnd_append (t : Text) {word : Text} (hne : word ≠ [])
    (hword : ∀ c ∈ word, isBlank c = false) (d : Char) :
    endsWith d (trimEnd (t ++ word)) = decide (word.getLast? = some d) := by
  obtain ⟨init, last, rfl⟩ : ∃ init last, word = init ++ [last] :=
    ⟨_, _, (List.dropLast_concat_getLast hne).symm⟩
  have hlast : isBlank last = false := hword last (by simp)
  rw [← List.append_assoc, trimEnd_append_cons hlast (by simp), endsWith]
  simp

/-- A text that starts and ends with a solid character is what is left of it between
blanks. -/
theorem trim_append {lead t tail : Text} (hlead : ∀ c ∈ lead, isBlank c)
    (hhead : t.head?.any (!isBlank ·)) (hlast : t.getLast?.any (!isBlank ·))
    (htail : ∀ c ∈ tail, isBlank c) : trim (lead ++ (t ++ tail)) = t := by
  have hstart : (t ++ tail).head?.any isBlank = false := by
    cases t with
    | nil => simp at hhead
    | cons c t => simpa using hhead
  obtain ⟨init, last, rfl⟩ : ∃ init last, t = init ++ [last] := by
    have hne : t ≠ [] := by
      rintro rfl
      simp at hhead
    exact ⟨_, _, (List.dropLast_concat_getLast hne).symm⟩
  rw [trim, trimStart_append hlead hstart, List.append_assoc]
  exact trimEnd_append_cons (by simpa using hlast) htail

/-! ## Pieces between separators -/

/-- No piece has the separator. -/
theorem not_mem_cutFrom {sep : Char} {piece t : Text} (hpiece : sep ∉ piece) :
    ∀ line ∈ cutFrom sep piece t, sep ∉ line := by
  fun_induction cutFrom sep piece t with
  | case1 piece => simpa using hpiece
  | case2 piece rest ih =>
    refine List.forall_mem_cons.mpr ⟨?_, ih (by simp)⟩
    rwa [List.mem_reverse]
  | case3 piece c rest hc ih =>
    apply ih
    rw [List.mem_cons, not_or]
    exact ⟨Ne.symm hc, hpiece⟩

/-- A separator ends the pieces before it, wherever the cutting began. -/
theorem cutFrom_append (sep : Char) (piece t u : Text) :
    cutFrom sep piece (t ++ sep :: u) = cutFrom sep piece t ++ cut sep u := by
  fun_induction cutFrom sep piece t with
  | case1 piece => simp [cutFrom, cut]
  | case2 piece rest ih => simp [cutFrom, ih]
  | case3 piece c rest hc ih => simp [cutFrom, hc, ih]

theorem cut_append (sep : Char) (t u : Text) : cut sep (t ++ sep :: u) = cut sep t ++ cut sep u :=
  cutFrom_append sep [] t u

/-- A text without separators is one piece. -/
theorem cut_of_not_mem {sep : Char} {t : Text} (ht : sep ∉ t) : cut sep t = [t] := by
  have hfrom : ∀ piece, cutFrom sep piece t = [piece.reverse ++ t] := by
    induction t with
    | nil => simp [cutFrom]
    | cons c t ih =>
      intro piece
      obtain ⟨hc, ht⟩ := not_or.mp (mt List.mem_cons.mpr ht)
      rw [cutFrom, if_neg (Ne.symm hc), ih ht]
      simp
  exact hfrom []

/-- Texts without separators are the pieces of what they are joined to. -/
theorem cut_join {sep : Char} {ts : List Text} (hne : ts ≠ []) (hts : ∀ t ∈ ts, sep ∉ t) :
    cut sep (join [sep] ts) = ts := by
  induction ts with
  | nil => exact absurd rfl hne
  | cons t ts ih =>
    obtain ⟨ht, hts⟩ := List.forall_mem_cons.mp hts
    cases ts with
    | nil => exact cut_of_not_mem ht
    | cons u ts =>
      have hjoin : join [sep] (t :: u :: ts) = t ++ sep :: join [sep] (u :: ts) := by
        simp [join]
      rw [hjoin, cut_append, cut_of_not_mem ht, ih (by simp) hts]
      rfl

end DumpBridge.Text

namespace DumpBridge.Line

open Text (isBlank)

variable {lead t : Text} {c : Char}

theorem isComment_append (hlead : ∀ c ∈ lead, isBlank c) (hc : isBlank c = false) :
    isComment (lead ++ c :: t) = ['-', '-'].isPrefixOf (c :: t) := by
  rw [isComment, Text.trimStart_append hlead (by simpa using hc)]

theorem isComment_dashes (t : Text) : isComment ('-' :: '-' :: t) := by
  have hdash : isBlank '-' = false := by decide
  have hcomment : isComment ([] ++ '-' :: '-' :: t) := by
    rw [isComment_append (by simp) hdash]
    simp
  exact hcomment

/-- A line that is commented out is a comment. -/
theorem isComment_commentOut (line : Text) : isComment (commentOut line) :=
  isComment_dashes (' ' :: line)

/-- It stays one when its end is trimmed. -/
theorem isComment_trimEnd_commentOut (line : Text) :
    isComment (Text.trimEnd (commentOut line)) := by
  have hdash : isBlank '-' = false := by decide
  obtain ⟨t, ht⟩ := Text.exists_dropEndWhile_append_cons ['-'] hdash (' ' :: line)
  have htrim : Text.trimEnd (commentOut line) = '-' :: '-' :: t := ht
  rw [htrim, isComment_dashes]

/-- A line is empty if it has blanks only. -/
theorem isEmpty_iff {line : Text} : isEmpty line ↔ ∀ c ∈ line, isBlank c := by
  rw [isEmpty, List.isEmpty_iff, Text.trim, Text.trimEnd, Text.dropEndWhile,
    List.reverse_eq_nil_iff, List.dropWhile_eq_nil_iff]
  constructor
  · intro hblank
    have hhead := Text.head?_dropWhile_any isBlank line
    rw [← List.dropWhile_eq_nil_iff]
    cases hrest : line.dropWhile isBlank with
    | nil => rfl
    | cons c rest =>
      have hc : isBlank c := hblank c (by simp [Text.trimStart, hrest])
      rw [hrest] at hhead
      simp [hc] at hhead
  · intro hblank c hc
    rw [List.mem_reverse] at hc
    exact hblank c ((List.dropWhile_suffix isBlank).subset hc)

/-- A line with a solid character is not empty. -/
theorem isEmpty_eq_false {line : Text} (hc : isBlank c = false) (hmem : c ∈ line) :
    isEmpty line = false := by
  cases hempty : isEmpty line with
  | false => rfl
  | true =>
    have hblank := isEmpty_iff.mp hempty c hmem
    simp [hc] at hblank

end DumpBridge.Line
