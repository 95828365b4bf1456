import DumpBridge.Line.Quotes
import DumpBridge.Literal.Quoted
import DumpBridge.Proofs.Literal.Blocks
import DumpBridge.Proofs.Text.Replace

/-!
# From backslash escapes to doubled marks

A raw dump escapes with backslashes, and the converted script doubles quote
marks.  `normalizeEscapes` goes from one to the other with three replacements
on the whole line; without U+0000 they are one pass (`onePass`) that never
looks again at what it has written (`normalizeEscapes_eq_onePass`), and so a scan
that holds back at most one backslash (`normalizeEscapes_eq_scan`).

`restated` translates the lexemes of the dump's quoting one by one, and the
pass does to a text what `restated` does to its lexemes.  From this simulation
(`lexed_restated`) come the two main facts:

* `segments_normalizeEscapes`: the line falls into the same literals in the new
  quoting as in the old one;
* `decode_normalizeEscapes_iff`: a literal keeps its value, unless it escapes a
  double mark, where the backslash is left over.
-/

namespace DumpBridge.Escapes

open Line (normalizeEscapes backslashMark)
open Literal

/-! ## The three replacements as one pass -/

/-- One pass over a text: two backslashes become one, a backslash before a
single quote mark becomes a second mark, and any other character is copied. -/
def onePass : Text → Text
  | '\\' :: '\\' :: rest => '\\' :: onePass rest
  | '\\' :: '\'' :: rest => '\'' :: '\'' :: onePass rest
  | c :: rest => c :: onePass rest
  | [] => []

/-- The pass copies a character that is no backslash. -/
theorem onePass_cons {c : Char} (hc : c ≠ '\\') (t : Text) :
    onePass (c :: t) = c :: onePass t := by
  rw [onePass] <;> simp_all

/-- The pass copies an escape of a character that is neither a backslash nor a
single quote mark. -/
theorem onePass_escape {d : Char} (hd : d ≠ '\\') (hd' : d ≠ '\'') (t : Text) :
    onePass ('\\' :: d :: t) = '\\' :: d :: onePass t := by
  rw [onePass, onePass_cons hd] <;> simp_all

/-- The pass copies a text without backslashes. -/
theorem onePass_append {x : Text} (hx : '\\' ∉ x) (t : Text) :
    onePass (x ++ t) = x ++ onePass t := by
  induction x with
  | nil => rfl
  | cons c x ih =>
    have hc : c ≠ '\\' := fun h => hx (h ▸ List.mem_cons_self)
    rw [List.cons_append, onePass_cons hc, ih (fun h => hx (List.mem_cons_of_mem c h)),
      List.cons_append]

theorem onePass_of_not_mem {t : Text} (ht : '\\' ∉ t) : onePass t = t := by
  simpa [onePass] using onePass_append ht []

/-- The three replacements, in their order. -/
private def threeSteps (t : Text) : Text :=
  Text.replace backslashMark ['\\']
    (Text.replace ['\\', '\''] ['\'', '\''] (Text.replace ['\\', '\\'] backslashMark t))

/-- A doubled backslash is set aside, passed over and put back as one. -/
private theorem threeSteps_doubled (t : Text) :
    threeSteps ('\\' :: '\\' :: t) = '\\' :: threeSteps t := by
  have hmark : '\\' ∉ backslashMark := by decide
  have hne : backslashMark ≠ [] := by decide
  rw [threeSteps, Text.replace_pair, Text.replace_append_of_not_mem hmark, Text.replace_append hne]
  rfl

/-- A character other than a backslash is kept, since the mark for a backslash
starts with U+0000. -/
private theorem threeSteps_cons {c : Char} (hc : c ≠ '\\') (hnul : c ≠ '\x00') (t : Text) :
    threeSteps (c :: t) = c :: threeSteps t := by
  have hmark : backslashMark = '\x00' :: backslashMark.tail := rfl
  rw [threeSteps, Text.replace_cons_of_ne hc, Text.replace_cons_of_ne hc, hmark,
    Text.replace_cons_of_ne hnul]
  rfl

/-- An escaped quote mark is doubled. -/
private theorem threeSteps_quote (t : Text) :
    threeSteps ('\\' :: '\'' :: t) = '\'' :: '\'' :: threeSteps t := by
  have hmark : backslashMark = '\x00' :: backslashMark.tail := rfl
  have hkept : Text.replace ['\\', '\\'] backslashMark ('\'' :: t) =
      '\'' :: Text.replace ['\\', '\\'] backslashMark t :=
    Text.replace_cons_of_ne (by decide) _ t
  rw [threeSteps, Text.replace_pair_of_ne (by decide), hkept, Text.replace_pair, hmark,
    List.cons_append, Text.replace_cons_of_ne (by decide), List.cons_append,
    Text.replace_cons_of_ne (by decide)]
  rfl

/-- A backslash before any other character is kept. -/
private theorem threeSteps_escape {d : Char} (hd : d ≠ '\\') (hd' : d ≠ '\'') (t : Text) :
    threeSteps ('\\' :: d :: t) = '\\' :: threeSteps (d :: t) := by
  have hmark : backslashMark = '\x00' :: backslashMark.tail := rfl
  have hkept : Text.replace ['\\', '\\'] backslashMark (d :: t) =
      d :: Text.replace ['\\', '\\'] backslashMark t := Text.replace_cons_of_ne hd _ t
  rw [threeSteps, Text.replace_pair_of_ne hd, hkept, Text.replace_pair_of_ne hd', hmark,
    Text.replace_cons_of_ne (by decide), ← hmark, threeSteps, hkept]

/-- Without U+0000 in the text, the three replacements are the one pass. -/
private theorem threeSteps_eq_onePass {t : Text} (hnul : '\x00' ∉ t) :
    threeSteps t = onePass t := by
  fun_induction onePass t with
  | case1 rest ih =>
    rw [threeSteps_doubled, ih (by simp_all)]
  | case2 rest ih =>
    rw [threeSteps_quote, ih (by simp_all)]
  | case3 c rest h1 h2 ih =>
    have hrest : '\x00' ∉ rest := fun h => hnul (List.mem_cons_of_mem c h)
    have hc : c ≠ '\x00' := fun h => hnul (h ▸ List.mem_cons_self)
    by_cases hback : c = '\\'
    · subst hback
      cases rest with
      | nil => rfl
      | cons d rest =>
        have hd : d ≠ '\\' := fun h => h1 rest rfl (h ▸ rfl)
        have hd' : d ≠ '\'' := fun h => h2 rest rfl (h ▸ rfl)
        rw [threeSteps_escape hd hd', ih hrest]
    · rw [threeSteps_cons hback hc, ih hrest]
  | case4 => rfl

/-- **One pass.**  Without U+0000 in the line, changing the escapes is one pass
from left to right, which never looks again at what it has written. -/
theorem normalizeEscapes_eq_onePass {line : Text} (hnul : '\x00' ∉ line) :
    normalizeEscapes line = onePass line := by
  by_cases h : '\\' ∈ line
  · rw [normalizeEscapes, if_pos h]
    exact threeSteps_eq_onePass hnul
  · rw [normalizeEscapes, if_neg h, onePass_of_not_mem h]

/-! ## The pass as a scan -/

/-- A scan that has read a part of a text: what it has written so far, and whether it
holds a backslash back. -/
structure Scan where
  written : Text
  holds : Bool
  deriving DecidableEq

namespace Scan

/-- Reads one character.  A backslash is held back until the next character decides
what both become; any other is written at once. -/
def step (s : Scan) (c : Char) : Scan :=
  if s.holds then
    if c = '\\' then ⟨s.written ++ ['\\'], false⟩
    else if c = '\'' then ⟨s.written ++ ['\'', '\''], false⟩
    else ⟨s.written ++ ['\\', c], false⟩
  else if c = '\\' then ⟨s.written, true⟩
  else ⟨s.written ++ [c], false⟩

/-- The scan of a text, from left to right. -/
def ofText (t : Text) : Scan :=
  t.foldl step ⟨[], false⟩

/-- What is written when the text has ended. -/
def finish (s : Scan) : Text :=
  if s.holds then s.written ++ ['\\'] else s.written

/-- What is written stays as it is. -/
theorem written_prefix_step (s : Scan) (c : Char) : s.written <+: (s.step c).written := by
  unfold step
  split_ifs <;> simp

theorem written_prefix_foldl (s : Scan) (t : Text) : s.written <+: (t.foldl step s).written := by
  induction t generalizing s with
  | nil => exact List.prefix_rfl
  | cons c t ih => exact (s.written_prefix_step c).trans (ih (s.step c))

theorem written_prefix_finish (s : Scan) : s.written <+: s.finish := by
  unfold finish
  split_ifs <;> simp

/-- From any state on, the scan writes what the pass makes of the backslash it holds
and the text to come. -/
theorem finish_foldl (s : Scan) (t : Text) :
    (t.foldl step s).finish = s.written ++ onePass (if s.holds then '\\' :: t else t) := by
  induction t generalizing s with
  | nil =>
    cases hholds : s.holds <;> simp [finish, hholds, onePass]
  | cons c t ih =>
    rw [List.foldl_cons, ih]
    cases hholds : s.holds with
    | false =>
      by_cases hc : c = '\\'
      · simp [step, hholds, hc]
      · simp [step, hholds, hc, onePass_cons hc]
    | true =>
      by_cases hc : c = '\\'
      · simp [step, hholds, hc, onePass]
      · by_cases hc' : c = '\''
        · simp [step, hholds, hc', onePass]
        · simp [step, hholds, hc, hc', onePass_escape hc hc']

/-- **The scan writes the text in one pass.** -/
theorem finish_ofText (t : Text) : (ofText t).finish = onePass t := by
  simpa [ofText] using finish_foldl ⟨[], false⟩ t

end Scan

/-- **One scan.**  Without U+0000 in the line, the three replacements write what one
scan writes that goes from left to right, halves a doubled backslash, doubles an
escaped quote mark and copies the rest; and whatever the scan has written after a part
of the line is the beginning of the result. -/
theorem normalizeEscapes_eq_scan {line : Text} (hnul : '\x00' ∉ line) :
    normalizeEscapes line = (Scan.ofText line).finish ∧
      ∀ x y, line = x ++ y → (Scan.ofText x).written <+: normalizeEscapes line := by
  have hscan : normalizeEscapes line = (Scan.ofText line).finish := by
    rw [normalizeEscapes_eq_onePass hnul, Scan.finish_ofText]
  refine ⟨hscan, fun x y hline => ?_⟩
  have hrest : Scan.ofText line = y.foldl Scan.step (Scan.ofText x) := by
    rw [hline, Scan.ofText, List.foldl_append, ← Scan.ofText]
  rw [hscan, hrest]
  exact (Scan.written_prefix_foldl _ y).trans (Scan.written_prefix_finish _)

/-- A doubled backslash, escaped marks and another escape, side by side. -/
theorem normalizeEscapes_eq_scan_run :
    '\x00' ∉ "a\\\\\\'b\\\\'\\n\\".toList ∧
      normalizeEscapes "a\\\\\\'b\\\\'\\n\\".toList = "a\\''b\\'\\n\\".toList := by
  have hnul : '\x00' ∉ "a\\\\\\'b\\\\'\\n\\".toList := by decide
  refine ⟨hnul, ?_⟩
  rw [(normalizeEscapes_eq_scan hnul).1]
  decide

/-- With U+0000 in it, a line may already have the mark that stands for a backslash. -/
example : normalizeEscapes "\x00BSLASH\x00\\n".toList ≠
    (Scan.ofText "\x00BSLASH\x00\\n".toList).finish := by
  decide

/-! ## The same literals in the other quoting -/

/-- The lexemes of the script's quoting that a lexeme of the dump's becomes. -/
def restated : Lexeme → List Lexeme
  | .pair c none => if c = '\\' then [.inside c] else [.pair c none]
  | .pair c (some d) =>
    if c = '\\' then
      if d = '\\' then [.inside c]
      else if d = '\'' then [.pair d (some d)]
      else [.inside c, .inside d]
    else [.pair c (some d)]
  | l => [l]

variable {m : Char} {body ls ys : List Lexeme}

/-- A doubled mark stays. -/
theorem restated_pair_of_ne {c : Char} (hc : c ≠ '\\') (d : Option Char) :
    restated (.pair c d) = [.pair c d] := by
  cases d <;> simp [restated, hc]

theorem restated_escape {d : Char} (hd : d ≠ '\\') (hd' : d ≠ '\'') :
    restated (.pair '\\' (some d)) = [.inside '\\', .inside d] := by
  simp [restated, hd, hd']

/-- Inner lexemes stay inner. -/
theorem isInner_restated (hinner : ∀ l ∈ body, l.isInner) :
    ∀ x ∈ body.flatMap restated, x.isInner := by
  intro x hx
  obtain ⟨l, hl, hxl⟩ := List.mem_flatMap.mp hx
  have hlinner := hinner l hl
  revert hxl
  fun_cases restated l with
  | case5 d hd hd' =>
    intro hxl
    rcases List.mem_cons.mp hxl with rfl | hxl
    · rfl
    · obtain rfl := List.mem_singleton.mp hxl
      rfl
  | case7 =>
    intro hxl
    obtain rfl := List.mem_singleton.mp hxl
    exact hlinner
  | case1 | case2 | case3 | case4 | case6 =>
    intro hxl
    obtain rfl := List.mem_singleton.mp hxl
    rfl

theorem escapes_mysql {c : Char} : Quoting.mysql.escapes c = false ↔ c ≠ '\\' := by
  simp [Quoting.escapes]

theorem escapes_standard (c : Char) : Quoting.standard.escapes c = false := by
  simp [Quoting.escapes]

/-- The pass does to the text of inner lexemes what `restated` does to them. -/
theorem onePass_inner (h : Lexed .mysql (some m) (body ++ ys)) (hinner : ∀ l ∈ body, l.isInner) :
    onePass (body.flatMap Lexeme.text ++ ys.flatMap Lexeme.text) =
      (body.flatMap restated).flatMap Lexeme.text ++ onePass (ys.flatMap Lexeme.text) := by
  induction body with
  | nil => rfl
  | cons l body ih =>
    have hinner' : ∀ l ∈ body, l.isInner := fun x hx => hinner x (List.mem_cons_of_mem l hx)
    rw [List.cons_append] at h
    cases h with
    | inside he hc rest =>
      have hne := escapes_mysql.mp he
      simp [Lexeme.text, restated, onePass_cons hne, ih rest hinner']
    | doubled he rest =>
      have hne := escapes_mysql.mp he
      simp [Lexeme.text, restated_pair_of_ne hne, onePass_cons hne, ih rest hinner']
    | @escape _ c d _ he rest =>
      obtain rfl : c = '\\' := by simpa [Quoting.escapes] using he
      by_cases hd : d = '\\'
      · subst hd
        simp [Lexeme.text, restated, onePass, ih rest hinner']
      · by_cases hd' : d = '\''
        · subst hd'
          simp [Lexeme.text, restated, onePass, ih rest hinner']
        · simp [Lexeme.text, restated_escape hd hd', onePass_escape hd hd', ih rest hinner']
    | @escapeAtEnd _ c _ he hend =>
      obtain rfl : c = '\\' := by simpa [Quoting.escapes] using he
      obtain ⟨rfl, rfl⟩ := List.append_eq_nil_iff.mp hend
      rfl
    | closing he hnext rest =>
      simp [Lexeme.isInner] at hinner

/-- Restated inner lexemes are read as such in the script's quoting, if the
literal is in single marks or has no backslash. -/
theorem lexed_restated_inner {zs : List Lexeme} (h : Lexed .mysql (some m) (body ++ ys))
    (hinner : ∀ l ∈ body, l.isInner) (hm : m = '\'' ∨ '\\' ∉ body.flatMap Lexeme.text)
    (hzs : Lexed .standard (some m) zs) :
    Lexed .standard (some m) (body.flatMap restated ++ zs) := by
  induction body with
  | nil => exact hzs
  | cons l body ih =>
    have hinner' : ∀ l ∈ body, l.isInner := fun x hx => hinner x (List.mem_cons_of_mem l hx)
    have hm' : m = '\'' ∨ '\\' ∉ body.flatMap Lexeme.text :=
      hm.imp_right fun hnot hmem => hnot (by simp [hmem])
    rw [List.cons_append] at h
    cases h with
    | inside he hc rest =>
      exact .inside (escapes_standard _) hc (ih rest hinner' hm')
    | doubled he rest =>
      rw [List.flatMap_cons, restated_pair_of_ne (escapes_mysql.mp he)]
      exact .doubled (escapes_standard _) (ih rest hinner' hm')
    | @escape _ c d _ he rest =>
      obtain rfl : c = '\\' := by simpa [Quoting.escapes] using he
      obtain rfl : m = '\'' := hm.resolve_right (by simp [Lexeme.text])
      have hrest := ih rest hinner' hm'
      by_cases hd : d = '\\'
      · subst hd
        exact .inside (escapes_standard _) (by decide) hrest
      · by_cases hd' : d = '\''
        · subst hd'
          exact .doubled (escapes_standard _) hrest
        · rw [List.flatMap_cons, restated_escape hd hd']
          exact .inside (escapes_standard _) (by decide)
            (.inside (escapes_standard _) hd' hrest)
    | @escapeAtEnd _ c _ he hend =>
      obtain rfl : c = '\\' := by simpa [Quoting.escapes] using he
      obtain rfl : m = '\'' := hm.resolve_right (by simp [Lexeme.text])
      obtain ⟨rfl, rfl⟩ := List.append_eq_nil_iff.mp hend
      exact .inside (escapes_standard _) (by decide) hzs
    | closing he hnext rest =>
      simp [Lexeme.isInner] at hinner

/-- Outside literals, the first character stays. -/
theorem head?_restated (h : Lexed .mysql none ls) :
    ((ls.flatMap restated).flatMap Lexeme.text).head? = (ls.flatMap Lexeme.text).head? := by
  cases h <;> simp [restated, Lexeme.text]

/-- A segment with the pass made over its text. -/
def passed : Segment → Segment
  | .code t => .code (onePass t)
  | .literal t => .literal (onePass t)

/-- The segment has no backslash, or it is a literal in single marks. -/
def BackslashInSingle : Segment → Prop
  | .code t => '\\' ∉ t
  | .literal t => t.head? = some '\'' ∨ '\\' ∉ t

/-- A character of code is put before segments on both sides of the pass. -/
theorem before_code_passed {c : Char} {segs : List Segment}
    (h : ∀ s ∈ (Lexeme.code c).before segs, BackslashInSingle s) :
    c ≠ '\\' ∧ (∀ s ∈ segs, BackslashInSingle s) ∧
      (Lexeme.code c).before (segs.map passed) = ((Lexeme.code c).before segs).map passed := by
  cases segs with
  | nil =>
    have hc : c ≠ '\\' := by simpa [Lexeme.before, BackslashInSingle, eq_comm] using h
    exact ⟨hc, by simp, by simp [Lexeme.before, passed, onePass_cons hc, onePass]⟩
  | cons s segs =>
    cases s with
    | code t =>
      have hct : '\\' ∉ c :: t := h (.code (c :: t)) List.mem_cons_self
      have hc : c ≠ '\\' := fun hc => hct (hc ▸ List.mem_cons_self)
      have ht : '\\' ∉ t := fun ht => hct (List.mem_cons_of_mem c ht)
      refine ⟨hc, ?_, by simp [Lexeme.before, passed, onePass_cons hc]⟩
      exact List.forall_mem_cons.mpr ⟨ht, fun s hs => h s (List.mem_cons_of_mem _ hs)⟩
    | literal t =>
      have hct : '\\' ∉ [c] := h (.code [c]) List.mem_cons_self
      have hc : c ≠ '\\' := fun hc => hct (hc ▸ List.mem_cons_self)
      refine ⟨hc, fun s hs => h s (List.mem_cons_of_mem _ hs), ?_⟩
      simp [Lexeme.before, passed, onePass_cons hc, onePass]

theorem ne_backslash_of_isQuote {c : Char} (hc : isQuote c) : c ≠ '\\' := by
  rintro rfl
  simp [isQuote] at hc

theorem BackslashInSingle.mark_or_not_mem {t : Text}
    (h : BackslashInSingle (.literal (m :: t))) : m = '\'' ∨ '\\' ∉ t := by
  rcases h with hhead | hnot
  · exact Or.inl (by simpa using hhead)
  · exact Or.inr (fun hmem => hnot (List.mem_cons_of_mem m hmem))

/-- **Simulation.**  Restated lexemes are read as such in the script's quoting,
they have the text of the pass, and they make up the segments of the pass. -/
theorem lexed_restated (h : Lexed .mysql none ls)
    (hsingle : ∀ s ∈ segmentsOf ls, BackslashInSingle s) :
    Lexed .standard none (ls.flatMap restated) ∧
      (ls.flatMap restated).flatMap Lexeme.text = onePass (ls.flatMap Lexeme.text) ∧
      segmentsOf (ls.flatMap restated) = (segmentsOf ls).map passed := by
  induction h using Lexed.blockInduction with
  | nil => exact ⟨.nil none, rfl, rfl⟩
  | @code c ls hc rest ih =>
    rw [segmentsOf_code] at hsingle
    obtain ⟨hne, hsingle', hsegs⟩ := before_code_passed hsingle
    obtain ⟨hlexed, htext, hsegments⟩ := ih hsingle'
    refine ⟨.code hc hlexed, ?_, ?_⟩
    · simp [restated, Lexeme.text, onePass_cons hne, htext]
    · simp only [List.flatMap_cons, restated, List.singleton_append, segmentsOf_code, hsegments,
        hsegs]
  | @openLiteral m body hm inner hinner =>
    have hne := ne_backslash_of_isQuote hm
    rw [segmentsOf_openLiteral hinner] at hsingle ⊢
    have hm' := (hsingle _ List.mem_cons_self).mark_or_not_mem
    have hnil : Lexed .mysql (some m) (body ++ []) := by simpa using inner
    have htext : onePass (m :: body.flatMap Lexeme.text) =
        m :: (body.flatMap restated).flatMap Lexeme.text := by
      simpa [onePass_cons hne, onePass] using onePass_inner hnil hinner
    have hrestated : (Lexeme.opening m :: body).flatMap restated =
        .opening m :: body.flatMap restated := rfl
    rw [hrestated]
    refine ⟨.opening hm ?_, ?_, ?_⟩
    · simpa using lexed_restated_inner hnil hinner hm' (.nil _)
    · exact htext.symm
    · rw [segmentsOf_openLiteral (isInner_restated hinner)]
      simp [passed, htext]
  | @literal m body ls hm inner hinner rest ih =>
    have hne := ne_backslash_of_isQuote hm
    rw [segmentsOf_literal hinner] at hsingle ⊢
    have hm' : m = '\'' ∨ '\\' ∉ body.flatMap Lexeme.text :=
      (hsingle _ List.mem_cons_self).mark_or_not_mem.imp_right
        fun hnot hmem => hnot (List.mem_append_left _ hmem)
    obtain ⟨hlexed, htext, hsegments⟩ := ih fun s hs => hsingle s (List.mem_cons_of_mem _ hs)
    have hclosing : Lexed .mysql (some m) (.closing m :: ls) := by
      simpa [markAfter_inner hinner] using inner.right
    -- The mark after the literal is no double of its closing mark on either side.
    have hnext : ((ls.flatMap restated).flatMap Lexeme.text).head? ≠ some m := by
      rw [head?_restated rest]
      cases hclosing with
      | closing _ hnext _ => exact hnext
    have hliteral : onePass (m :: (body.flatMap Lexeme.text ++ [m])) =
        m :: ((body.flatMap restated).flatMap Lexeme.text ++ [m]) := by
      have hone : Lexed .mysql (some m) ((body ++ [Lexeme.closing m]) ++ ls) := by
        simpa using inner
      simpa [onePass_cons hne, onePass, Lexeme.text] using onePass_inner hone.left hinner
    have hrestated : (Lexeme.opening m :: (body ++ .closing m :: ls)).flatMap restated =
        .opening m :: (body.flatMap restated ++ .closing m :: ls.flatMap restated) := by
      simp [restated]
    rw [hrestated]
    refine ⟨.opening hm ?_, ?_, ?_⟩
    · exact lexed_restated_inner inner hinner hm'
        (.closing (escapes_standard m) hnext hlexed)
    · have hpass := onePass_inner inner hinner
      simp [Lexeme.text, onePass_cons hne] at hpass ⊢
      simp [hpass, htext]
    · rw [segmentsOf_literal (isInner_restated hinner)]
      simp [passed, hliteral, hsegments]

/-- A backslash in code or in a literal in double marks. -/
def strayBackslash : Segment → Bool
  | .code t => '\\' ∈ t
  | .literal t => t.head? = some '"' && '\\' ∈ t

/-- The segment with the escapes changed if it is a literal in single marks. -/
def renormalized : Segment → Segment
  | .literal ('\'' :: t) => .literal (normalizeEscapes ('\'' :: t))
  | s => s

variable {line : Text}

/-- A segment has characters of its line only. -/
theorem mem_line_of_mem_segment {q : Quoting} {s : Segment} {c : Char}
    (hs : s ∈ segments q line) (hc : c ∈ s.text) : c ∈ line := by
  rw [← flatMap_text_segments q line]
  exact List.mem_flatMap.mpr ⟨s, hs, hc⟩

/-- Without stray backslashes, all backslashes are in literals in single marks,
and on these the pass is the change of escapes. -/
theorem passed_eq_renormalized (hnul : '\x00' ∉ line) {s : Segment}
    (hs : s ∈ segments .mysql line) (hstray : strayBackslash s = false) :
    BackslashInSingle s ∧ passed s = renormalized s := by
  cases s with
  | code t =>
    have ht : '\\' ∉ t := by simpa [strayBackslash] using hstray
    exact ⟨ht, by rw [passed, onePass_of_not_mem ht, renormalized]; simp⟩
  | literal t =>
    obtain ⟨m, rest, hm, rfl⟩ := mark_of_literal_mem (lexed_lexemes .mysql line) hs
    by_cases hmark : m = '\''
    · subst hmark
      have hnul' : '\x00' ∉ '\'' :: rest := fun h => hnul (mem_line_of_mem_segment hs h)
      exact ⟨Or.inl rfl, by rw [passed, renormalized, normalizeEscapes_eq_onePass hnul']⟩
    · have hdouble : m = '"' := by
        simp only [isQuote, Bool.or_eq_true, decide_eq_true_eq] at hm
        exact hm.resolve_left hmark
      have hnot : '\\' ∉ m :: rest := by
        simpa [strayBackslash, hdouble] using hstray
      refine ⟨Or.inr hnot, ?_⟩
      rw [passed, onePass_of_not_mem hnot, renormalized]
      simpa using hmark

/-- **The change of quoting moves no literal.**  If the line has neither U+0000
nor a backslash outside literals in single marks, then its segments in the
script's quoting, after the escapes are changed, are its segments in the dump's
quoting, with the escapes of each literal in single marks changed. -/
theorem segments_normalizeEscapes (hnul : '\x00' ∉ line)
    (hstray : ∀ s ∈ segments .mysql line, strayBackslash s = false) :
    segments .standard (normalizeEscapes line) = (segments .mysql line).map renormalized := by
  have hsingle : ∀ s ∈ segments .mysql line, BackslashInSingle s :=
    fun s hs => (passed_eq_renormalized hnul hs (hstray s hs)).1
  obtain ⟨hlexed, htext, hsegments⟩ :=
    lexed_restated (lexed_lexemes .mysql line) hsingle
  have hlexemes : lexemes .standard (onePass line) = (lexemes .mysql line).flatMap restated :=
    lexemes_eq_iff.mpr ⟨hlexed, by rw [htext, flatMap_text_lexemes]⟩
  rw [normalizeEscapes_eq_onePass hnul, segments_eq_segmentsOf, hlexemes]
  exact hsegments.trans (List.map_congr_left fun s hs =>
    (passed_eq_renormalized hnul hs (hstray s hs)).2)

/-- A line with escaped and doubled marks, an escaped backslash before a closing
mark, and a last literal that is not closed. -/
theorem segments_normalizeEscapes_mixed :
    '\x00' ∉ "a='it\\'s',\"b''\",'\\\\','x\\n''".toList ∧
      (∀ s ∈ segments .mysql "a='it\\'s',\"b''\",'\\\\','x\\n''".toList, strayBackslash s = false) ∧
      segments .standard (normalizeEscapes "a='it\\'s',\"b''\",'\\\\','x\\n''".toList) =
        [.code "a=".toList, .literal "'it''s'".toList, .code [','],
          .literal "\"b''\"".toList, .code [','], .literal "'\\'".toList, .code [','],
          .literal "'x\\n''".toList] :=
  ⟨by decide, by decide, (segments_normalizeEscapes (by decide) (by decide)).trans (by decide)⟩

/-! ## The value of a literal -/

/-- What an inner lexeme of a literal in single marks stands for. -/
def value : Lexeme → Text
  | .pair '\'' (some '\'') => ['\'']
  | .pair '\\' (some d) => if d = '\\' || isQuote d then [d] else ['\\', d]
  | l => l.text

variable {q : Quoting}

theorem decode_cons {c : Char} (hc : c ≠ '\'') (he : q.escapes c = false) (t : Text) :
    decode q (c :: t) = c :: decode q t := by
  cases t <;> simp [decode, hc, he]

/-- The body of a literal in single marks stands for what its lexemes do. -/
theorem decode_inner (h : Lexed q (some '\'') (body ++ [Lexeme.closing '\'']))
    (hinner : ∀ l ∈ body, l.isInner) :
    decode q (body.flatMap Lexeme.text) = body.flatMap value := by
  induction body with
  | nil => simp [decode]
  | cons l body ih =>
    have hinner' : ∀ l ∈ body, l.isInner := fun x hx => hinner x (List.mem_cons_of_mem l hx)
    rw [List.cons_append] at h
    cases h with
    | inside he hc rest =>
      simp [Lexeme.text, value, decode_cons hc he, ih rest hinner']
    | doubled he rest =>
      simp [Lexeme.text, value, decode, ih rest hinner']
    | @escape _ c d _ he rest =>
      obtain ⟨rfl, rfl⟩ : q = .mysql ∧ c = '\\' := by simpa [Quoting.escapes] using he
      by_cases hd : d = '\\' ∨ isQuote d
      · simp [Lexeme.text, value, decode, Quoting.escapes, hd, ih rest hinner']
      · have hd' : d ≠ '\'' := fun h => hd (Or.inr (by simp [h, isQuote]))
        have he' : Quoting.mysql.escapes d = false :=
          escapes_mysql.mpr fun h => hd (Or.inl h)
        simp [Lexeme.text, value, decode, Quoting.escapes, hd, decode_cons hd' he', ih rest hinner']
    | escapeAtEnd he hend => simp at hend
    | closing he hnext rest => simp [Lexeme.isInner] at hinner

/-- Restating a lexeme keeps what it stands for, except that an escaped double
mark is left with its backslash. -/
theorem flatMap_value_restated (l : Lexeme) :
    (restated l).flatMap value = value l ∨
      l = .pair '\\' (some '"') ∧ (value l).length < ((restated l).flatMap value).length := by
  fun_cases restated l with
  | case5 d hd hd' =>
    by_cases hdouble : d = '"'
    · subst hdouble
      exact Or.inr ⟨rfl, by decide⟩
    · left
      have hquote : isQuote d = false := by simp_all [isQuote]
      simp_all [value, Lexeme.text]
  | case1 | case3 | case4 => exact Or.inl (by decide)
  | case2 | case6 | case7 => exact Or.inl (by simp)

/-- Concatenations in which no piece of the second is longer agree only if the
pieces do. -/
theorem flatMap_eq_iff {f g : Lexeme → Text}
    (hfg : ∀ l, f l = g l ∨ (g l).length < (f l).length) (ls : List Lexeme) :
    ls.flatMap f = ls.flatMap g ↔ ∀ l ∈ ls, f l = g l := by
  have hle : ∀ ls : List Lexeme, (ls.flatMap g).length ≤ (ls.flatMap f).length := by
    intro ls
    induction ls with
    | nil => simp
    | cons l ls ih =>
      simp only [List.flatMap_cons, List.length_append]
      rcases hfg l with h | h
      · rw [h]
        omega
      · omega
  induction ls with
  | nil => simp
  | cons l ls ih =>
    rw [List.flatMap_cons, List.flatMap_cons, List.forall_mem_cons]
    rcases hfg l with h | h
    · rw [h, List.append_cancel_left_eq]
      simp [ih]
    · constructor
      · intro heq
        have hlen := congrArg List.length heq
        have := hle ls
        simp only [List.length_append] at hlen
        omega
      · rintro ⟨hl, hls⟩
        rw [hl, ih.mpr hls]

/-- A literal in single marks is one in the script's quoting too, and its inner
lexemes are restated. -/
theorem normalizeEscapes_literal (hinner : ∀ l ∈ body, l.isInner)
    (hlexed : Lexed .mysql (some '\'') (body ++ [Lexeme.closing '\'']))
    (hnul : '\x00' ∉ '\'' :: (body.flatMap Lexeme.text ++ ['\''])) :
    Lexed .standard (some '\'') (body.flatMap restated ++ [Lexeme.closing '\'']) ∧
      normalizeEscapes ('\'' :: (body.flatMap Lexeme.text ++ ['\''])) =
        '\'' :: ((body.flatMap restated).flatMap Lexeme.text ++ ['\'']) := by
  constructor
  · exact lexed_restated_inner hlexed hinner (Or.inl rfl)
      (.closing (escapes_standard _) (by simp) (.nil none))
  · have hpass := onePass_inner hlexed hinner
    rw [normalizeEscapes_eq_onePass hnul, onePass_cons (by decide)]
    simpa [Lexeme.text, onePass] using hpass

/-- **Changing the escapes keeps the value**, and keeps it exactly if no double
mark is escaped: the change leaves the backslash before a double mark, which is
then a character of the value. -/
theorem decode_normalizeEscapes_iff {t : Text} (ht : IsLiteral .mysql '\'' t) (hnul : '\x00' ∉ t) :
    IsLiteral .standard '\'' (normalizeEscapes t) ∧
      (decode .standard (normalizeEscapes t).tail.dropLast = decode .mysql t.tail.dropLast ↔
        .pair '\\' (some '"') ∉ lexemes .mysql t) := by
  obtain ⟨body, hinner, hlexed, hlexemes, rfl⟩ := ht.exists_inner
  obtain ⟨hrestated, hnormal⟩ := normalizeEscapes_literal hinner hlexed hnul
  have hbody (x : Text) : (('\'' :: (x ++ ['\''])).tail).dropLast = x := by simp
  refine ⟨⟨body.flatMap restated, isInner_restated hinner, ?_⟩, ?_⟩
  · rw [hnormal, lexemes_eq_iff]
    exact ⟨.opening (by decide) hrestated, by simp [Lexeme.text]⟩
  · rw [hnormal, hbody, hbody, decode_inner hrestated (isInner_restated hinner),
      decode_inner hlexed hinner, List.flatMap_assoc,
      flatMap_eq_iff (fun l => (flatMap_value_restated l).imp_right And.right), hlexemes]
    constructor
    · intro hall hmem
      have hbad : .pair '\\' (some '"') ∈ body := by simpa using hmem
      exact absurd (hall _ hbad) (by decide)
    · intro hnot l hl
      rcases flatMap_value_restated l with h | ⟨rfl, _⟩
      · exact h
      · exact absurd (by simp [hl]) hnot

/-- An escaped backslash, an escaped single mark, a doubled one and an escape of
a letter. -/
theorem decode_normalizeEscapes_iff_path :
    IsLiteral .mysql '\'' "'C:\\\\it\\'s''\\n'".toList ∧
      '\x00' ∉ "'C:\\\\it\\'s''\\n'".toList ∧
      decode .standard (normalizeEscapes "'C:\\\\it\\'s''\\n'".toList).tail.dropLast =
        "C:\\it's'\\n".toList := by
  have hliteral : IsLiteral .mysql '\'' "'C:\\\\it\\'s''\\n'".toList :=
    ⟨((lexemes .mysql "'C:\\\\it\\'s''\\n'".toList).drop 1).dropLast, by decide, by decide⟩
  refine ⟨hliteral, by decide, ?_⟩
  exact ((decode_normalizeEscapes_iff hliteral (by decide)).2.mpr (by decide)).trans (by decide)

/-- An escaped double mark is left with its backslash, so the value changes. -/
theorem decode_normalizeEscapes_double_mark :
    IsLiteral .mysql '\'' "'\\\"'".toList ∧ '\x00' ∉ "'\\\"'".toList ∧
      decode .standard (normalizeEscapes "'\\\"'".toList).tail.dropLast ≠
        decode .mysql "'\\\"'".toList.tail.dropLast :=
  ⟨⟨[.pair '\\' (some '"')], by decide, by decide⟩, by decide, by decide⟩

end DumpBridge.Escapes
