import DumpBridge.Line.Statements
import DumpBridge.Proofs.Literal.Nesting
import DumpBridge.Proofs.Text.Reach

/-!
# Conditional blocks and what follows them

A conditional block is bracketed, but the comment that it becomes reaches to the end of
the line.  So of a line with a block only what stands before the first one stays outside
comments (`live`), and `live_commentConditionalBlocks_iff` says when that is all: if no
other words follow, and no dash stands right before the block.

`Block` is the grammar of blocks.  A block starts a text just if the pattern fits there
(`fits_conditionalBlock_iff`), and the match is the block up to its first end
(`Block.matchAfter`): the repetition in the pattern takes as little as it can.
-/

namespace DumpBridge.Line

open Text (isBlank isDigit isWord blankChars Pattern Cursor)
open Text.Pattern
open Literal (Lexeme lexemes isQuote)

variable {before : Option Char} {pre rest s t : Text} {c : Char}

/-! ## Blocks -/

/-- A block for servers of some version: what they execute, between blanks. -/
structure Block where
  version : Text
  space : Text
  body : Text
  tail : Text
  version_ne : version ≠ []
  version_digits : ∀ c ∈ version, isDigit c
  space_ne : space ≠ []
  space_blank : ∀ c ∈ space, isBlank c
  tail_blank : ∀ c ∈ tail, isBlank c
  body_start : (body ++ tail).head?.any isBlank = false
  body_end : body.getLast?.any isBlank = false
  body_line : '\n' ∉ body
  body_open : ¬ ['*', '/'] <:+: body

namespace Block

/-- The version and the blanks behind it. -/
def lead (block : Block) : Text :=
  ['/', '*', '!'] ++ block.version ++ block.space

/-- The text of a block. -/
def text (block : Block) : Text :=
  block.lead ++ (block.body ++ (block.tail ++ ['*', '/']))

theorem text_eq_cons (block : Block) : ∃ t, block.text = '/' :: t :=
  ⟨_, rfl⟩

end Block

/-- A block starts the text. -/
def StartsBlock (t : Text) : Prop :=
  ∃ (block : Block) (rest : Text), t = block.text ++ rest

/-- No block starts in `pre`, where `rest` follows. -/
def BlockFree (pre rest : Text) : Prop :=
  ∀ s, s <:+ pre → s ≠ [] → ¬ StartsBlock (s ++ rest)

theorem StartsBlock.head (h : StartsBlock (c :: t)) : c = '/' := by
  obtain ⟨block, rest, htext⟩ := h
  obtain ⟨u, hblock⟩ := block.text_eq_cons
  rw [hblock] at htext
  exact (List.cons.inj htext).1

/-- In a text without slashes no block starts. -/
theorem blockFree_of_not_mem (h : '/' ∉ pre) (rest : Text) : BlockFree pre rest := by
  intro s hs hne hstarts
  obtain ⟨c, s, rfl⟩ := List.exists_cons_of_ne_nil hne
  rw [List.cons_append] at hstarts
  obtain rfl := hstarts.head
  exact h (hs.subset List.mem_cons_self)

/-- No block starts in a text just if none starts at its first character, or later. -/
theorem blockFree_cons_iff : BlockFree (c :: pre) rest ↔
    ¬ StartsBlock (c :: (pre ++ rest)) ∧ BlockFree pre rest := by
  constructor
  · intro h
    exact ⟨h (c :: pre) List.suffix_rfl (by simp),
      fun s hs => h s (hs.trans (List.suffix_cons c pre))⟩
  · intro h s hs hne
    obtain ⟨hfirst, hrest⟩ := h
    rcases List.suffix_cons_iff.mp hs with rfl | hs
    · exact hfirst
    · exact hrest s hs hne

/-! ## Where the pattern fits -/

/-- The last character of a text that ends in no blank stops a run of blanks before it. -/
theorem exists_solid (hne : t ≠ []) (hlast : t.getLast?.any isBlank = false) :
    ∃ lead c rest, t = lead ++ c :: rest ∧ (∀ d ∈ lead, isBlank d) ∧ isBlank c = false := by
  have hdrop : t.dropWhile isBlank ≠ [] := by
    intro hnil
    have hlastBlank := List.dropWhile_eq_nil_iff.mp hnil _ (List.getLast_mem hne)
    simp [List.getLast?_eq_some_getLast hne, hlastBlank] at hlast
  obtain ⟨c, rest, hrest⟩ := List.exists_cons_of_ne_nil hdrop
  have hsolid := Text.head?_dropWhile_any isBlank t
  rw [hrest] at hsolid
  refine ⟨t.takeWhile isBlank, c, rest, ?_, fun d hd => List.mem_takeWhile_imp hd,
    by simpa using hsolid⟩
  rw [← hrest, List.takeWhile_append_dropWhile]

namespace Block

variable (block : Block)

/-- Inside its body a block does not end. -/
theorem not_fits_end {u v : Text} (hbody : block.body = u ++ v) (hne : v ≠ []) (t : Text) :
    ¬ (blanks ++ phrase "*/").Fits before (v ++ (block.tail ++ (['*', '/'] ++ t))) := by
  have hlast : v.getLast?.any isBlank = false := by
    have hend := block.body_end
    rwa [hbody, List.getLast?_append_of_ne_nil _ hne] at hend
  obtain ⟨lead, c, w, rfl, hlead, hc⟩ := exists_solid hne hlast
  have hmarks : phrase "*/" = letters ['*', '/'] := rfl
  rw [List.append_assoc, fits_blanks_append hlead (by simpa using hc), hmarks,
    fits_letters (by decide)]
  intro h
  obtain ⟨y, m, hsplit, hspells⟩ := h
  obtain rfl := eq_of_spells (by decide) hspells
  obtain ⟨rfl, hafter⟩ := List.cons.inj hsplit
  cases w with
  | nil =>
    -- A star that ends the body is not followed by a slash.
    have hslash : (block.tail ++ (['*', '/'] ++ t)).head? = some '/' := by
      have hnext : block.tail ++ (['*', '/'] ++ t) = '/' :: m := hafter
      rw [hnext, List.head?_cons]
    cases htail : block.tail with
    | nil => simp [htail] at hslash
    | cons d tail =>
      obtain rfl : d = '/' := by simpa [htail] using hslash
      exact absurd (block.tail_blank '/' (by simp [htail])) (by decide)
  | cons d w =>
    obtain ⟨rfl, -⟩ := List.cons.inj hafter
    refine block.body_open ⟨u ++ lead, w, ?_⟩
    simp [hbody]

/-- The start of a block is taken in one way. -/
theorem takesOnly_lead (t : Text) : (phrase "/*!" ++ digits ++ gap).TakesOnly before block.lead
    (block.body ++ (block.tail ++ (['*', '/'] ++ t))) := by
  have hopen : (phrase "/*!").Takes before ['/', '*', '!']
      (block.version ++ (block.space ++ (block.body ++ (block.tail ++ (['*', '/'] ++ t))))) := by
    have hmarks : phrase "/*!" = letters ['/', '*', '!'] := rfl
    rw [hmarks, takes_letters (by decide)]
    decide
  have hspace :
      (block.space ++ (block.body ++ (block.tail ++ (['*', '/'] ++ t)))).head?.any isDigit =
      false := by
    obtain ⟨d, space, hcons⟩ := List.exists_cons_of_ne_nil block.space_ne
    rw [hcons]
    simpa using Text.isDigit_eq_false_of_isBlank (block.space_blank d (by simp [hcons]))
  have hbody : (block.body ++ (block.tail ++ (['*', '/'] ++ t))).head?.any isBlank = false := by
    have hstart := block.body_start
    rw [← List.append_assoc]
    cases hcons : block.body ++ block.tail with
    | nil => rfl
    | cons d more => simpa [hcons] using hstart
  refine takesOnly_append (takesOnly_append ?_ ?_) ?_
  · exact takesOnly_letters hopen
  · exact takesOnly_someOf block.version_ne block.version_digits hspace
  · exact takesOnly_someOf block.space_ne block.space_blank hbody

/-- **The match at a block** is the block, with its body set aside. -/
theorem matchAfter (before : Option Char) (t : Text) :
    ∃ stop, conditionalBlock.matchAfter before (block.text ++ t) = some stop ∧
      stop.taken = block.text.length ∧ stop.captured 1 = block.body := by
  let start := Cursor.start before (block.text ++ t)
  have hstart : start.rest = block.lead ++ (block.body ++ (block.tail ++ (['*', '/'] ++ t))) := by
    simp [start, Cursor.start, text]
  have hlead : ((phrase "/*!" ++ digits ++ gap).ends start).head? =
      some (start.advance block.lead) :=
    (block.takesOnly_lead t).head?_ends (by decide) hstart
  have hbody : (start.advance block.lead).rest = block.body ++ (block.tail ++ (['*', '/'] ++ t)) :=
    Cursor.rest_advance hstart
  have hend : ∀ b, (blanks ++ phrase "*/").TakesOnly b (block.tail ++ ['*', '/']) t := by
    intro b
    refine takesOnly_append (takesOnly_run block.tail_blank rfl) (takesOnly_letters ?_)
    rw [takes_letters (by decide)]
    decide
  have hstop :=
    (hend _).head?_ends (by decide) (c := (start.advance block.lead).setAside 1 block.body)
    (by rw [Cursor.rest_setAside 1 hbody, List.append_assoc])
  have hline : ∀ d ∈ block.body, (d != '\n') := by
    intro d hd
    have hne : d ≠ '\n' := fun h => block.body_line (h ▸ hd)
    simpa using hne
  have hrest := head?_ends_lazy 1 hline hbody
    (fun u v hsplit hne => block.not_fits_end hsplit hne t) hstop
  refine ⟨((start.advance block.lead).setAside 1 block.body).advance (block.tail ++ ['*', '/']),
    ?_, ?_, ?_⟩
  · rw [Pattern.matchAfter, conditionalBlock, ends_append_assoc, ends_append_assoc]
    exact head?_ends_append hlead hrest
  · simp [Cursor.advance, Cursor.setAside, start, Cursor.start, text]
    omega
  · rw [Cursor.captured_advance, Cursor.captured_setAside 1 hbody]

end Block

/-- The first end of a block in a text that is followed by one. -/
theorem exists_first_end (z : Text) :
    ∃ y u, z ++ ['*', '/'] = y ++ (['*', '/'] ++ u) ∧ y <+: z ∧ ¬ ['*', '/'] <:+: y := by
  induction hlen : z.length using Nat.strongRecOn generalizing z with
  | ind n ih =>
    by_cases hinside : ['*', '/'] <:+: z
    · obtain ⟨a, b, rfl⟩ := hinside
      have hshorter : a.length < n := by
        simp only [← hlen, List.length_append, List.length_cons, List.length_nil]
        omega
      obtain ⟨y, u, hsplit, hprefix, hopen⟩ := ih _ hshorter a rfl
      refine ⟨y, u ++ (b ++ ['*', '/']), ?_, ?_, hopen⟩
      · rw [hsplit]
        simp
      · rw [List.append_assoc]
        exact hprefix.trans (List.prefix_append a _)
    · exact ⟨z, [], by simp, List.prefix_rfl, hinside⟩

/-- What stands between the blanks behind a version and the first end is a body with the
blanks after it. -/
theorem startsBlock_of_parts {version space y : Text} (hversion : version ≠ [])
    (hdigits : ∀ c ∈ version, isDigit c) (hspace : space ≠ [])
    (hblank : ∀ c ∈ space, isBlank c) (hstart : y.head?.any isBlank = false)
    (hline : '\n' ∉ Text.trimEnd y) (hopen : ¬ ['*', '/'] <:+: y) (u : Text) :
    StartsBlock (['/', '*', '!'] ++ (version ++ (space ++ (y ++ (['*', '/'] ++ u))))) := by
  have hsplit : Text.trimEnd y ++ (y.reverse.takeWhile isBlank).reverse = y := by
    rw [Text.trimEnd, Text.dropEndWhile, ← List.reverse_append, List.takeWhile_append_dropWhile,
      List.reverse_reverse]
  refine ⟨{
    version := version, space := space, body := Text.trimEnd y
    tail := (y.reverse.takeWhile isBlank).reverse
    version_ne := hversion, version_digits := hdigits
    space_ne := hspace, space_blank := hblank
    tail_blank := fun c hc => List.mem_takeWhile_imp (List.mem_reverse.mp hc)
    body_start := by rwa [hsplit]
    body_end := ?_
    body_line := hline
    body_open := fun hinside => hopen (hinside.trans ⟨[], _, hsplit⟩) }, u, ?_⟩
  · rw [Text.trimEnd, Text.dropEndWhile, List.getLast?_reverse]
    exact Text.head?_dropWhile_any isBlank y.reverse
  · rw [Block.text, Block.lead]
    nth_rewrite 1 [← hsplit]
    simp

/-- **The grammar of blocks** says where the pattern fits. -/
theorem fits_conditionalBlock_iff : conditionalBlock.Fits before t ↔ StartsBlock t := by
  constructor
  · intro h
    simp only [conditionalBlock, fits_append_assoc] at h
    obtain ⟨mark, m₁, rfl, hmark, h₁⟩ := fits_append.mp h
    obtain ⟨version, m₂, rfl, hversion, h₂⟩ := fits_append.mp h₁
    obtain ⟨space, m₃, rfl, hspace, h₃⟩ := fits_append.mp h₂
    obtain ⟨x, m₄, rfl, hx, h₄⟩ := fits_append.mp h₃
    obtain ⟨b, m₅, rfl, hb, h₅⟩ := fits_append.mp h₄
    have hmarks : phrase "/*!" = letters ['/', '*', '!'] ∧ phrase "*/" = letters ['*', '/'] :=
      ⟨rfl, rfl⟩
    rw [hmarks.1, takes_letters (by decide)] at hmark
    obtain rfl := eq_of_spells (by decide) hmark
    rw [hmarks.2, fits_letters (by decide)] at h₅
    obtain ⟨e, u, rfl, he⟩ := h₅
    obtain rfl := eq_of_spells (by decide) he
    obtain ⟨hversion, hdigits, -⟩ := takes_someOf.mp hversion
    obtain ⟨hspace, hblank, hstart⟩ := takes_gap.mp hspace
    have hbreak : '\n' ∉ x := by
      have hwithin : (capture 1 (starLazy (one (· != '\n')))).Within (· ≠ '\n') := by
        intro c hc
        simpa using hc
      exact fun hmem => hwithin.of_takes hx _ hmem rfl
    -- The match may go beyond the first end: the block does not.
    obtain ⟨y, w, hend, ⟨z, hz⟩, hopen⟩ := exists_first_end (x ++ b)
    have htext : x ++ (b ++ (['*', '/'] ++ u)) = y ++ (['*', '/'] ++ (w ++ u)) := by
      have hmore := congrArg (· ++ u) hend
      simpa using hmore
    rw [htext] at hstart ⊢
    refine startsBlock_of_parts hversion hdigits hspace hblank ?_ ?_ hopen _
    · cases y with
      | nil => rfl
      | cons d y => exact hstart
    · rcases List.append_eq_append_iff.mp hz with ⟨r, rfl, -⟩ | ⟨r, rfl, hr⟩
      · exact Text.not_mem_trimEnd fun hmem => hbreak (List.mem_append_left r hmem)
      · have hblanks : ∀ c ∈ r, isBlank c := by
          intro c hc
          exact hb.1 c (by simp [hr, hc])
        rw [Text.trimEnd_append_blank x hblanks]
        exact Text.not_mem_trimEnd hbreak
  · intro h
    obtain ⟨block, u, htext⟩ := h
    obtain ⟨stop, hstop, -⟩ := block.matchAfter before u
    rw [htext]
    exact matchAfter_isSome_iff.mp (by rw [hstop]; rfl)

/-- **The search passes over a text** just if no block starts in it. -/
theorem passes_conditionalBlock_iff :
    conditionalBlock.Passes before pre rest ↔ BlockFree pre rest := by
  induction pre generalizing before with
  | nil =>
    refine iff_of_true trivial fun s hs hne => ?_
    exact absurd (List.suffix_nil.mp hs) hne
  | cons c pre ih => rw [Passes, ih, fits_conditionalBlock_iff, blockFree_cons_iff]

/-! ## What becomes of a line -/

/-- What stands before the first block stays, and the block is replaced. -/
theorem replaceWith_block (new : Cursor → Text)
    (hnew : ∀ c d : Cursor, c.captures = d.captures → new c = new d) {block : Block}
    (hfree : BlockFree pre (block.text ++ t)) :
    ∃ stop : Cursor, stop.captured 1 = block.body ∧
      conditionalBlock.replaceWith new (pre ++ (block.text ++ t)) =
        pre ++ (new stop ++ conditionalBlock.replaceWith new t) := by
  obtain ⟨stop, hstop, htaken, hbody⟩ := block.matchAfter (pre.getLast?.or none) t
  have hne : block.text ≠ [] := by
    obtain ⟨u, hu⟩ := block.text_eq_cons
    simp [hu]
  have hedge : (block.text.getLast?.or (pre.getLast?.or none)).any isWord =
      (none : Option Char).any isWord := by
    have hlast : block.text.getLast? = some '/' := by simp [Block.text]
    rw [hlast, Option.some_or]
    decide
  refine ⟨stop, hbody, ?_⟩
  rw [replaceWith, replaceFrom_of_passes (passes_conditionalBlock_iff.mpr hfree),
    replaceFrom_match hstop htaken hne, replaceFrom_congr hnew hedge]
  rfl

/-- **The first block becomes a comment**, and the search goes on behind it. -/
theorem commentConditionalBlocks_block {block : Block} (hfree : BlockFree pre (block.text ++ t)) :
    commentConditionalBlocks (pre ++ (block.text ++ t)) =
      pre ++ (commentOut block.body ++ commentConditionalBlocks t) := by
  have hnew : ∀ c d : Cursor, c.captures = d.captures →
      commentOut (c.captured 1) = commentOut (d.captured 1) := by
    intro c d hcd
    rw [Cursor.captured, Cursor.captured, Cursor.capture?, Cursor.capture?, hcd]
  obtain ⟨stop, hbody, hreplace⟩ := replaceWith_block _ hnew hfree
  rw [commentConditionalBlocks, hreplace, hbody]
  rfl

/-- The text without its blocks. -/
def withoutBlocks (t : Text) : Text :=
  conditionalBlock.erase t

/-- The first block goes, and then those behind it. -/
theorem withoutBlocks_block {block : Block} (hfree : BlockFree pre (block.text ++ t)) :
    withoutBlocks (pre ++ (block.text ++ t)) = pre ++ withoutBlocks t := by
  obtain ⟨stop, -, hreplace⟩ := replaceWith_block (fun _ => []) (fun _ _ _ => rfl) hfree
  exact hreplace

/-- A text without blocks stays. -/
theorem withoutBlocks_of_free (hfree : BlockFree t []) : withoutBlocks t = t := by
  have hpass : conditionalBlock.Passes none t [] := passes_conditionalBlock_iff.mpr hfree
  have hkept : conditionalBlock.replaceFrom (fun _ => []) none 0 (t ++ []) = t ++ [] :=
    replaceFrom_of_passes hpass
  rwa [List.append_nil] at hkept

/-! ## What stays outside comments -/

/-- The lexemes before two dashes outside literals, which start a comment. -/
def beforeDashes : List Lexeme → List Lexeme
  | [] => []
  | l :: ls =>
    if l = .code '-' ∧ ls.head? = some (.code '-') then [] else l :: beforeDashes ls

/-- The part of a line outside comments. -/
def live (line : Text) : Text :=
  (beforeDashes (lexemes .standard line)).flatMap Lexeme.text

/-- What is not blank. -/
def solid (t : Text) : Text :=
  t.filter fun c => !isBlank c

/-- Two dashes end what is outside comments; a dash before them is one of the first two. -/
theorem live_dashes (hquote : ∀ c ∈ pre, isQuote c = false) (hdashes : ¬ ['-', '-'] <:+: pre)
    (t : Text) :
    live (pre ++ '-' :: '-' :: t) = if pre.getLast? = some '-' then pre.dropLast else pre := by
  have hdash : isQuote '-' = false := by decide
  rw [live, Literal.lexemes_code_append hquote, Literal.lexemes_code hdash,
    Literal.lexemes_code hdash]
  clear hquote
  induction pre with
  | nil => simp [beforeDashes]
  | cons c pre ih =>
    have hrest := ih fun hinside => hdashes (hinside.trans (List.infix_cons List.infix_rfl))
    cases pre with
    | nil => by_cases hc : c = '-' <;> simp [beforeDashes, hc, Lexeme.text]
    | cons d pre =>
      have hpair : ¬ (c = '-' ∧ d = '-') := by
        intro h
        obtain ⟨hc, hd⟩ := h
        exact hdashes ⟨[], pre, by simp [hc, hd]⟩
      rw [List.map_cons, List.cons_append, beforeDashes, if_neg (by simpa using hpair),
        List.flatMap_cons, hrest, List.getLast?_cons_cons, List.dropLast_cons_cons]
      split <;> rfl

/-- **What is left of a line** whose first block stands behind `pre`. -/
theorem live_commentConditionalBlocks (hquote : ∀ c ∈ pre, isQuote c = false)
    (hdashes : ¬ ['-', '-'] <:+: pre) (hfree : BlockFree pre rest) (hrest : StartsBlock rest) :
    live (commentConditionalBlocks (pre ++ rest)) =
      if pre.getLast? = some '-' then pre.dropLast else pre := by
  obtain ⟨block, t, rfl⟩ := hrest
  rw [commentConditionalBlocks_block hfree]
  exact live_dashes hquote hdashes _

/-- A line with a block has a first one. -/
theorem exists_first_block (h : StartsBlock rest) (pre : Text) :
    ∃ p s, pre = p ++ s ∧ BlockFree p (s ++ rest) ∧ StartsBlock (s ++ rest) := by
  induction pre with
  | nil => exact ⟨[], [], rfl, blockFree_of_not_mem (by simp) _, h⟩
  | cons c pre ih =>
    by_cases hstarts : StartsBlock (c :: (pre ++ rest))
    · exact ⟨[], c :: pre, rfl, blockFree_of_not_mem (by simp) _, hstarts⟩
    · obtain ⟨p, s, rfl, hfree, hblock⟩ := ih
      refine ⟨c :: p, s, rfl, blockFree_cons_iff.mpr ⟨?_, hfree⟩, hblock⟩
      rwa [List.append_assoc] at hstarts

theorem solid_append (s t : Text) : solid (s ++ t) = solid s ++ solid t :=
  List.filter_append s t

theorem solid_solid (t : Text) : solid (solid t) = solid t := by
  simp [solid, List.filter_filter]

/-- Less the dash that a comment takes, a text has no more characters than before. -/
theorem length_solid_dropLast (t : Text) :
    (solid (if t.getLast? = some '-' then t.dropLast else t)).length ≤ (solid t).length ∧
      (t.getLast? = some '-' →
        (solid (if t.getLast? = some '-' then t.dropLast else t)).length < (solid t).length) := by
  by_cases hlast : t.getLast? = some '-'
  · have hdash : solid ['-'] = ['-'] := by decide
    have hlength : (solid t).length = (solid t.dropLast).length + 1 := by
      nth_rewrite 1 [← List.dropLast_append_getLast? '-' hlast]
      rw [solid_append, hdash, List.length_append, List.length_singleton]
    rw [if_pos hlast]
    omega
  · rw [if_neg hlast]
    exact ⟨Nat.le_refl _, fun h => absurd h hlast⟩

/-- **Blocks and the words after them.**  The words of a line around a block stay outside
comments just if it is the first block, no dash stands right before it, and nothing but
blanks and blocks follows.  What stands before the first block stays as it is, and the body
of the block becomes a comment. -/
theorem live_commentConditionalBlocks_iff (block : Block) (post : Text)
    (hquote : ∀ c ∈ pre, isQuote c = false) (hdashes : ¬ ['-', '-'] <:+: pre) :
    ((solid (pre ++ withoutBlocks post)).Sublist
        (live (commentConditionalBlocks (pre ++ (block.text ++ post)))) ↔
      BlockFree pre (block.text ++ post) ∧ pre.getLast? ≠ some '-' ∧
      solid (withoutBlocks post) = []) ∧
    (BlockFree pre (block.text ++ post) →
      commentConditionalBlocks (pre ++ (block.text ++ post)) =
        pre ++ (commentOut block.body ++ commentConditionalBlocks post)) := by
  have hstarts : StartsBlock (block.text ++ post) := ⟨block, post, rfl⟩
  refine ⟨⟨fun hwords => ?_, fun h => ?_⟩, commentConditionalBlocks_block⟩
  · obtain ⟨p, s, rfl, hfree, hblock⟩ := exists_first_block hstarts pre
    have hlive := live_commentConditionalBlocks
      (fun c hc => hquote c (List.mem_append_left s hc))
      (fun hinside => hdashes (hinside.trans (List.prefix_append p s).isInfix)) hfree hblock
    rw [List.append_assoc p, List.append_assoc p, hlive] at hwords
    -- There are too few characters outside comments for more than `p`.
    have hcount := (hwords.filter fun c => !isBlank c).length_le
    rw [← solid, ← solid, solid_solid, solid_append, solid_append, List.length_append,
      List.length_append] at hcount
    obtain ⟨hle, hlt⟩ := length_solid_dropLast p
    obtain rfl : s = [] := by
      by_contra hne
      obtain ⟨c, s, rfl⟩ := List.exists_cons_of_ne_nil hne
      obtain rfl := hblock.head
      have hslash : 0 < (solid ('/' :: s)).length := by
        simp [solid, show isBlank '/' = false by decide]
      omega
    rw [List.append_nil]
    refine ⟨hfree, fun hlast => ?_, List.eq_nil_of_length_eq_zero ?_⟩
    · have := hlt hlast
      omega
    · omega
  · obtain ⟨hfree, hdash, hpost⟩ := h
    rw [live_commentConditionalBlocks hquote hdashes hfree hstarts, if_neg hdash, solid_append,
      hpost, List.append_nil]
    exact List.filter_sublist

/-- A block with an option of a table. -/
def optionBlock : Block where
  version := "40100".toList
  space := ['\t', ' ']
  body := "ENGINE=y".toList
  tail := [' ', '\t']
  version_ne := by decide
  version_digits := by decide
  space_ne := by decide
  space_blank := by decide
  tail_blank := by decide
  body_start := by decide
  body_end := by decide
  body_line := by decide
  body_open := fun h => absurd (h.subset (by simp : '*' ∈ ['*', '/'])) (by decide)

/-- A table's options in two blocks, with nothing behind them. -/
theorem live_commentConditionalBlocks_options :
    (solid (") ".toList ++ withoutBlocks " /*!50100 CHARSET=x*/".toList)).Sublist
      (live (commentConditionalBlocks
        ") /*!40100\t ENGINE=y \t*/ /*!50100 CHARSET=x*/".toList)) := by
  have htext : ") /*!40100\t ENGINE=y \t*/ /*!50100 CHARSET=x*/".toList =
      ") ".toList ++ (optionBlock.text ++ " /*!50100 CHARSET=x*/".toList) := by decide
  have hpost : solid (withoutBlocks " /*!50100 CHARSET=x*/".toList) = [] := by decide
  have hdashes : ¬ ['-', '-'] <:+: ") ".toList :=
    fun h => absurd (h.subset (by simp : '-' ∈ ['-', '-'])) (by decide)
  rw [htext]
  exact (live_commentConditionalBlocks_iff optionBlock _ (by decide) hdashes).1.mpr
    ⟨blockFree_of_not_mem (by decide) _, by decide, hpost⟩

/-- Behind a block in the middle of a statement nothing stays outside comments. -/
theorem live_commentConditionalBlocks_middle :
    commentConditionalBlocks "CREATE TABLE /*!32312 IF NOT EXISTS*/ t (id int);".toList =
        "CREATE TABLE -- IF NOT EXISTS t (id int);".toList ∧
      live "CREATE TABLE -- IF NOT EXISTS t (id int);".toList = "CREATE TABLE ".toList := by
  decide

end DumpBridge.Line
