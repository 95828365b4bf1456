import DumpBridge.Proofs.Enum.Catalog
import DumpBridge.Proofs.Enum.Written

/-!
# Enumerations on a line

`Placed gap es t` says that the enumerations `es` stand on the line `t` in order.
Before each there is a gap, and anything may follow the last.  If the word and
parenthesis that open an enumeration are on the line no more often than that, the
scan for enumerations finds just these (`Placed.valueLists`), and naming them
replaces them (`Placed.named_ne`).

In the dump a gap is code and whole literals (`DumpGap`).  Once the backticks are
gone and the escapes restated, the gaps leave no literal open in the script's quoting
(`ScriptGap`), and the enumerations stand between them as they are written in the
script (`Placed.script`).  There they stay, if a map carries each of them
(`Placed.carried`).
-/

namespace DumpBridge

open Text (Pattern isBlank isWord)
open Text.Pattern
open Literal

/-! ## Openings -/

namespace EnumType

/-- How often an enumeration opens in a text that has `before` in front of it. -/
def openingsFrom : Option Char → Text → Nat
  | _, [] => 0
  | before, c :: t =>
    (if (opener.matchAfter before (c :: t)).isSome then 1 else 0) + openingsFrom (some c) t

/-- How often an enumeration opens on a line, inside literals or outside. -/
def openings (line : Text) : Nat :=
  openingsFrom none line

/-- The line with each enumeration replaced by the name of its type. -/
def named (start line : Text) : Text :=
  (pieces .standard opener line).flatMap fun piece =>
    ((pieceValues? .standard piece).map (nameOf start)).getD piece.text

variable {before : Option Char} {x t : Text}

/-- Text in front opens no fewer. -/
theorem openingsFrom_le_append (before : Option Char) (x t : Text) :
    openingsFrom (x.getLast?.or before) t ≤ openingsFrom before (x ++ t) := by
  induction x generalizing before with
  | nil => exact Nat.le_refl _
  | cons c x ih =>
    rw [List.cons_append, openingsFrom, getLast?_cons_or]
    exact Nat.le_trans (ih (some c)) (Nat.le_add_left _ _)

/-- Where a text adds no opening, none starts in it. -/
theorem passes_of_openingsFrom_le
    (h : openingsFrom before (x ++ t) ≤ openingsFrom (x.getLast?.or before) t) :
    opener.Passes before x t := by
  induction x generalizing before with
  | nil => trivial
  | cons c x ih =>
    rw [List.cons_append, openingsFrom, getLast?_cons_or] at h
    have hrest : openingsFrom (x.getLast?.or (some c)) t ≤ openingsFrom (some c) (x ++ t) :=
      openingsFrom_le_append (some c) x t
    split at h
    · omega
    · next hnone =>
      refine ⟨fun hfits => hnone (matchAfter_isSome_iff.mpr hfits), ih ?_⟩
      omega

/-- A text that the opening passes over adds none. -/
theorem openingsFrom_of_passes (h : opener.Passes before x t) :
    openingsFrom before (x ++ t) = openingsFrom (x.getLast?.or before) t := by
  induction x generalizing before with
  | nil => rfl
  | cons c x ih =>
    have hnone : ¬ (opener.matchAfter before (c :: (x ++ t))).isSome :=
      fun hsome => h.1 (matchAfter_isSome_iff.mp hsome)
    rw [List.cons_append, openingsFrom, if_neg hnone, getLast?_cons_or, ih h.2, Nat.zero_add]

/-- An enumeration opens with a whole word, any blanks and a parenthesis. -/
theorem exists_of_fits_opener (h : opener.Fits before t) : before.any isWord = false ∧
    ∃ c w gap rest, t = c :: (w ++ (gap ++ ['(']) ++ rest) ∧ isWord c ∧
      (∀ d ∈ w, isWord d) ∧ ∀ d ∈ gap, isBlank d := by
  obtain ⟨_, rest, rfl, htakes⟩ := h
  obtain ⟨hedge, w, gap, rfl, hspells, hgap⟩ :=
    (takes_callOpener Enumeration.isKeyword_enum).mp htakes
  obtain ⟨hne, hword⟩ := isWord_of_spells Enumeration.isKeyword_enum hspells
  obtain ⟨c, w, rfl⟩ := List.exists_cons_of_ne_nil hne
  obtain ⟨hc, hword⟩ := List.forall_mem_cons.mp hword
  exact ⟨hedge, c, w, gap, rest, rfl, hc, hword, hgap⟩

/-- No other starts behind the first letter of that word, up to its parenthesis. -/
theorem passes_behind_opener {c : Char} {w gap : Text} (hc : isWord c)
    (hw : ∀ d ∈ w, isWord d) (hgap : ∀ d ∈ gap, isBlank d) :
    opener.Passes (some c) (w ++ (gap ++ ['('])) t := by
  refine passes_append.mpr ⟨passes_inside (fun before t hinside _ hfits => ?_) (by simpa using hc)
    hw, passes_of_head (q := fun d => !isWord d) (fun d hd => ?_) fun before t hfits => ?_⟩
  · simp [(exists_of_fits_opener hfits).1] at hinside
  · rcases List.mem_append.mp hd with hblank | hparen
    · simp [Text.isWord_eq_false_of_isBlank (hgap d hblank)]
    · obtain rfl := List.mem_singleton.mp hparen
      decide
  · obtain ⟨-, d, _, _, _, rfl, hd, -, -⟩ := exists_of_fits_opener hfits
    simp [hd]

/-- **Each opening has a parenthesis** of its own. -/
theorem openingsFrom_le_count (before : Option Char) (t : Text) :
    openingsFrom before t ≤ t.count '(' := by
  induction hlength : t.length using Nat.strongRecOn generalizing before t with
  | ind n ih =>
    cases t with
    | nil => exact Nat.zero_le _
    | cons c t =>
      rw [openingsFrom]
      split
      · next hsome =>
        obtain ⟨-, c, w, gap, rest, hsplit, hc, hw, hgap⟩ :=
          exists_of_fits_opener (matchAfter_isSome_iff.mp hsome)
        obtain ⟨rfl, rfl⟩ := List.cons.inj hsplit
        have hrest := ih rest.length (by simp [← hlength]; omega)
          ((w ++ (gap ++ ['('])).getLast?.or (some c)) rest rfl
        rw [openingsFrom_of_passes (passes_behind_opener hc hw hgap), List.count_cons,
          List.count_append, List.count_append, List.count_append, List.count_singleton_self]
        omega
      · have hrest := ih t.length (by simp [← hlength]) (some c) t rfl
        rw [List.count_cons]
        omega

/-- Where no enumeration opens, there is none to be named. -/
theorem named_of_openings {start line : Text} (h : openings line = 0) :
    named start line = line := by
  have hpasses : opener.Passes none line [] := by
    refine passes_of_openingsFrom_le ?_
    rw [List.append_nil]
    exact h.le
  by_cases hne : line = []
  · rw [hne]
    rfl
  · have hplain := piecesFrom_plain (q := .standard) hpasses (by simp [piecesFrom]) hne
    rw [List.append_nil] at hplain
    rw [named, pieces, hplain]
    simp [piecesFrom, pieceValues?, Piece.text]

end EnumType

namespace EnumCatalog

open EnumType (named pieceValues? valueLists)

/-- **The catalog of a dump** names every enumeration of a live line whose values some line
of the dump declares. -/
theorem substitute_eq_named {dump : List Text} {raw line : Text} (hraw : raw ∈ dump)
    (hdeclared : ∀ values ∈ valueLists .standard line, values ∈ declared raw)
    (hcomment : Line.isComment line = false) (hdata : Line.isData line = false) (start : Text) :
    (ofLines start dump).substitute line = named start line := by
  have hname : ∀ piece ∈ pieces .standard EnumType.opener line,
      (ofLines start dump).replacement? piece =
        (pieceValues? .standard piece).map (EnumType.nameOf start) := by
    intro piece hpiece
    cases hvalues : pieceValues? .standard piece with
    | none => simp [replacement?, hvalues]
    | some values =>
      have hmem : values ∈ valueLists .standard line :=
        List.mem_filterMap.mpr ⟨piece, hpiece, hvalues⟩
      obtain ⟨type, htype, hname⟩ : ∃ type, (ofLines start dump).get? values = some type ∧
          type.name = EnumType.nameOf start values :=
        exists_get?_ofLines hraw (hdeclared values hmem)
      simp [replacement?, hvalues, htype, hname]
  have hflat : ((pieces .standard EnumType.opener line).flatMap fun piece =>
      ((ofLines start dump).replacement? piece).getD piece.text) = named start line := by
    refine List.flatMap_congr fun piece hpiece => ?_
    rw [hname piece hpiece]
  rw [substitute, substitute?, hcomment, hdata]
  simp only [Bool.or_self, Bool.false_eq_true, if_false]
  split
  · exact hflat
  · next hnone =>
    -- Without an enumeration every piece is kept, and the pieces are the line.
    have hkept : ∀ piece ∈ pieces .standard EnumType.opener line,
        ((ofLines start dump).replacement? piece).getD piece.text = piece.text := by
      intro piece hpiece
      cases hreplacement : (ofLines start dump).replacement? piece with
      | none => rfl
      | some name =>
        exact absurd (List.any_eq_true.mpr ⟨piece, hpiece, by simp [hreplacement]⟩) hnone
    rw [← hflat, List.flatMap_congr hkept]
    exact (flatMap_text_piecesFrom Enumeration.isKeyword_enum none line).symm

/-- A line of rows keeps its enumerations. -/
theorem substitute_of_isData {catalog : EnumCatalog} {line : Text} (h : Line.isData line) :
    catalog.substitute line = line := by
  simp [substitute, substitute?, h]

end EnumCatalog

/-! ## Gaps and enumerations -/

namespace Enumeration

variable {q : Quoting} {gap : Text → Prop} {es : List (Enumeration q)} {x t : Text}
  {before : Option Char}

/-- `Placed gap es t`: the enumerations stand on the line in order, with a gap before each
and anything after the last. -/
inductive Placed (gap : Text → Prop) : List (Enumeration q) → Text → Prop
  | rest (t : Text) : Placed gap [] t
  | cons {es : List (Enumeration q)} {x t : Text} (hx : gap x) (e : Enumeration q)
      (others : Placed gap es t) : Placed gap (e :: es) (x ++ (e.text ++ t))

/-- **A map that goes over a gap and an enumeration at a time** keeps the enumerations in
their places. -/
theorem Placed.map {q' : Quoting} {gap' C : Text → Prop} {f : Text → Text}
    {g : Enumeration q → Enumeration q'}
    (hf : ∀ x, gap x → ∀ e ∈ es, ∀ t, C (x ++ (e.text ++ t)) →
      C t ∧ ∃ z, gap' z ∧ f (x ++ (e.text ++ t)) = z ++ ((g e).text ++ f t))
    (h : Placed gap es t) (hC : C t) : Placed gap' (es.map g) (f t) := by
  induction h with
  | rest t => exact .rest (f t)
  | cons hx e _ ih =>
    obtain ⟨hrest, z, hz, heq⟩ := hf _ hx e (by simp) _ hC
    rw [heq]
    exact .cons hz (g e) (ih (fun x hx e he => hf x hx e (List.mem_cons_of_mem _ he)) hrest)

/-- Behind blanks no word goes on. -/
theorem any_getLast?_of_blank (hx : x.getLast?.all isBlank)
    (hbefore : before.any isWord = false) : (x.getLast?.or before).any isWord = false := by
  cases hlast : x.getLast? with
  | none => exact hbefore
  | some c =>
    rw [hlast] at hx
    exact Text.isWord_eq_false_of_isBlank (by simpa using hx)

theorem getLast?_text (e : Enumeration q) (before : Option Char) :
    e.text.getLast?.or before = some ')' := by
  rw [text, ← List.append_assoc, List.getLast?_concat]
  rfl

/-- Text behind an enumeration has no letter before it, as if it began the line. -/
theorem any_getLast?_behind (e : Enumeration q) (x u : Text) :
    (x ++ (e.text ++ u)).getLast?.any isWord = u.getLast?.any isWord := by
  rw [List.getLast?_append, List.getLast?_append]
  cases u.getLast? with
  | none =>
    rw [Option.none_or, e.getLast?_text]
    decide
  | some d => rfl

/-- Each enumeration opens once more. -/
theorem openingsFrom_text (e : Enumeration q) (hbefore : before.any isWord = false) (t : Text) :
    EnumType.openingsFrom (some ')') t < EnumType.openingsFrom before (e.text ++ t) := by
  have hfits := e.fits_text hbefore t
  have hlast := e.getLast?_text before
  obtain ⟨c, u, htext, -⟩ := e.exists_text
  rw [htext] at hfits hlast ⊢
  rw [getLast?_cons_or] at hlast
  have hle := EnumType.openingsFrom_le_append (some c) (u ++ [')']) t
  rw [hlast] at hle
  rw [List.cons_append, EnumType.openingsFrom, ← List.cons_append,
    if_pos (matchAfter_isSome_iff.mpr hfits)]
  omega

section Scan

variable (hgap : ∀ x, gap x → x.getLast?.all isBlank)
include hgap

/-- An enumeration opens at least as often as enumerations are placed. -/
theorem Placed.length_le (h : Placed gap es t) (hbefore : before.any isWord = false) :
    es.length ≤ EnumType.openingsFrom before t := by
  induction h generalizing before with
  | rest t => exact Nat.zero_le _
  | @cons es x t hx e _ ih =>
    have htext := e.openingsFrom_text (any_getLast?_of_blank (hgap x hx) hbefore) t
    have hle := EnumType.openingsFrom_le_append before x (e.text ++ t)
    have hlength : es.length ≤ EnumType.openingsFrom (some ')') t := ih (by decide)
    rw [List.length_cons]
    omega

/-- Where no other enumeration opens, a gap is plain and the enumeration after it is found. -/
theorem Placed.piecesFrom_cons (e : Enumeration q) (hx : gap x) (h : Placed gap es t)
    (hbefore : before.any isWord = false)
    (hcount : EnumType.openingsFrom before (x ++ (e.text ++ t)) = es.length + 1) :
    piecesFrom q EnumType.opener before 0 (x ++ (e.text ++ t)) =
        (if x = [] then [] else [Piece.plain x]) ++
          .call e.head e.inside :: piecesFrom q EnumType.opener (some ')') 0 t ∧
      EnumType.openingsFrom (some ')') t = es.length := by
  have hbefore' := any_getLast?_of_blank (hgap x hx) hbefore
  have htext := e.openingsFrom_text hbefore' t
  have hle := EnumType.openingsFrom_le_append before x (e.text ++ t)
  have hlength : es.length ≤ EnumType.openingsFrom (some ')') t := h.length_le hgap (by decide)
  refine ⟨?_, by omega⟩
  have hpasses : EnumType.opener.Passes before x (e.text ++ t) :=
    EnumType.passes_of_openingsFrom_le (by omega)
  have hcall := e.piecesFrom_text hbefore' t
  by_cases hne : x = []
  · subst hne
    simpa using hcall
  · rw [if_neg hne, piecesFrom_plain hpasses (by simp [hcall]) hne, hcall]
    rfl

/-- **The value lists of a line** are those of the enumerations placed on it, if no other
enumeration opens. -/
theorem Placed.valueLists (h : Placed gap es t) (hcount : EnumType.openings t = es.length) :
    EnumType.valueLists q t = es.map values := by
  have hfrom : ∀ before : Option Char, before.any isWord = false →
      EnumType.openingsFrom before t = es.length →
      (piecesFrom q EnumType.opener before 0 t).filterMap (EnumType.pieceValues? q) =
        es.map values := by
    clear hcount
    induction h with
    | rest t =>
      intro before _ hcount
      have hpasses : EnumType.opener.Passes before t [] :=
        EnumType.passes_of_openingsFrom_le (by simp [hcount])
      by_cases hne : t = []
      · subst hne
        rfl
      · have hplain := piecesFrom_plain (q := q) hpasses (by simp [piecesFrom]) hne
        rw [List.append_nil] at hplain
        rw [hplain]
        rfl
    | @cons es x t hx e others ih =>
      intro before hbefore hcount
      obtain ⟨hpieces, hcount⟩ := others.piecesFrom_cons hgap e hx hbefore hcount
      rw [hpieces, List.filterMap_append]
      have hplain : (if x = [] then [] else [Piece.plain x]).filterMap (EnumType.pieceValues? q) =
          [] := by
        split <;> rfl
      have hvalues : EnumType.pieceValues? q (.call e.head e.inside) = some e.values :=
        e.valueList?_inside
      rw [hplain, List.nil_append, List.filterMap_cons_some hvalues,
        ih (some ')') (by decide) hcount]
      rfl
  exact hfrom none rfl hcount

end Scan

/-- **Naming the enumerations** of a line changes it, if the names begin with another
letter. -/
theorem Placed.named_ne {es : List (Enumeration .standard)}
    (hgap : ∀ x, gap x → x.getLast?.all isBlank) (h : Placed gap es t) (hne : es ≠ [])
    (hcount : EnumType.openings t = es.length) : EnumType.named ['x'] t ≠ t := by
  cases h with
  | rest => exact absurd rfl hne
  | @cons es x t hx e others =>
    obtain ⟨hpieces, -⟩ := others.piecesFrom_cons hgap e hx rfl hcount
    have hvalues : EnumType.pieceValues? .standard (.call e.head e.inside) = some e.values :=
      e.valueList?_inside
    have hplain : ((if x = [] then [] else [Piece.plain x]).flatMap fun piece =>
        ((EnumType.pieceValues? .standard piece).map (EnumType.nameOf ['x'])).getD
          piece.text) = x := by
      split
      · next hnil => rw [hnil]; rfl
      · simp [EnumType.pieceValues?, Piece.text]
    rw [EnumType.named, pieces, hpieces, List.flatMap_append, hplain, List.flatMap_cons, hvalues]
    intro heq
    have hhead := congrArg List.head? (List.append_cancel_left heq)
    obtain ⟨c, u, htext, hc⟩ := e.exists_text
    obtain ⟨digits, hname, -⟩ := EnumType.exists_nameOf ['x'] e.values
    obtain rfl : 'x' = c := by simpa [hname, htext] using hhead
    simp at hc

/-! ## From the dump to the script -/

/-- `DumpBlocks x`: the text is code and whole literals of the dump, and backslashes stand in
single quote marks only. -/
inductive DumpBlocks : Text → Prop
  | code {c : Text} (hc : ∀ d ∈ c, isQuote d = false) (hplain : '\\' ∉ c) : DumpBlocks c
  | literal {m : Char} {c t x : Text} (hc : ∀ d ∈ c, isQuote d = false) (hplain : '\\' ∉ c)
      (ht : IsLiteral .mysql m t) (hm : m = '\'' ∨ '\\' ∉ t) (hnext : x.head? ≠ some m)
      (rest : DumpBlocks x) : DumpBlocks (c ++ (t ++ x))

/-- What may stand before an enumeration of the dump: nothing, or code and literals with a
blank at the end. -/
structure DumpGap (x : Text) : Prop where
  blocks : DumpBlocks x
  blank : x.getLast?.all isBlank

/-- What may stand before an enumeration of the script. -/
structure ScriptGap (x : Text) : Prop where
  shut : x.foldl markStep none = none
  blank : x.getLast?.all isBlank

open Line (stripNameQuotes)
open Escapes (onePass)

/-- Code without backticks stays. -/
theorem stripNameQuotes_code {c : Text} (hc : ∀ d ∈ c, isQuote d = false) (hname : '\x60' ∉ c)
    (t : Text) : stripNameQuotes (c ++ t) = c ++ stripNameQuotes t := by
  have hfilter : c.filter (· != '\x60') = c := by
    refine List.filter_eq_self.mpr fun d hd => ?_
    rw [bne_iff_ne]
    rintro rfl
    exact hname hd
  rw [stripNameQuotes, mapCode_filter_append _ hc, hfilter]
  rfl

theorem not_mem_blank {c : Char} (hx : ∀ d ∈ x, isBlank d) (hc : isBlank c = false) :
    c ∉ x := by
  intro hmem
  simp [hx c hmem] at hc

/-- Backticks are not part of an enumeration, unless in its literals. -/
theorem stripNameQuotes_text (e : Enumeration .mysql) (t : Text) :
    stripNameQuotes (e.text ++ t) = e.text ++ stripNameQuotes t := by
  have hliteral : ∀ (item : Item .mysql) (y : Text), y.head?.any isQuote = false →
      stripNameQuotes (item.literal ++ y) = item.literal ++ stripNameQuotes y := by
    intro item y hy
    refine item.isLiteral.mapCode_append _ fun hmark => ?_
    rw [hmark] at hy
    exact absurd hy (by decide)
  have hafter : ∀ (trail : Text) (items : List (Item .mysql)), (∀ c ∈ trail, isBlank c) →
      stripNameQuotes (after trail items ++ t) = after trail items ++ stripNameQuotes t := by
    intro trail items htrail
    induction items generalizing trail with
    | nil =>
      refine stripNameQuotes_code ?_ ?_ t
      · exact List.forall_mem_append.mpr ⟨isQuote_of_blank htrail, by decide⟩
      · rw [after]
        simpa using not_mem_blank htrail (show isBlank '\x60' = false by decide)
    | cons item items ih =>
      have hlead := item.lead_blank
      have hname : '\x60' ∉ trail ++ ',' :: item.lead := by
        have hbacktick : isBlank '\x60' = false := by decide
        simpa using ⟨not_mem_blank htrail hbacktick, not_mem_blank hlead hbacktick⟩
      rw [after_cons_append, stripNameQuotes_code (isQuote_between htrail item) hname,
        hliteral item _ (isQuote_head?_after item.trail_blank items t), ih _ item.trail_blank,
        after_cons_append]
  have hname : '\x60' ∉ e.head ++ e.first.lead := by
    intro hmem
    exact absurd (e.mem_front hmem) (by decide)
  rw [text_append, stripNameQuotes_code e.isQuote_front hname,
    hliteral _ _ (isQuote_head?_after e.first.trail_blank e.others t),
    hafter _ _ e.first.trail_blank, text_append]

/-- **Blocks of the dump** become text of the script that leaves no literal open. -/
theorem DumpBlocks.exists_script (h : DumpBlocks x) (hblank : x.getLast?.all isBlank)
    (ht : t.head?.any isQuote = false) : ∃ y z, stripNameQuotes (x ++ t) = y ++ stripNameQuotes t ∧
      (∀ u, onePass (y ++ u) = z ++ onePass u) ∧ z.foldl markStep none = none ∧
      z.getLast? = x.getLast? := by
  have hrun : ∀ c : Text, (∀ d ∈ c, isQuote d = false) → '\\' ∉ c →
      (∀ u, onePass (c.filter (· != '\x60') ++ u) = c.filter (· != '\x60') ++ onePass u) ∧
        (c.filter (· != '\x60')).foldl markStep none = none := by
    intro c hc hplain
    refine ⟨Escapes.onePass_append fun hmem => hplain (List.mem_of_mem_filter hmem), ?_⟩
    exact foldl_markStep_code (fun d hd => hc d (List.mem_of_mem_filter hd)) none
  induction h with
  | @code c hc hplain =>
    obtain ⟨hpass, hshut⟩ := hrun c hc hplain
    refine ⟨_, _, mapCode_filter_append _ hc t, hpass, hshut, ?_⟩
    rcases List.eq_nil_or_concat c with rfl | ⟨c, d, rfl⟩
    · rfl
    · have hd : isBlank d := by simpa using hblank
      have hkept : (d != '\x60') := by
        rw [bne_iff_ne]
        rintro rfl
        exact absurd hd (by decide)
      simp [List.filter_append, hkept]
  | @literal m c t' x hc hplain ht' hm hnext rest ih =>
    rw [getLast?_literal_append ht'] at hblank
    have hblank' : x.getLast?.all isBlank := by
      cases hlast : x.getLast? with
      | none => rfl
      | some d => simpa [hlast] using hblank
    obtain ⟨y, z, hy, hz, hshut, hlast⟩ := ih hblank'
    obtain ⟨hpass, hcode⟩ := hrun c hc hplain
    have hnext' : (x ++ t).head? ≠ some m := by
      cases x with
      | nil =>
        intro hmark
        rw [List.nil_append] at hmark
        rw [hmark] at ht
        simp [ht'.isQuote] at ht
      | cons d x => exact hnext
    refine ⟨c.filter (· != '\x60') ++ (t' ++ y), c.filter (· != '\x60') ++ (onePass t' ++ z),
      ?_, ?_, ?_, ?_⟩
    · rw [List.append_assoc, stripNameQuotes, mapCode_filter_append _ hc, List.append_assoc,
        ht'.mapCode_append _ hnext']
      have hrest : mapCode .mysql (fun code => code.filter (· != '\x60')) (x ++ t) = _ := hy
      rw [hrest]
      simp only [List.append_assoc]
    · intro u
      rw [List.append_assoc, hpass, List.append_assoc, ht'.onePass_append, hz]
      simp only [List.append_assoc]
    · rw [List.foldl_append, hcode, List.foldl_append, (ht'.onePass hm).foldl_markStep, hshut]
    · rw [getLast?_literal_append (ht'.onePass hm), getLast?_literal_append ht', hlast]

/-- **The enumerations of the dump** stand on the line of the script. -/
theorem Placed.script {es : List (Enumeration .mysql)} (h : Placed DumpGap es t)
    (hnul : '\x00' ∉ t) :
    Placed ScriptGap (es.map Enumeration.script) (Line.normalizeEscapes (stripNameQuotes t)) := by
  have hnul' : '\x00' ∉ stripNameQuotes t :=
    not_mem_mapCode (fun s hs hmem => hs (List.mem_of_mem_filter hmem)) hnul
  rw [Escapes.normalizeEscapes_eq_onePass hnul']
  refine h.map (C := fun _ => True) (f := fun t => onePass (stripNameQuotes t)) ?_ trivial
  intro x hx e _ t _
  obtain ⟨y, z, hy, hz, hshut, hlast⟩ :=
    hx.blocks.exists_script hx.blank (e.isQuote_head?_text t)
  refine ⟨trivial, z, ⟨hshut, by rw [hlast]; exact hx.blank⟩, ?_⟩
  rw [hy, hz, stripNameQuotes_text, onePass_text]

/-! ## Maps of the script -/

/-- `e.Carried f x t`: the map goes over the gap `x` and the enumeration on their own, and the
gap keeps its end. -/
def Carried (e : Enumeration .standard) (f : Text → Text) (x t : Text) : Prop :=
  ∃ z, ScriptGap z ∧ z.getLast? = x.getLast? ∧ f (x ++ (e.text ++ t)) = z ++ (e.text ++ f t)

/-- **A map that carries every enumeration** keeps them all in their places. -/
theorem Placed.carried {es : List (Enumeration .standard)} {C : Text → Prop} {f : Text → Text}
    (hf : ∀ x, ScriptGap x → ∀ e ∈ es, ∀ t, C (x ++ (e.text ++ t)) → C t ∧ e.Carried f x t)
    (h : Placed ScriptGap es t) (hC : C t) : Placed ScriptGap es (f t) := by
  have hmap : Placed ScriptGap (es.map id) (f t) := by
    refine h.map (fun x hx e he t ht => ?_) hC
    obtain ⟨hrest, z, hz, -, heq⟩ := hf x hx e he t ht
    exact ⟨hrest, z, hz, heq⟩
  rwa [List.map_id] at hmap

end Enumeration
end DumpBridge
