import DumpBridge.Proofs.Enum.Whole
import DumpBridge.Proofs.Line.TypeText

/-!
# Sets beside enumerations

A `SET` with its list of literals is replaced as a whole.  If every `SET` starts outside
literals and none of them holds an enumeration (`setsApart`), those in a gap end in the
gap, and there are none in an enumeration.  So the enumerations stay in their places
(`placed_setPieces`).
-/

namespace DumpBridge.Enumeration

open Text (Pattern isBlank isWord)
open Text.Pattern
open Literal
open ColumnType (setText setsToText)

/-- Whether, among the pieces of a line, calls start outside literals and hold no enumeration;
`mark` is the literal that is open before them. -/
def setsApart : Option Char → List Piece → Bool
  | _, [] => true
  | mark, .plain t :: pieces => setsApart (t.foldl markStep mark) pieces
  | mark, .call _ inside :: pieces =>
    mark.isNone && !EnumType.opener.occurs inside && setsApart none pieces

variable {mark before : Option Char} {u v w t : Text} {es : List (Enumeration .standard)}

/-- The pieces of a text in which sets are looked for. -/
def setPieces (before : Option Char) (t : Text) : List Piece :=
  piecesFrom .standard (callOpener "SET") before 0 t

/-- A line with its `SET` types changed, by its pieces. -/
theorem setsToText_eq_setPieces (line : Text) :
    setsToText line = (setPieces none line).flatMap setText :=
  ColumnType.setsToText_eq line

theorem isKeyword_set : isKeyword "SET".toList := by decide

theorem setsApart_pushPlain (c : Char) (pieces : List Piece) :
    setsApart mark (pushPlain c pieces) = setsApart (markStep mark c) pieces := by
  rcases pieces with _ | ⟨t | ⟨head, inside⟩, pieces⟩ <;> rfl

/-- What can happen at the beginning of a text whose sets are apart. -/
theorem setPieces_cases (c : Char) (t : Text) (h : setsApart mark (setPieces before (c :: t))) :
    (setsApart (markStep mark c) (setPieces (some c) t) ∧
      (setPieces before (c :: t)).flatMap setText = c :: (setPieces (some c) t).flatMap setText) ∨
    (setPieces before (c :: t)).flatMap setText = c :: t ∨
    ∃ head inner r, c :: t = head ++ (inner ++ ')' :: r) ∧
      (callOpener "SET").Takes before head (inner ++ ')' :: r) ∧ Balanced .standard inner ∧
      mark = none ∧ EnumType.opener.occurs inner = false ∧
      setsApart none (setPieces (some ')') r) ∧
      (setPieces before (c :: t)).flatMap setText =
        setText (.call head inner) ++ (setPieces (some ')') r).flatMap setText := by
  rcases piecesFrom_cases .standard isKeyword_set before c t with
    ⟨-, hplain⟩ | hrest | ⟨head, inner, r, hsplit, htakes, hbalanced, hcall⟩
  · refine Or.inl ⟨?_, ?_⟩
    · rwa [setPieces, hplain, setsApart_pushPlain] at h
    · rw [setPieces, hplain, ColumnType.flatMap_setText_pushPlain]
      rfl
  · refine Or.inr (Or.inl ?_)
    rw [setPieces, hrest]
    simp [setText]
  · rw [setPieces, hcall, setsApart, Bool.and_eq_true, Bool.and_eq_true, Bool.not_eq_true'] at h
    refine Or.inr (Or.inr ⟨head, inner, r, hsplit, htakes, hbalanced, ?_, h.1.2, h.2, ?_⟩)
    · simpa using h.1.1
    · rw [setPieces, hcall, List.flatMap_cons]
      rfl

/-- **An enumeration has no sets.**  What follows it goes on as from outside literals. -/
theorem exists_flatMap_text (e : Enumeration .standard) (others : Placed ScriptGap es t)
    (hrest : ∀ before, setsApart none (setPieces before t) →
      Placed ScriptGap es ((setPieces before t).flatMap setText))
    (hcut : e.text = u ++ w) (h : setsApart (u.foldl markStep none) (setPieces before (w ++ t))) :
    ∃ r, Placed ScriptGap es r ∧ (setPieces before (w ++ t)).flatMap setText = w ++ r := by
  induction w generalizing u before with
  | nil =>
    rw [List.append_nil] at hcut
    rw [← hcut, e.foldl_text] at h
    exact ⟨_, hrest before h, rfl⟩
  | cons c w ih =>
    have hcut' : e.text = (u ++ [c]) ++ w := by simpa using hcut
    rw [List.cons_append] at h ⊢
    rcases setPieces_cases c (w ++ t) h with
      ⟨happart, htext⟩ | htext | ⟨head, inner, r, hsplit, htakes, -, hmark, -⟩
    · have hstep : markStep (u.foldl markStep none) c = (u ++ [c]).foldl markStep none := by
        rw [List.foldl_append]
        rfl
      rw [hstep] at happart
      obtain ⟨r, hr, htext'⟩ := ih hcut' happart
      exact ⟨r, hr, by rw [htext, htext', List.cons_append]⟩
    · exact ⟨t, others, htext⟩
    · have hfits : (callOpener "SET").Fits before ((c :: w) ++ t) := ⟨_, _, hsplit, htakes⟩
      exact absurd hfits (e.not_fits_outside (by decide +kernel) hcut (by simp) hmark)

/-- **A set that starts in a gap** ends in the gap, since it holds no enumeration. -/
theorem exists_gap_of_call (e : Enumeration .standard) (hne : v ≠ [])
    (hblank : v.getLast?.all isBlank) {head inner r : Text}
    (hsplit : v ++ (e.text ++ t) = head ++ (inner ++ ')' :: r))
    (htakes : (callOpener "SET").Takes before head (inner ++ ')' :: r))
    (hnone : EnumType.opener.occurs inner = false) :
    ∃ v', v' ≠ [] ∧ v = head ++ (inner ++ ')' :: v') ∧ r = v' ++ (e.text ++ t) := by
  have hlt := length_lt_of_isApart (by decide +kernel) hne hblank (e.head?_text t) htakes hsplit
  obtain ⟨v, rfl⟩ : head <+: v := by
    refine List.prefix_of_prefix_length_le ?_ (List.prefix_append v (e.text ++ t))
      (Nat.le_of_lt hlt)
    rw [hsplit]
    exact List.prefix_append _ _
  have hv : v ≠ [] := by
    rintro rfl
    simp at hlt
  rw [getLast?_suffix hv] at hblank
  rw [List.append_assoc, List.append_cancel_left_eq] at hsplit
  rcases append_cons_split hsplit.symm with ⟨v', rfl⟩ | ⟨s, hinner, htext⟩
  · refine ⟨v', ?_, rfl, ?_⟩
    · rintro rfl
      rw [List.getLast?_concat] at hblank
      exact absurd hblank (by decide)
    · rw [List.append_assoc, List.append_cancel_left_eq, List.cons_append] at hsplit
      exact (List.cons.inj hsplit).2.symm
  · -- Otherwise the set holds the word of the enumeration and its parenthesis.
    have hparen : ')' ∉ e.head := by
      intro hmem
      exact absurd (e.mem_front (List.mem_append_left _ hmem)) (by decide)
    rw [text, List.append_assoc] at htext
    obtain ⟨s, rfl, -⟩ := Text.exists_append_of_not_mem hparen htext.symm
    have hbefore : (v.getLast?.or none).any isWord = false := any_getLast?_of_blank hblank rfl
    rw [Option.or_none] at hbefore
    have hoccurs : EnumType.opener.occurs inner :=
      occurs_iff.mpr ⟨v, _, hinner, e.head, s, rfl, e.takes_head hbefore s⟩
    simp [hnone] at hoccurs

/-- No literal is open after a balanced text. -/
theorem foldl_markStep_balanced {inner : Text} (h : Balanced .standard inner) :
    inner.foldl markStep none = none := by
  have hmarks := (lexed_lexemes .standard inner).foldl_markStep rfl
  rwa [flatMap_text_lexemes, h.outside] at hmarks

/-- What a set becomes, and the set itself, leave no literal open. -/
theorem foldl_markStep_call {head inner r : Text}
    (htakes : (callOpener "SET").Takes before head (inner ++ ')' :: r))
    (hbalanced : Balanced .standard inner) :
    (head ++ (inner ++ [')'])).foldl markStep none = none ∧
      (setText (.call head inner)).foldl markStep none = none := by
  have hcode : ∀ c ∈ head, isQuote c = false := by
    obtain ⟨-, w, gap, rfl, hw, hgap⟩ := (takes_callOpener isKeyword_set).mp htakes
    refine List.forall_mem_append.mpr ⟨fun c hc => ?_,
      List.forall_mem_append.mpr ⟨isQuote_of_blank hgap, by decide⟩⟩
    cases hquote : isQuote c with
    | false => rfl
    | true =>
      have hword := (isWord_of_spells isKeyword_set hw).2 c hc
      simp [isWord_of_isQuote hquote] at hword
  have hcall : (head ++ (inner ++ [')'])).foldl markStep none = none := by
    rw [List.foldl_append, foldl_markStep_code hcode, List.foldl_append,
      foldl_markStep_balanced hbalanced]
    decide
  refine ⟨hcall, ?_⟩
  rw [setText]
  split
  · decide
  · simpa [Piece.text] using hcall

/-- **A gap with sets** stays a gap, with its end. -/
theorem exists_flatMap_gap (e : Enumeration .standard) (others : Placed ScriptGap es t)
    (hrest : ∀ before, setsApart none (setPieces before t) →
      Placed ScriptGap es ((setPieces before t).flatMap setText))
    (hshut : v.foldl markStep mark = none) (hblank : v.getLast?.all isBlank)
    (h : setsApart mark (setPieces before (v ++ (e.text ++ t)))) :
    ∃ z r, z.foldl markStep mark = none ∧ z.getLast? = v.getLast? ∧ Placed ScriptGap es r ∧
      (setPieces before (v ++ (e.text ++ t))).flatMap setText = z ++ (e.text ++ r) := by
  -- The induction is on the length of the gap, since a set is passed at once.
  induction hlength : v.length using Nat.strongRecOn generalizing v mark before with
  | ind n ih =>
    cases v with
    | nil =>
      obtain rfl : mark = none := hshut
      obtain ⟨r, hr, htext⟩ := e.exists_flatMap_text others hrest (u := []) rfl h
      exact ⟨[], r, rfl, rfl, hr, htext⟩
    | cons c v =>
      rw [List.cons_append] at h ⊢
      rcases setPieces_cases c _ h with
        ⟨happart, htext⟩ | htext | ⟨head, inner, r, hsplit, htakes, hbalanced, rfl, hnone,
          happart, htext⟩
      · have hblank' : v.getLast?.all isBlank := by
          cases hlast : v.getLast? with
          | none => rfl
          | some d => simpa [List.getLast?_cons, hlast] using hblank
        have hshut' : v.foldl markStep (markStep mark c) = none := hshut
        obtain ⟨z, r, hz, hlast, hr, htext'⟩ :=
          ih v.length (by simp [← hlength]) hshut' hblank' happart rfl
        refine ⟨c :: z, r, hz, ?_, hr, by rw [htext, htext', List.cons_append]⟩
        rw [List.getLast?_cons, List.getLast?_cons, hlast]
      · exact ⟨c :: v, t, hshut, rfl, others, by rw [htext, List.cons_append]⟩
      · obtain ⟨v', hv', hcut, rfl⟩ :=
          e.exists_gap_of_call (v := c :: v) (by simp) hblank hsplit htakes hnone
        obtain ⟨hcall, hset⟩ := foldl_markStep_call htakes hbalanced
        have hcut' : c :: v = head ++ (inner ++ [')']) ++ v' := by
          rw [hcut]
          simp
        rw [hcut', List.foldl_append, hcall] at hshut
        rw [hcut', getLast?_suffix hv'] at hblank ⊢
        have hshorter : v'.length < n := by
          rw [← hlength, hcut']
          simp
          omega
        obtain ⟨z, r, hz, hlast, hr, htext'⟩ := ih v'.length hshorter hshut hblank happart rfl
        refine ⟨setText (.call head inner) ++ z, r, ?_, ?_, hr, ?_⟩
        · rw [List.foldl_append, hset, hz]
        · rw [List.getLast?_append, hlast, List.getLast?_eq_some_getLast hv']
          rfl
        · rw [htext, htext', List.append_assoc]

/-- **Sets that are apart** from enumerations leave these in their places. -/
theorem placed_setPieces (h : Placed ScriptGap es t)
    (happart : setsApart none (setPieces before t)) :
    Placed ScriptGap es ((setPieces before t).flatMap setText) := by
  induction h generalizing before with
  | rest t => exact .rest _
  | cons hx e others ih =>
    obtain ⟨z, r, hshut, hlast, hr, htext⟩ :=
      e.exists_flatMap_gap others (fun _ => ih) hx.shut hx.blank happart
    rw [htext]
    exact .cons ⟨hshut, by rw [hlast]; exact hx.blank⟩ e hr

end DumpBridge.Enumeration
