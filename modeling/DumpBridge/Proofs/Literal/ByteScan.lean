import DumpBridge.Proofs.Literal.Blocks
import DumpBridge.Proofs.Literal.Items
import DumpBridge.Proofs.Literal.Matching
import DumpBridge.Proofs.Text.Boundaries
import DumpBridge.Proofs.Text.Characters

/-!
# Scanning bytes

A line may be scanned byte by byte.  The scan then reads the text `bytesAsChars t`, in
which each byte is a character, and an escape takes one byte only, so that the scan may
go on in the middle of a character.  What it looks for is in ASCII, and no byte in the
middle of a character is.  So the bytes that are left over stand inside the literal,
where a scan by characters has the whole character behind the escape (`Lexeme.bytes`),
and the two scans read the same (`lexemes_bytesAsChars`).

From this, the segments, the items and the parentheses found among the bytes are those
found among the characters.  `byte_cuts_at_boundaries` puts this together: all offsets
are boundaries of characters, and no slice between them fails.
-/

namespace DumpBridge.Literal

open Text (bytesAsChars byteLength bytesAsChars_singleton bytesAsChars_append
  bytesAsChars_ne_nil eq_of_mem_bytesAsChars le_of_mem_tail_bytesAsChars length_bytesAsChars)

variable {q : Quoting} {mark : Option Char} {b c m : Char} {l : Lexeme} {ls : List Lexeme}
  {t : Text}

/-! ## Bytes of lexemes -/

/-- What a scan over bytes makes of a lexeme.  Each byte of a character stands alone; an
escape takes one byte, and the others of the escaped character stand inside the literal. -/
def Lexeme.bytes : Lexeme → List Lexeme
  | code c => (bytesAsChars [c]).map code
  | inside c => (bytesAsChars [c]).map inside
  | pair c (some d) => pair c (bytesAsChars [d]).head? :: (bytesAsChars [d]).tail.map inside
  | l => [l]

/-- The mark or escape that makes the lexeme what it is, is in ASCII. -/
def Lexeme.Narrow : Lexeme → Prop
  | opening c => c.toNat < 0x80
  | pair c _ => c.toNat < 0x80
  | closing c => c.toNat < 0x80
  | _ => True

/-- Quote marks are ASCII. -/
theorem toNat_lt_of_isQuote (h : isQuote c) : c.toNat < 0x80 := by
  rw [isQuote, Bool.or_eq_true, decide_eq_true_iff, decide_eq_true_iff] at h
  rcases h with rfl | rfl <;> decide

theorem toNat_lt_of_escapes (h : q.escapes c) : c.toNat < 0x80 := by
  rw [Quoting.escapes, Bool.and_eq_true, decide_eq_true_iff, decide_eq_true_iff] at h
  rw [h.2]
  decide

/-- Among the bytes of a character that is no quote mark there is none. -/
theorem isQuote_of_mem_bytesAsChars (hc : isQuote c = false) (hb : b ∈ bytesAsChars [c]) :
    isQuote b = false := by
  refine Bool.eq_false_iff.mpr fun hquote => ?_
  rw [← eq_of_mem_bytesAsChars hb (toNat_lt_of_isQuote hquote), hquote] at hc
  exact Bool.noConfusion hc

/-- **The lexemes of a scan are narrow**: what steers the scan is ASCII. -/
theorem Lexed.narrow (h : Lexed q mark ls) (hmark : mark.all isQuote) :
    ∀ l ∈ ls, l.Narrow := by
  induction h with
  | nil => simp
  | code _ _ ih => exact List.forall_mem_cons.mpr ⟨trivial, ih rfl⟩
  | opening hc _ ih => exact List.forall_mem_cons.mpr ⟨toNat_lt_of_isQuote hc, ih hc⟩
  | inside _ _ _ ih => exact List.forall_mem_cons.mpr ⟨trivial, ih hmark⟩
  | doubled _ _ ih => exact List.forall_mem_cons.mpr ⟨toNat_lt_of_isQuote hmark, ih hmark⟩
  | escape he _ ih => exact List.forall_mem_cons.mpr ⟨toNat_lt_of_escapes he, ih hmark⟩
  | escapeAtEnd he hend =>
    subst hend
    exact List.forall_mem_cons.mpr ⟨toNat_lt_of_escapes he, by simp⟩
  | closing _ _ _ ih => exact List.forall_mem_cons.mpr ⟨toNat_lt_of_isQuote hmark, ih rfl⟩

theorem flatMap_text_inside (x : Text) : (x.map Lexeme.inside).flatMap Lexeme.text = x := by
  induction x with
  | nil => rfl
  | cons c x ih => simpa [Lexeme.text] using ih

/-- The bytes of a lexeme have the bytes of its text. -/
theorem Lexeme.Narrow.flatMap_text_bytes (h : l.Narrow) :
    l.bytes.flatMap Lexeme.text = bytesAsChars l.text := by
  cases l with
  | code c => exact flatMap_text_code _
  | inside c => exact flatMap_text_inside _
  | opening c | closing c => exact (bytesAsChars_singleton h).symm
  | pair c d =>
    cases d with
    | none => exact (bytesAsChars_singleton h).symm
    | some d =>
      obtain ⟨b, bs, hd⟩ := List.exists_cons_of_ne_nil (bytesAsChars_ne_nil d)
      have htext : bytesAsChars (Lexeme.pair c (some d)).text = c :: bytesAsChars [d] := by
        rw [Lexeme.text, Text.bytesAsChars_cons, bytesAsChars_singleton h]
        rfl
      rw [htext, hd, Lexeme.bytes, hd, List.flatMap_cons, List.head?_cons, List.tail_cons,
        flatMap_text_inside]
      rfl

/-- The text of the bytes of lexemes is the bytes of their text. -/
theorem flatMap_text_flatMap_bytes (h : ∀ l ∈ ls, l.Narrow) :
    (ls.flatMap Lexeme.bytes).flatMap Lexeme.text = bytesAsChars (ls.flatMap Lexeme.text) := by
  induction ls with
  | nil => rfl
  | cons l ls ih =>
    obtain ⟨hl, hls⟩ := List.forall_mem_cons.mp h
    rw [List.flatMap_cons, List.flatMap_append, hl.flatMap_text_bytes, ih hls, List.flatMap_cons,
      bytesAsChars_append]

/-! ## The scan over bytes -/

/-- Code in front of lexemes is scanned as code. -/
theorem Lexed.map_code_append {x : Text} (hx : ∀ c ∈ x, isQuote c = false) (h : Lexed q none ls) :
    Lexed q none (x.map .code ++ ls) := by
  induction x with
  | nil => exact h
  | cons c x ih =>
    obtain ⟨hc, hx⟩ := List.forall_mem_cons.mp hx
    exact .code hc (ih hx)

/-- So are characters inside a literal that neither close it nor escape. -/
theorem Lexed.map_inside_append {x : Text} (hx : ∀ c ∈ x, q.escapes c = false ∧ c ≠ m)
    (h : Lexed q (some m) ls) : Lexed q (some m) (x.map .inside ++ ls) := by
  induction x with
  | nil => exact h
  | cons c x ih =>
    obtain ⟨⟨he, hc⟩, hx⟩ := List.forall_mem_cons.mp hx
    exact .inside he hc (ih hx)

/-- **The bytes of lexemes are lexemes of bytes.**  The induction is on the rules.  Where an escape
takes the first byte of a character, the other bytes are no quote marks and no escapes, so the
literal goes on. -/
theorem Lexed.bytes (h : Lexed q mark ls) (hmark : mark.all isQuote) :
    Lexed q mark (ls.flatMap Lexeme.bytes) := by
  -- A byte is an escape or a mark only if the character is.
  have hplain : ∀ {b c m}, isQuote m → b ∈ bytesAsChars [c] →
      q.escapes c = false → c ≠ m → q.escapes b = false ∧ b ≠ m := by
    intro b c m hm hb he hc
    constructor
    · refine Bool.eq_false_iff.mpr fun hescapes => ?_
      rw [← eq_of_mem_bytesAsChars hb (toNat_lt_of_escapes hescapes), hescapes] at he
      exact Bool.noConfusion he
    · intro hbm
      rw [hbm] at hb
      exact hc (eq_of_mem_bytesAsChars hb (toNat_lt_of_isQuote hm)).symm
  induction h with
  | nil mark => exact .nil mark
  | code hc _ ih => exact (ih rfl).map_code_append fun b hb => isQuote_of_mem_bytesAsChars hc hb
  | opening hc _ ih => exact .opening hc (ih hc)
  | inside he hc _ ih => exact (ih hmark).map_inside_append fun b hb => hplain hmark hb he hc
  | @doubled m ls he _ ih =>
    have hm : bytesAsChars [m] = [m] := bytesAsChars_singleton (toNat_lt_of_isQuote hmark)
    rw [List.flatMap_cons, Lexeme.bytes, hm]
    exact .doubled he (ih hmark)
  | @escape m c d ls he _ ih =>
    obtain ⟨b, bs, hd⟩ := List.exists_cons_of_ne_nil (bytesAsChars_ne_nil d)
    have hbs : ∀ e ∈ bs, q.escapes e = false ∧ e ≠ m := by
      intro e hmem
      have hlarge : 0x80 ≤ e.toNat :=
        le_of_mem_tail_bytesAsChars (c := d) (by rw [hd]; exact hmem)
      refine ⟨Bool.eq_false_iff.mpr fun hescapes => ?_, fun hm => ?_⟩
      · have := toNat_lt_of_escapes hescapes
        omega
      · have := toNat_lt_of_isQuote (c := m) hmark
        rw [hm] at hlarge
        omega
    rw [List.flatMap_cons, Lexeme.bytes, hd]
    exact .escape he ((ih hmark).map_inside_append hbs)
  | escapeAtEnd he hend =>
    subst hend
    exact .escapeAtEnd he rfl
  | @closing m ls he hnext rest ih =>
    rw [List.flatMap_cons]
    change Lexed q (some m) (.closing m :: ls.flatMap Lexeme.bytes)
    refine .closing he ?_ (ih rfl)
    rw [flatMap_text_flatMap_bytes (rest.narrow rfl), ne_eq,
      Text.head?_bytesAsChars (toNat_lt_of_isQuote hmark)]
    exact hnext

theorem narrow_lexemes (q : Quoting) (t : Text) : ∀ l ∈ lexemes q t, l.Narrow :=
  (lexed_lexemes q t).narrow rfl

/-- **A scan over bytes** reads a text as the scan over characters does, each lexeme as
its bytes. -/
theorem lexemes_bytesAsChars (q : Quoting) (t : Text) :
    lexemes q (bytesAsChars t) = (lexemes q t).flatMap Lexeme.bytes := by
  refine lexemes_eq_iff.mpr ⟨(lexed_lexemes q t).bytes rfl, ?_⟩
  rw [flatMap_text_flatMap_bytes (narrow_lexemes q t), flatMap_text_lexemes]

/-! ## Segments -/

/-- The segment with the bytes of its text for characters. -/
def Segment.bytes : Segment → Segment
  | code t => .code (bytesAsChars t)
  | literal t => .literal (bytesAsChars t)

theorem Segment.text_bytes (s : Segment) : s.bytes.text = bytesAsChars s.text := by
  cases s <;> rfl

/-- Characters of code join the code that follows them. -/
theorem foldr_before_code (x t : Text) (segs : List Segment) :
    (x.map Lexeme.code).foldr Lexeme.before (.code t :: segs) = .code (x ++ t) :: segs := by
  induction x with
  | nil => rfl
  | cons c x ih => rw [List.map_cons, List.foldr_cons, ih]; rfl

/-- The bytes of a character of code join segments as the character does. -/
theorem foldr_before_bytes_code (c : Char) (segs : List Segment) :
    (Lexeme.code c).bytes.foldr Lexeme.before (segs.map Segment.bytes) =
      ((Lexeme.code c).before segs).map Segment.bytes := by
  -- The last byte joins the code that follows, if any, and the others join the last one.
  obtain ⟨x, d, hc⟩ : ∃ x d, bytesAsChars [c] = x ++ [d] :=
    ⟨_, _, (List.dropLast_concat_getLast (bytesAsChars_ne_nil c)).symm⟩
  have hcode : ∀ u, bytesAsChars (c :: u) = x ++ d :: bytesAsChars u := by
    intro u
    rw [Text.bytesAsChars_cons, hc, List.append_assoc]
    rfl
  rw [Lexeme.bytes, hc, List.map_append, List.foldr_append]
  cases segs with
  | nil =>
    change (x.map Lexeme.code).foldr Lexeme.before [.code [d]] = [.code (bytesAsChars [c])]
    rw [foldr_before_code, hc]
  | cons s segs =>
    cases s with
    | literal t =>
      change (x.map Lexeme.code).foldr Lexeme.before (.code [d] :: _) =
        .code (bytesAsChars [c]) :: _
      rw [foldr_before_code, hc]
      rfl
    | code t =>
      change (x.map Lexeme.code).foldr Lexeme.before (.code (d :: bytesAsChars t) :: _) =
        .code (bytesAsChars (c :: t)) :: _
      rw [foldr_before_code, hcode]

/-- The bytes of what is inside a literal are inside it. -/
theorem Lexeme.isInner_bytes (h : l.isInner) : ∀ k ∈ l.bytes, k.isInner := by
  intro k hk
  cases l with
  | code | opening | closing => simp [Lexeme.isInner] at h
  | inside c =>
    obtain ⟨b, -, rfl⟩ := List.mem_map.mp hk
    rfl
  | pair c d =>
    cases d with
    | none => rw [List.mem_singleton.mp hk, h]
    | some d =>
      rcases List.mem_cons.mp hk with rfl | hk
      · rfl
      · obtain ⟨b, -, rfl⟩ := List.mem_map.mp hk
        rfl

/-- **Segments of bytes**: a character of code and a literal become their bytes. -/
theorem Lexed.segmentsOf_bytes (h : Lexed q none ls) :
    segmentsOf (ls.flatMap Lexeme.bytes) = (segmentsOf ls).map Segment.bytes := by
  -- The bytes of what stands inside a literal stand inside it.
  have hinside : ∀ body : List Lexeme, (∀ l ∈ body, l.isInner) →
      ∀ l ∈ body.flatMap Lexeme.bytes, l.isInner := by
    intro body hinner k hk
    obtain ⟨l, hl, hk⟩ := List.mem_flatMap.mp hk
    exact Lexeme.isInner_bytes (hinner l hl) k hk
  induction h using Lexed.blockInduction with
  | nil => rfl
  | @code c ls _ _ ih =>
    rw [List.flatMap_cons, segmentsOf, List.foldr_append, ← segmentsOf, ih, foldr_before_bytes_code]
    rfl
  | @openLiteral m body hm inner hinner =>
    have hsmall := toNat_lt_of_isQuote hm
    rw [List.flatMap_cons]
    change segmentsOf (.opening m :: body.flatMap Lexeme.bytes) = _
    rw [segmentsOf_openLiteral (hinside body hinner), segmentsOf_openLiteral hinner,
      flatMap_text_flatMap_bytes (inner.narrow hm), List.map_singleton, Segment.bytes,
      Text.bytesAsChars_cons m, bytesAsChars_singleton hsmall]
    rfl
  | @literal m body ls hm inner hinner rest ih =>
    have hsmall := toNat_lt_of_isQuote hm
    have hbody : ∀ l ∈ body, l.Narrow := fun l hl => inner.narrow hm l (by simp [hl])
    rw [List.flatMap_cons, List.flatMap_append, List.flatMap_cons]
    change segmentsOf (.opening m :: (body.flatMap Lexeme.bytes ++
      .closing m :: ls.flatMap Lexeme.bytes)) = _
    rw [segmentsOf_literal (hinside body hinner), segmentsOf_literal hinner, ih,
      flatMap_text_flatMap_bytes hbody, List.map_cons, Segment.bytes, Text.bytesAsChars_cons m,
      bytesAsChars_append, bytesAsChars_singleton hsmall]
    rfl

/-- **A scan of bytes finds the same segments**, as bytes. -/
theorem segments_bytesAsChars (q : Quoting) (t : Text) :
    segments q (bytesAsChars t) = (segments q t).map Segment.bytes := by
  rw [segments_eq_segmentsOf, segments_eq_segmentsOf, lexemes_bytesAsChars,
    (lexed_lexemes q t).segmentsOf_bytes]

/-! ## Items -/

/-- A byte of code that is in ASCII is a character of code. -/
theorem eq_of_code_mem_bytes (hc : c.toNat < 0x80) (h : .code c ∈ l.bytes) : l = .code c := by
  cases l with
  | code d =>
    obtain ⟨b, hb, heq⟩ := List.mem_map.mp h
    obtain rfl := Lexeme.code.inj heq
    rw [eq_of_mem_bytesAsChars hb hc]
  | inside | opening | closing => simp [Lexeme.bytes] at h
  | pair d e =>
    cases e with
    | none => simp [Lexeme.bytes] at h
    | some e =>
      rcases List.mem_cons.mp h with h | h
      · cases h
      · obtain ⟨b, -, hb⟩ := List.mem_map.mp h
        cases hb

theorem bytes_code (hc : c.toNat < 0x80) : (Lexeme.code c).bytes = [.code c] := by
  rw [Lexeme.bytes, bytesAsChars_singleton hc]
  rfl

/-- The bytes of a lexeme do to items what the lexeme does. -/
theorem Lexeme.Narrow.foldr_beforeItems_bytes (h : l.Narrow) (item : Text) (items : List Text) :
    l.bytes.foldr Lexeme.beforeItems ((item :: items).map bytesAsChars) =
      (l.beforeItems (item :: items)).map bytesAsChars := by
  by_cases hl : l = .code ','
  · subst hl
    rw [bytes_code (by decide)]
    rfl
  · have hcomma : .code ',' ∉ l.bytes := fun hmem => hl (eq_of_code_mem_bytes (by decide) hmem)
    rw [List.map_cons, foldr_beforeItems_of_not_mem hcomma, h.flatMap_text_bytes,
      beforeItems_of_ne hl, List.map_cons, bytesAsChars_append]

/-- **A scan of bytes finds the same items**, as bytes. -/
theorem items_bytesAsChars (q : Quoting) (t : Text) :
    items q (bytesAsChars t) = (items q t).map bytesAsChars := by
  have hitems : ∀ ls : List Lexeme, (∀ l ∈ ls, l.Narrow) →
      (ls.flatMap Lexeme.bytes).foldr Lexeme.beforeItems [[]] =
        (ls.foldr Lexeme.beforeItems [[]]).map bytesAsChars := by
    intro ls hls
    induction ls with
    | nil => rfl
    | cons l ls ih =>
      obtain ⟨hl, hls⟩ := List.forall_mem_cons.mp hls
      obtain ⟨item, items, hrest⟩ : ∃ item items,
          ls.foldr Lexeme.beforeItems [[]] = item :: items := by
        refine List.exists_cons_of_ne_nil ?_
        rw [foldr_beforeItems, ne_eq, List.map_eq_nil_iff]
        exact List.splitOn_ne_nil _ _
      rw [List.flatMap_cons, List.foldr_append, ih hls, hrest, hl.foldr_beforeItems_bytes,
        List.foldr_cons, hrest]
  cases t with
  | nil => rfl
  | cons c t =>
    have hne : bytesAsChars (c :: t) ≠ [] := by
      rw [Text.bytesAsChars_cons]
      exact List.append_ne_nil_of_left_ne_nil (bytesAsChars_ne_nil c) _
    rw [items, if_neg (by simpa using hne), items, if_neg (by simp), lexemes_bytesAsChars,
      hitems _ (narrow_lexemes q (c :: t))]

/-! ## Parentheses -/

theorem Lexeme.depthAfter_of_not_isParen (h : l.isParen = false) (depth : Nat) :
    l.depthAfter depth = depth := by
  fun_cases Lexeme.depthAfter depth l with
  | case1 | case2 => simp [Lexeme.isParen] at h
  | case3 => rfl

/-- Lexemes that are no parentheses join the group. -/
theorem groupFrom_append (h : ∀ l ∈ ls, l.isParen = false) (depth : Nat) (rest : List Lexeme) :
    groupFrom depth (ls ++ rest) = (groupFrom depth rest).map (ls ++ ·) := by
  induction ls with
  | nil => simp
  | cons l ls ih =>
    obtain ⟨hl, hls⟩ := List.forall_mem_cons.mp h
    have hclose : l ≠ .code ')' := by
      rintro rfl
      simp [Lexeme.isParen] at hl
    rw [List.cons_append, groupFrom, if_neg (by simp [hclose]),
      Lexeme.depthAfter_of_not_isParen hl, ih hls, Option.map_map]
    rfl

/-- A parenthesis is one byte. -/
theorem bytes_of_isParen (h : l.isParen) : l.bytes = [l] := by
  cases l with
  | code c =>
    refine bytes_code ?_
    rw [Lexeme.isParen, Bool.or_eq_true, decide_eq_true_iff, decide_eq_true_iff] at h
    rcases h with rfl | rfl <;> decide
  | inside | opening | closing | pair => simp [Lexeme.isParen] at h

/-- No byte of another lexeme is a parenthesis. -/
theorem isParen_of_mem_bytes (h : l.isParen = false) : ∀ k ∈ l.bytes, k.isParen = false := by
  intro k hk
  refine Bool.eq_false_iff.mpr fun hparen => ?_
  cases k with
  | code c =>
    have hc : c.toNat < 0x80 := by
      rw [Lexeme.isParen, Bool.or_eq_true, decide_eq_true_iff, decide_eq_true_iff] at hparen
      rcases hparen with rfl | rfl <;> decide
    rw [eq_of_code_mem_bytes hc hk, hparen] at h
    exact Bool.noConfusion h
  | inside | opening | closing | pair => simp [Lexeme.isParen] at hparen

/-- **The group of bytes** that a parenthesis closes is that of the characters. -/
theorem groupFrom_bytes (depth : Nat) (ls : List Lexeme) :
    groupFrom depth (ls.flatMap Lexeme.bytes) =
      (groupFrom depth ls).map (List.flatMap Lexeme.bytes) := by
  induction ls generalizing depth with
  | nil => rfl
  | cons l ls ih =>
    rw [List.flatMap_cons]
    cases hparen : l.isParen with
    | true =>
      rw [bytes_of_isParen hparen, List.singleton_append, groupFrom, groupFrom]
      split
      · rfl
      · rw [ih, Option.map_map, Option.map_map]
        congr 1
        funext group
        simp [bytes_of_isParen hparen]
    | false =>
      rw [groupFrom_append (isParen_of_mem_bytes hparen), ih,
        ← List.singleton_append (x := l), groupFrom_append (by simpa using hparen),
        Option.map_map, Option.map_map]
      rfl

/-- Unless the search ends at it, a lexeme only adds to the place of what is found. -/
theorem openingFrom_cons {skip : Nat} (h : ¬ (l = .code '(' ∧ skip = 0)) (ls : List Lexeme) :
    openingFrom skip (l :: ls) =
      (openingFrom (skip - l.text.length) ls).map (· + l.text.length) := by
  cases l with
  | code c =>
    have hc : ¬ (c = '(' ∧ skip = 0) := fun heq => h ⟨by rw [heq.1], heq.2⟩
    rw [openingFrom, if_neg (by simpa using hc)]
    rfl
  | inside | opening | closing | pair => rfl

/-- Lexemes without an opening parenthesis are passed over by the search for one. -/
theorem openingFrom_append_of_not_mem (h : .code '(' ∉ ls) (skip : Nat) (rest : List Lexeme) :
    openingFrom skip (ls ++ rest) = (openingFrom (skip - (ls.flatMap Lexeme.text).length) rest).map
        (· + (ls.flatMap Lexeme.text).length) := by
  induction ls generalizing skip with
  | nil => simp
  | cons l ls ih =>
    rw [List.mem_cons, not_or] at h
    rw [List.cons_append, openingFrom_cons (fun heq => h.1 heq.1.symm), ih h.2, Option.map_map,
      List.flatMap_cons, List.length_append, Nat.sub_sub]
    congr 1
    funext n
    simp only [Function.comp_apply]
    omega

/-- **The opening parenthesis** among bytes is that among characters. -/
theorem openingFrom_bytes (h : ∀ l ∈ ls, l.Narrow) (i : Nat) :
    openingFrom i (ls.flatMap Lexeme.bytes) =
      (openingFrom (Text.charIndexFrom (ls.flatMap Lexeme.text) i) ls).map
        (Text.byteOffset (ls.flatMap Lexeme.text)) := by
  induction ls generalizing i with
  | nil => rfl
  | cons l ls ih =>
    obtain ⟨hl, hls⟩ := List.forall_mem_cons.mp h
    rw [List.flatMap_cons, List.flatMap_cons]
    by_cases hopen : l = .code '(' ∧ i = 0
    · obtain ⟨rfl, rfl⟩ := hopen
      rw [bytes_code (by decide)]
      rfl
    · have hbytes : openingFrom i (l.bytes ++ ls.flatMap Lexeme.bytes) =
          (openingFrom (i - byteLength l.text) (ls.flatMap Lexeme.bytes)).map
            (· + byteLength l.text) := by
        rw [← length_bytesAsChars, ← hl.flatMap_text_bytes]
        by_cases hparen : l = .code '('
        · rw [hparen, bytes_code (by decide)]
          exact openingFrom_cons (fun heq => hopen ⟨hparen, heq.2⟩) _
        · refine openingFrom_append_of_not_mem (fun hmem => hparen ?_) _ _
          exact eq_of_code_mem_bytes (by decide) hmem
      have hchars :
          ¬ (l = .code '(' ∧ Text.charIndexFrom (l.text ++ ls.flatMap Lexeme.text) i = 0) := by
        rintro ⟨rfl, hzero⟩
        cases i with
        | zero => exact hopen ⟨rfl, rfl⟩
        | succ i => simp [Lexeme.text, Text.charIndexFrom] at hzero
      rw [hbytes, openingFrom_cons hchars, ih hls, Text.charIndexFrom_append_sub, Option.map_map,
        Option.map_map]
      congr 1
      funext n
      exact (Text.byteOffset_append_add _ _ n).symm

/-- The byte of the first opening parenthesis outside literals at byte `i` or later, found by a scan
over bytes. -/
def openingOffset? (q : Quoting) (t : Text) (i : Nat) : Option Nat :=
  opening? q (bytesAsChars t) i

/-- **Searching bytes for an opening parenthesis** finds the one that searching characters
finds. -/
theorem openingOffset?_eq (q : Quoting) (t : Text) (i : Nat) :
    openingOffset? q t i = openingByte? q t i := by
  have hbytes := openingFrom_bytes (narrow_lexemes q t) i
  rw [flatMap_text_lexemes] at hbytes
  rw [openingOffset?, opening?, lexemes_bytesAsChars, hbytes]
  rfl

/-- What is found is an opening parenthesis. -/
theorem exists_of_openingFrom {skip n : Nat} (h : openingFrom skip ls = some n) :
    ∃ x u, ls.flatMap Lexeme.text = x ++ '(' :: u ∧ x.length = n := by
  induction ls generalizing skip n with
  | nil => simp [openingFrom] at h
  | cons l ls ih =>
    by_cases hopen : l = .code '(' ∧ skip = 0
    · obtain ⟨rfl, rfl⟩ := hopen
      obtain rfl : 0 = n := by simpa [openingFrom] using h
      exact ⟨[], ls.flatMap Lexeme.text, rfl, rfl⟩
    · rw [openingFrom_cons hopen] at h
      obtain ⟨k, hk, rfl⟩ := Option.map_eq_some_iff.mp h
      obtain ⟨x, u, htext, rfl⟩ := ih hk
      refine ⟨l.text ++ x, u, ?_, ?_⟩
      · rw [List.flatMap_cons, htext, List.append_assoc]
      · rw [List.length_append, Nat.add_comm]

/-- What is found is where an opening parenthesis starts. -/
theorem exists_of_openingByte? {i n : Nat} (h : openingByte? q t i = some n) :
    ∃ x u, t = x ++ '(' :: u ∧ byteLength x = n := by
  obtain ⟨k, hk, rfl⟩ := Option.map_eq_some_iff.mp h
  obtain ⟨x, u, htext, rfl⟩ := exists_of_openingFrom hk
  rw [flatMap_text_lexemes] at htext
  refine ⟨x, u, htext, ?_⟩
  rw [Text.byteOffset, htext, List.take_left]

/-- A group is the beginning of the lexemes. -/
theorem prefix_of_groupFrom {depth : Nat} {group : List Lexeme}
    (h : groupFrom depth ls = some group) :
    group <+: ls := by
  induction ls generalizing depth group with
  | nil => simp [groupFrom] at h
  | cons l ls ih =>
    rw [groupFrom] at h
    split at h
    · obtain rfl := Option.some.inj h
      exact List.nil_prefix
    · obtain ⟨inner, hinner, rfl⟩ := Option.map_eq_some_iff.mp h
      exact List.cons_prefix_cons.mpr ⟨rfl, ih hinner⟩

/-- **The matching parenthesis** among bytes is that among characters. -/
theorem closing?_bytesAsChars (q : Quoting) (t : Text) :
    closing? q (bytesAsChars t) = (closing? q t).map fun n => byteLength (t.take n) := by
  have hstart : Text.startsWith '(' (bytesAsChars t) = Text.startsWith '(' t := by
    rw [Bool.eq_iff_iff, Text.startsWith, Text.startsWith, decide_eq_true_iff, decide_eq_true_iff]
    exact Text.head?_bytesAsChars (by decide)
  rw [closing?, closing?, hstart]
  split
  · rw [lexemes_bytesAsChars, groupFrom_bytes, Option.map_map, Option.map_map]
    refine Option.map_congr fun group hgroup => ?_
    obtain ⟨rest, hrest⟩ := prefix_of_groupFrom hgroup
    have hnarrow : ∀ l ∈ group, l.Narrow := by
      intro l hl
      exact narrow_lexemes q t l (by rw [← hrest]; exact List.mem_append_left rest hl)
    have htext := flatMap_text_lexemes q t
    rw [← hrest, List.flatMap_append] at htext
    simp only [Function.comp_apply]
    rw [flatMap_text_flatMap_bytes hnarrow, length_bytesAsChars, ← htext, List.take_left]
  · rfl

/-- The byte of the parenthesis that matches the one at byte `i`, found by a scan over bytes. -/
def closingOffset? (q : Quoting) (t : Text) (i : Nat) : Option Nat :=
  (closing? q ((bytesAsChars t).drop i)).map (i + ·)

/-- **Searching bytes for the closing parenthesis** finds the one that searching characters
finds. -/
theorem closingOffset?_eq (q : Quoting) (t : Text) (i : Nat) :
    closingOffset? q t i = closingByte? q t i := by
  rw [closingOffset?]
  by_cases hopen : ∃ x u, t = x ++ '(' :: u ∧ byteLength x = i
  · obtain ⟨x, u, rfl, rfl⟩ := hopen
    rw [Text.drop_bytesAsChars, closing?_bytesAsChars, closingByte?_append, Option.map_map]
    rfl
  · have hbytes : closing? q ((bytesAsChars t).drop i) = none := by
      rw [closing?, if_neg]
      rw [Text.startsWith, decide_eq_true_iff, Text.head?_drop_bytesAsChars (by decide)]
      exact hopen
    have hchars : closingByte? q t i = none := by
      refine Option.eq_none_iff_forall_ne_some.mpr fun n hn => hopen ?_
      obtain ⟨before, inner, after, ht, hi, -⟩ := closingByte?_eq_some_iff_balanced.mp hn
      exact ⟨before, _, ht, hi⟩
    rw [hbytes, hchars]
    rfl

/-! ## Cuts -/

/-- Where pieces begin and end that stand `gap` bytes apart, the first one at byte `i`. -/
def boundsFrom (gap : Nat) : Nat → List Text → List (Nat × Nat)
  | _, [] => []
  | i, piece :: pieces => (i, i + piece.length) :: boundsFrom gap (i + piece.length + gap) pieces

/-- Where the items begin and end that a scan over bytes makes of a text. -/
def itemBounds (q : Quoting) (t : Text) : List (Nat × Nat) :=
  boundsFrom 1 0 (items q (bytesAsChars t))

/-- Where the segments begin and end that a scan over bytes makes of a text. -/
def segmentBounds (q : Quoting) (t : Text) : List (Nat × Nat) :=
  boundsFrom 0 0 ((segments q (bytesAsChars t)).map Segment.text)

/-- A piece of the text begins and ends at boundaries of characters. -/
def AtBoundaries (t : Text) (bound : Nat × Nat) : Prop :=
  Text.isBoundary t bound.1 ∧ Text.isBoundary t bound.2

/-- The slices of the text between the bounds, if none of them fails. -/
def slices? (t : Text) (bounds : List (Nat × Nat)) : Option (List Text) :=
  bounds.mapM fun bound => Text.slice? t bound.1 bound.2

/-- Texts that are joined are cut out again between the bounds of their bytes. -/
theorem slices?_boundsFrom (sep x : Text) (pieces : List Text) :
    slices? (x ++ Text.join sep pieces)
      (boundsFrom (byteLength sep) (byteLength x) (pieces.map bytesAsChars)) = some pieces := by
  rw [slices?, mapM_eq_some_iff]
  induction pieces generalizing x with
  | nil => rfl
  | cons piece pieces ih =>
    rw [List.map_cons, boundsFrom, length_bytesAsChars, List.map_cons, List.map_cons]
    cases pieces with
    | nil =>
      have hslice := Text.slice?_append x piece []
      rw [List.append_nil] at hslice
      exact congrArg (· :: []) hslice
    | cons next pieces =>
      have hjoin : Text.join sep (piece :: next :: pieces) =
          piece ++ sep ++ Text.join sep (next :: pieces) := rfl
      have hslice := Text.slice?_append x piece (sep ++ Text.join sep (next :: pieces))
      have hrest := ih (x ++ piece ++ sep)
      rw [Text.byteLength_append, Text.byteLength_append] at hrest
      simp only [List.append_assoc] at hrest
      rw [hjoin, List.append_assoc, hslice, hrest]

/-- Slices that do not fail end at boundaries. -/
theorem atBoundaries_of_slices? {bounds : List (Nat × Nat)} {pieces : List Text}
    (h : slices? t bounds = some pieces) : ∀ bound ∈ bounds, AtBoundaries t bound := by
  intro bound hbound
  rw [slices?, mapM_eq_some_iff] at h
  obtain ⟨piece, -, hpiece⟩ : ∃ piece ∈ pieces, some piece = Text.slice? t bound.1 bound.2 := by
    rw [← List.mem_map, ← h]
    exact List.mem_map.mpr ⟨bound, hbound, rfl⟩
  rw [Text.slice?] at hpiece
  split at hpiece
  · next hcut =>
    rw [Bool.and_eq_true, Bool.and_eq_true] at hcut
    exact ⟨hcut.1.2, hcut.2⟩
  · cases hpiece

/-- **The bounds of the items** cut the text into its items. -/
theorem slices?_itemBounds (q : Quoting) (t : Text) :
    slices? t (itemBounds q t) = some (items q t) := by
  rw [itemBounds, items_bytesAsChars]
  cases t with
  | nil => rfl
  | cons c t =>
    have hslices := slices?_boundsFrom [','] [] (items q (c :: t))
    rw [join_items (by simp)] at hslices
    exact hslices

/-- Joining with nothing in between is putting in a row. -/
theorem join_nil (texts : List Text) : Text.join [] texts = texts.flatten := by
  induction texts with
  | nil => rfl
  | cons t texts ih =>
    cases texts with
    | nil => simp [Text.join]
    | cons u texts =>
      have hjoin : Text.join [] (t :: u :: texts) = t ++ [] ++ Text.join [] (u :: texts) := rfl
      rw [hjoin, ih, List.append_nil]
      rfl

/-- **The bounds of the segments** cut the text into its segments. -/
theorem slices?_segmentBounds (q : Quoting) (t : Text) :
    slices? t (segmentBounds q t) = some ((segments q t).map Segment.text) := by
  have htexts : (segments q (bytesAsChars t)).map Segment.text =
      ((segments q t).map Segment.text).map bytesAsChars := by
    rw [segments_bytesAsChars, List.map_map, List.map_map]
    exact List.map_congr_left fun s _ => s.text_bytes
  have hjoin : Text.join [] ((segments q t).map Segment.text) = t := by
    rw [join_nil, ← List.flatMap_def, flatMap_text_segments]
  have hslices := slices?_boundsFrom [] [] ((segments q t).map Segment.text)
  rw [hjoin] at hslices
  rw [segmentBounds, htexts]
  exact hslices

/-- A character of ASCII is between boundaries. -/
theorem atBoundaries_append (hc : c.toNat < 0x80) (x u : Text) :
    AtBoundaries (x ++ c :: u) (byteLength x, byteLength x + 1) := by
  have hsize : byteLength (x ++ [c]) = byteLength x + 1 := by
    rw [← length_bytesAsChars, bytesAsChars_append, bytesAsChars_singleton hc, List.length_append,
      length_bytesAsChars]
    rfl
  refine ⟨Text.isBoundary_append x (c :: u), ?_⟩
  have hstop := Text.isBoundary_append (x ++ [c]) u
  rwa [hsize, List.append_assoc] at hstop

/-- **A scan over bytes cuts no character.**  It reads a text as the scan over characters does, in
which an escape takes the whole character that follows.  So it finds the same items and segments, no
slice of which can fail, and the same parentheses, and all it finds is at boundaries of characters.
-/
theorem byte_cuts_at_boundaries (q : Quoting) (t : Text) :
    lexemes q (bytesAsChars t) = (lexemes q t).flatMap Lexeme.bytes ∧
      (∀ bound ∈ itemBounds q t, AtBoundaries t bound) ∧
      slices? t (itemBounds q t) = some (items q t) ∧
      (∀ bound ∈ segmentBounds q t, AtBoundaries t bound) ∧
      slices? t (segmentBounds q t) = some ((segments q t).map Segment.text) ∧
      segments q (bytesAsChars t) = (segments q t).map Segment.bytes ∧
      (∀ i, openingOffset? q t i = openingByte? q t i ∧
        ∀ n ∈ openingOffset? q t i, AtBoundaries t (n, n + 1)) ∧
      ∀ i, closingOffset? q t i = closingByte? q t i ∧
        ∀ n ∈ closingOffset? q t i, AtBoundaries t (n, n + 1) := by
  have hitems := slices?_itemBounds q t
  have hsegments := slices?_segmentBounds q t
  refine ⟨lexemes_bytesAsChars q t, atBoundaries_of_slices? hitems, hitems,
    atBoundaries_of_slices? hsegments, hsegments, segments_bytesAsChars q t, fun i =>
      ?_, fun i => ?_⟩
  · have hopening := openingOffset?_eq q t i
    refine ⟨hopening, fun n hn => ?_⟩
    rw [hopening] at hn
    obtain ⟨x, u, rfl, rfl⟩ := exists_of_openingByte? hn
    exact atBoundaries_append (by decide) x u
  · have hclosing := closingOffset?_eq q t i
    refine ⟨hclosing, fun n hn => ?_⟩
    rw [hclosing] at hn
    obtain ⟨before, inner, after, rfl, rfl, -, rfl⟩ := closingByte?_eq_some_iff_balanced.mp hn
    have hstop := atBoundaries_append (c := ')') (by decide) (before ++ '(' :: inner) after
    rw [Text.byteLength_append] at hstop
    simpa using hstop

end DumpBridge.Literal
