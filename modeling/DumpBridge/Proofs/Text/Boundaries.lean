import DumpBridge.Proofs.Source.Decoding

/-!
# Boundaries of characters

An offset in bytes is a boundary if no character has bytes on both sides of it.  The
bytes tell (`isBoundary`): a byte in the middle of a character is a continuation byte,
and the first one never is.  So the boundaries of a text are the places where it can be
cut in two (`isBoundary_iff`), and between two of them a slice never fails
(`slice?_append`).

`bytesAsChars` shows the bytes of a text as characters.  A byte below `0x80` is shown as
the character that it encodes; all bytes of another character are shown as characters
that are not in ASCII (`eq_of_mem_bytesAsChars`).
-/

namespace DumpBridge.Text

variable {b c : Char} {t u x : Text} {n i : Nat} {lead e : UInt8} {p : List UInt8}

/-! ## Where a text can be cut -/

/-- Whether the text ends before byte `i` or a character begins with it. -/
def isBoundary (t : Text) (i : Nat) : Bool :=
  i = byteLength t || (toBytes t)[i]?.any (!isContinuation ·)

/-- The first byte of a character does not continue one. -/
theorem Sequence.isContinuation_lead (h : Sequence n lead p) : isContinuation lead = false := by
  rw [Bool.eq_false_iff, ne_eq, isContinuation_iff]
  cases h with
  | one ha =>
    have hlow : lead.toNat < 0x80 := UInt8.lt_iff_toNat_lt.mp ha
    omega
  | two ha _ =>
    have hhigh : 0xC2 ≤ lead.toNat := UInt8.le_iff_toNat_le.mp ha.1
    omega
  | three ha _ _ =>
    have hhigh : 0xE0 ≤ lead.toNat := UInt8.le_iff_toNat_le.mp ha.1
    omega
  | four ha _ _ _ =>
    have hhigh : 0xF0 ≤ lead.toNat := UInt8.le_iff_toNat_le.mp ha.1
    omega

/-- The other bytes of a character do. -/
theorem Sequence.isContinuation_of_mem (h : Sequence n lead p) (he : e ∈ p) :
    isContinuation e := by
  cases h with
  | one => simp at he
  | two _ hb => simp_all
  | three _ hb hc =>
    have hb := (mayFollowThree_iff.mp hb).1
    rcases List.mem_pair.mp he with rfl | rfl <;> assumption
  | four _ hb hc hd =>
    have hb := (mayFollowFour_iff.mp hb).1
    simp only [List.mem_cons, List.not_mem_nil, or_false] at he
    rcases he with rfl | rfl | rfl <;> assumption

/-- Of the bytes of a character only the first is no continuation byte. -/
theorem isContinuation_getElem?_utf8EncodeChar (h : (String.utf8EncodeChar c)[i]? = some e) :
    isContinuation e = false ↔ i = 0 := by
  obtain ⟨n, lead, p, hencode, hsequence⟩ := sequence_utf8EncodeChar c
  rw [hencode] at h
  cases i with
  | zero =>
    obtain rfl : lead = e := by simpa using h
    simp [hsequence.isContinuation_lead]
  | succ i => simp [hsequence.isContinuation_of_mem (List.mem_of_getElem? h)]

/-- In the first character only its beginning is a boundary. -/
theorem isBoundary_cons_of_lt (hi : i < c.utf8Size) : isBoundary (c :: t) i ↔ i = 0 := by
  have hlength := String.length_utf8EncodeChar c
  have hbyte : (String.utf8EncodeChar c)[i]? = some (String.utf8EncodeChar c)[i] :=
    List.getElem?_eq_getElem (by omega)
  have hend : i ≠ c.utf8Size + byteLength t := by omega
  rw [isBoundary, Bool.or_eq_true, decide_eq_true_iff, toBytes_cons,
    List.getElem?_append_left (by omega), hbyte]
  simpa [hend] using isContinuation_getElem?_utf8EncodeChar hbyte

/-- Behind the first character the boundaries are those of what follows it. -/
theorem isBoundary_cons_add (c : Char) (t : Text) (i : Nat) :
    isBoundary (c :: t) (c.utf8Size + i) = isBoundary t i := by
  rw [isBoundary, isBoundary, toBytes_cons, byteLength_cons,
    List.getElem?_append_right (by rw [String.length_utf8EncodeChar]; omega),
    String.length_utf8EncodeChar, Nat.add_sub_cancel_left]
  simp

/-- **Boundaries** are where the text can be cut in two. -/
theorem isBoundary_iff : isBoundary t i ↔ ∃ x u, t = x ++ u ∧ byteLength x = i := by
  induction t generalizing i with
  | nil =>
    have hempty : isBoundary [] i ↔ i = 0 := by
      rw [isBoundary, Bool.or_eq_true, decide_eq_true_iff]
      simp [toBytes]
    rw [hempty]
    constructor
    · rintro rfl
      exact ⟨[], [], rfl, rfl⟩
    · rintro ⟨x, u, hcut, rfl⟩
      rw [(List.nil_eq_append_iff.mp hcut).1]
      rfl
  | cons c t ih =>
    by_cases hi : i < c.utf8Size
    · rw [isBoundary_cons_of_lt hi]
      constructor
      · rintro rfl
        exact ⟨[], c :: t, rfl, rfl⟩
      · rintro ⟨x, u, hcut, rfl⟩
        cases x with
        | nil => rfl
        | cons d x =>
          obtain ⟨rfl, -⟩ := List.cons.inj hcut
          rw [byteLength_cons] at hi
          omega
    · obtain ⟨i, rfl⟩ := Nat.exists_eq_add_of_le (Nat.le_of_not_lt hi)
      rw [isBoundary_cons_add, ih]
      constructor
      · rintro ⟨x, u, rfl, rfl⟩
        exact ⟨c :: x, u, rfl, rfl⟩
      · rintro ⟨x, u, hcut, hx⟩
        cases x with
        | nil =>
          have := c.utf8Size_pos
          rw [byteLength_nil] at hx
          omega
        | cons d x =>
          obtain ⟨rfl, rfl⟩ := List.cons.inj hcut
          exact ⟨x, u, rfl, Nat.add_left_cancel hx⟩

theorem isBoundary_append (x u : Text) : isBoundary (x ++ u) (byteLength x) :=
  isBoundary_iff.mpr ⟨x, u, rfl, rfl⟩

/-- The characters from byte `i` up to byte `j`, unless that would cut one in two. -/
def slice? (t : Text) (i j : Nat) : Option Text :=
  if i ≤ j && isBoundary t i && isBoundary t j then some (slice t i j) else none

/-- A slice between two boundaries does not fail. -/
theorem slice?_append (x y z : Text) :
    slice? (x ++ (y ++ z)) (byteLength x) (byteLength x + byteLength y) = some y := by
  have hstop : isBoundary (x ++ (y ++ z)) (byteLength x + byteLength y) := by
    rw [← byteLength_append, ← List.append_assoc]
    exact isBoundary_append (x ++ y) z
  rw [slice?, isBoundary_append, hstop, slice_append]
  simp

/-! ## Offsets behind a text -/

theorem charIndexFrom_zero (t : Text) : charIndexFrom t 0 = 0 := by
  cases t <;> rfl

/-- Behind a text, characters and bytes are counted anew. -/
theorem charIndexFrom_append_sub (x u : Text) (i : Nat) :
    charIndexFrom (x ++ u) i - x.length = charIndexFrom u (i - byteLength x) := by
  induction x generalizing i with
  | nil => simp
  | cons c x ih =>
    rw [byteLength_cons, ← Nat.sub_sub, ← ih, List.length_cons]
    cases i with
    | zero => simp [charIndexFrom_zero]
    | succ i =>
      rw [List.cons_append, charIndexFrom]
      omega

/-- Offsets behind a text are offsets in what follows, moved by its length. -/
theorem byteOffset_append_add (x u : Text) (k : Nat) :
    byteOffset (x ++ u) (k + x.length) = byteOffset u k + byteLength x := by
  rw [byteOffset, byteOffset, Nat.add_comm k, List.take_length_add_append, byteLength_append,
    Nat.add_comm]

/-! ## Bytes as characters -/

@[simp] theorem bytesAsChars_nil : bytesAsChars [] = [] := rfl

@[simp] theorem bytesAsChars_append (x u : Text) :
    bytesAsChars (x ++ u) = bytesAsChars x ++ bytesAsChars u := by
  simp [bytesAsChars, toBytes]

/-- The bytes of a text begin with those of its first character. -/
theorem bytesAsChars_cons (c : Char) (t : Text) :
    bytesAsChars (c :: t) = bytesAsChars [c] ++ bytesAsChars t :=
  bytesAsChars_append [c] t

/-- There are as many bytes as the text has. -/
@[simp] theorem length_bytesAsChars (t : Text) : (bytesAsChars t).length = byteLength t := by
  induction t with
  | nil => rfl
  | cons c t ih =>
    rw [bytesAsChars_cons, List.length_append, ih, byteLength_cons]
    simp [bytesAsChars, toBytes]

/-- A character has a byte. -/
theorem bytesAsChars_ne_nil (c : Char) : bytesAsChars [c] ≠ [] := by
  have hpos := c.utf8Size_pos
  rw [← List.length_pos_iff, length_bytesAsChars, byteLength_cons]
  omega

theorem toNat_ofNat_byte (e : UInt8) : (Char.ofNat e.toNat).toNat = e.toNat :=
  toNat_ofNat_of_valid (Or.inl (by have := e.toNat_lt; omega))

/-- A character of ASCII is its own byte. -/
theorem bytesAsChars_singleton (hc : c.toNat < 0x80) : bytesAsChars [c] = [c] := by
  have hbyte : (UInt8.ofNat c.toNat).toNat = c.toNat := by
    rw [UInt8.toNat_ofNat']
    omega
  rw [bytesAsChars, toBytes_cons, utf8EncodeChar_of_lt hc]
  simp [toBytes, hbyte]

/-- **A byte of ASCII** among those of a character is that character. -/
theorem eq_of_mem_bytesAsChars (hb : b ∈ bytesAsChars [c]) (hsmall : b.toNat < 0x80) : b = c := by
  by_cases hc : c.toNat < 0x80
  · rw [bytesAsChars_singleton hc] at hb
    exact List.mem_singleton.mp hb
  · rw [bytesAsChars, toBytes_cons, List.mem_map] at hb
    obtain ⟨e, he, rfl⟩ := hb
    have hlarge := le_of_mem_utf8EncodeChar hc (by simpa [toBytes] using he)
    rw [toNat_ofNat_byte] at hsmall
    omega

/-- No byte but the first of a character is in ASCII. -/
theorem le_of_mem_tail_bytesAsChars (hb : b ∈ (bytesAsChars [c]).tail) : 0x80 ≤ b.toNat := by
  by_contra hsmall
  have hsmall : b.toNat < 0x80 := Nat.lt_of_not_le hsmall
  obtain rfl := eq_of_mem_bytesAsChars (List.mem_of_mem_tail hb) hsmall
  rw [bytesAsChars_singleton hsmall] at hb
  simp at hb

/-- The bytes begin with a byte of ASCII just if the text begins with that character. -/
theorem head?_bytesAsChars (hc : c.toNat < 0x80) :
    (bytesAsChars t).head? = some c ↔ t.head? = some c := by
  cases t with
  | nil => simp
  | cons d t =>
    obtain ⟨b, bs, hd⟩ := List.exists_cons_of_ne_nil (bytesAsChars_ne_nil d)
    rw [bytesAsChars_cons, hd]
    constructor
    · intro h
      obtain rfl : b = c := by simpa using h
      obtain rfl := eq_of_mem_bytesAsChars (by rw [hd]; exact List.mem_cons_self) hc
      rfl
    · intro h
      obtain rfl : d = c := by simpa using h
      rw [bytesAsChars_singleton hc] at hd
      simp [(List.cons.inj hd).1]

theorem drop_bytesAsChars (x u : Text) :
    (bytesAsChars (x ++ u)).drop (byteLength x) = bytesAsChars u := by
  rw [bytesAsChars_append, ← length_bytesAsChars, List.drop_left]

/-- The byte `i` is one of ASCII just if that character begins there. -/
theorem head?_drop_bytesAsChars (hc : c.toNat < 0x80) :
    ((bytesAsChars t).drop i).head? = some c ↔ ∃ x u, t = x ++ c :: u ∧ byteLength x = i := by
  have hbyte : (UInt8.ofNat c.toNat).toNat = c.toNat := by
    rw [UInt8.toNat_ofNat']
    omega
  rw [← getElem?_toBytes_eq_some_iff hc, List.head?_drop, bytesAsChars, List.getElem?_map,
    Option.map_eq_some_iff]
  constructor
  · rintro ⟨e, he, rfl⟩
    rw [he, toNat_ofNat_byte, UInt8.ofNat_toNat]
  · intro h
    exact ⟨_, h, by rw [hbyte, Char.ofNat_toNat]⟩

end DumpBridge.Text
