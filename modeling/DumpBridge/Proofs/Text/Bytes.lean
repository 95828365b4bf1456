import DumpBridge.Text.Utf8

/-!
# Offsets in bytes

A text has as many bytes as its characters have together, and a text is cut at
most once at a given number of bytes.  A byte below `0x80` is a character of its
own, so a byte that stands for such a character begins it
(`getElem?_toBytes_eq_some_iff`).  `slice` cuts a piece out by its offsets.
-/

namespace DumpBridge.Text

variable {c d : Char} {b : UInt8} {x y t u : Text} {i k : Nat}

@[simp] theorem byteLength_nil : byteLength [] = 0 := rfl

@[simp] theorem byteLength_cons (c : Char) (t : Text) :
    byteLength (c :: t) = c.utf8Size + byteLength t := rfl

/-- Two texts are as long as both. -/
@[simp] theorem byteLength_append (x t : Text) :
    byteLength (x ++ t) = byteLength x + byteLength t := by
  induction x with
  | nil => simp
  | cons c x ih => simp [ih, Nat.add_assoc]

/-- Only the empty text has no bytes. -/
theorem byteLength_eq_zero (h : byteLength t = 0) : t = [] := by
  cases t with
  | nil => rfl
  | cons c t =>
    have := c.utf8Size_pos
    rw [byteLength_cons] at h
    omega

/-- A text is cut in one way after a number of bytes. -/
theorem append_inj_of_byteLength (h : x ++ t = y ++ u) (hlength : byteLength x = byteLength y) :
    x = y ∧ t = u := by
  induction x generalizing y with
  | nil =>
    obtain rfl := byteLength_eq_zero hlength.symm
    exact ⟨rfl, h⟩
  | cons c x ih =>
    cases y with
    | nil => exact absurd (byteLength_eq_zero hlength) (by simp)
    | cons d y =>
      obtain ⟨rfl, htail⟩ := List.cons.inj h
      rw [byteLength_cons, byteLength_cons] at hlength
      obtain ⟨rfl, rfl⟩ := ih htail (by omega)
      exact ⟨rfl, rfl⟩

/-! ## The encoding -/

@[simp] theorem toBytes_cons (c : Char) (t : Text) :
    toBytes (c :: t) = String.utf8EncodeChar c ++ toBytes t := rfl

/-- A small character is encoded by its own number. -/
theorem utf8EncodeChar_of_lt (hc : c.toNat < 0x80) :
    String.utf8EncodeChar c = [UInt8.ofNat c.toNat] :=
  if_pos (Nat.le_of_lt_succ hc)

/-- Another character is encoded by a first byte and further ones with six bits each. -/
theorem utf8EncodeChar_of_not_lt (hc : ¬ c.toNat < 0x80) :
    ∃ (first : Nat) (further : List Nat), String.utf8EncodeChar c =
        UInt8.ofNat first :: further.map (fun n => UInt8.ofNat (n % 64 + 128)) ∧
      128 ≤ first ∧ first < 256 := by
  have hsmall : ¬ c.val.toNat ≤ 127 := fun h => hc (Nat.lt_succ_of_le h)
  change ∃ first further, (if c.val.toNat ≤ 127 then _ else if c.val.toNat ≤ 2047 then _
    else if c.val.toNat ≤ 65535 then _ else _) = _ ∧ _
  rw [if_neg hsmall]
  generalize c.val.toNat = v
  split
  · exact ⟨v / 64 % 32 + 192, [v], rfl, by omega, by omega⟩
  split
  · exact ⟨v / 4096 % 16 + 224, [v / 64, v], rfl, by omega, by omega⟩
  · exact ⟨v / 262144 % 8 + 240, [v / 4096, v / 64, v], rfl, by omega, by omega⟩

/-- Every byte of another character is large. -/
theorem le_of_mem_utf8EncodeChar (hc : ¬ c.toNat < 0x80) (hb : b ∈ String.utf8EncodeChar c) :
    0x80 ≤ b.toNat := by
  obtain ⟨first, further, hencode, hlow, hhigh⟩ := utf8EncodeChar_of_not_lt hc
  rw [hencode, List.mem_cons, List.mem_map] at hb
  rcases hb with rfl | ⟨n, -, rfl⟩
  · rw [UInt8.toNat_ofNat']
    omega
  · rw [UInt8.toNat_ofNat']
    omega

/-- A byte of one character stands for a small one just if it is that one. -/
theorem getElem?_utf8EncodeChar_eq_some_iff (hc : c.toNat < 0x80) :
    (String.utf8EncodeChar d)[i]? = some (UInt8.ofNat c.toNat) ↔ d = c ∧ i = 0 := by
  have hbyte : (UInt8.ofNat c.toNat).toNat = c.toNat := by
    rw [UInt8.toNat_ofNat']
    omega
  by_cases hd : d.toNat < 0x80
  · have hbyte' : (UInt8.ofNat d.toNat).toNat = d.toNat := by
      rw [UInt8.toNat_ofNat']
      omega
    rw [utf8EncodeChar_of_lt hd]
    constructor
    · intro h
      cases i with
      | zero =>
        have heq := congrArg UInt8.toNat (Option.some.inj h)
        rw [hbyte, hbyte'] at heq
        exact ⟨Char.toNat_inj.mp heq, rfl⟩
      | succ i => simp at h
    · rintro ⟨rfl, rfl⟩
      rfl
  · constructor
    · intro h
      have hlarge := le_of_mem_utf8EncodeChar hd (List.mem_of_getElem? h)
      omega
    · rintro ⟨rfl, -⟩
      exact absurd hc hd

/-- **A byte below `0x80`** is a character of its own. -/
theorem getElem?_toBytes_eq_some_iff (hc : c.toNat < 0x80) :
    (toBytes t)[i]? = some (UInt8.ofNat c.toNat) ↔ ∃ x u, t = x ++ c :: u ∧ byteLength x = i := by
  induction t generalizing i with
  | nil => simp [toBytes]
  | cons d t ih =>
    have hlength := String.length_utf8EncodeChar d
    have hsize := d.utf8Size_pos
    rw [toBytes_cons]
    by_cases hi : i < d.utf8Size
    · rw [List.getElem?_append_left (by omega), getElem?_utf8EncodeChar_eq_some_iff hc]
      constructor
      · rintro ⟨rfl, rfl⟩
        exact ⟨[], t, rfl, rfl⟩
      · rintro ⟨x, u, hcut, hx⟩
        cases x with
        | nil => exact ⟨(List.cons.inj hcut).1, hx.symm⟩
        | cons d' x =>
          obtain ⟨rfl, -⟩ := List.cons.inj hcut
          rw [byteLength_cons] at hx
          omega
    · rw [List.getElem?_append_right (by omega), hlength, ih]
      constructor
      · rintro ⟨x, u, rfl, hx⟩
        exact ⟨d :: x, u, rfl, by rw [byteLength_cons]; omega⟩
      · rintro ⟨x, u, hcut, hx⟩
        cases x with
        | nil =>
          rw [byteLength_nil] at hx
          omega
        | cons d' x =>
          obtain ⟨rfl, rfl⟩ := List.cons.inj hcut
          rw [byteLength_cons] at hx
          exact ⟨x, u, rfl, by omega⟩

/-! ## Indices of characters -/

/-- The index of the character after a text is the length of the text. -/
theorem charIndex?_append (x : Text) (c : Char) (t : Text) :
    charIndex? (x ++ c :: t) (byteLength x) = some x.length := by
  induction x with
  | nil => rfl
  | cons d x ih =>
    obtain ⟨n, hn⟩ : ∃ n, d.utf8Size + byteLength x = n + 1 :=
      ⟨d.utf8Size + byteLength x - 1, by have := d.utf8Size_pos; omega⟩
    have hrest : n + 1 - d.utf8Size = byteLength x := by omega
    rw [List.cons_append, byteLength_cons, hn, charIndex?, if_pos (by omega), hrest, ih]
    rfl

/-- The first character behind a text of as many bytes has the text's length for its index. -/
theorem charIndexFrom_append (x t : Text) : charIndexFrom (x ++ t) (byteLength x) = x.length := by
  induction x with
  | nil => cases t <;> rfl
  | cons d x ih =>
    obtain ⟨n, hn⟩ : ∃ n, d.utf8Size + byteLength x = n + 1 :=
      ⟨d.utf8Size + byteLength x - 1, by have := d.utf8Size_pos; omega⟩
    have hrest : n + 1 - d.utf8Size = byteLength x := by omega
    rw [List.cons_append, byteLength_cons, hn, charIndexFrom, hrest, ih]
    rfl

/-- A character that begins after a number of bytes stands after a text of as many. -/
theorem exists_of_charIndex? (h : charIndex? t i = some k) :
    ∃ x c u, t = x ++ c :: u ∧ byteLength x = i ∧ x.length = k := by
  induction t generalizing i k with
  | nil => simp [charIndex?] at h
  | cons d t ih =>
    cases i with
    | zero => exact ⟨[], d, t, rfl, rfl, by simpa [charIndex?] using h⟩
    | succ i =>
      rw [charIndex?] at h
      split at h
      · next hsize =>
        obtain ⟨k, hk, rfl⟩ := Option.map_eq_some_iff.mp h
        obtain ⟨x, c, u, rfl, hx, rfl⟩ := ih hk
        exact ⟨d :: x, c, u, rfl, by rw [byteLength_cons]; omega, rfl⟩
      · simp at h

/-! ## Cutting by offsets -/

/-- The characters from byte `i` on. -/
def suffixAt (t : Text) (i : Nat) : Text :=
  t.drop (t.charIndexFrom i)

/-- The characters from byte `i` up to byte `j`. -/
def slice (t : Text) (i j : Nat) : Text :=
  (t.take (t.charIndexFrom j)).drop (t.charIndexFrom i)

theorem suffixAt_append (x y : Text) : suffixAt (x ++ y) (byteLength x) = y := by
  rw [suffixAt, charIndexFrom_append, List.drop_left]

/-- The slice from the length of a text on is what follows it. -/
theorem slice_append (x y z : Text) :
    slice (x ++ (y ++ z)) (byteLength x) (byteLength x + byteLength y) = y := by
  have hstop : charIndexFrom (x ++ (y ++ z)) (byteLength x + byteLength y) = (x ++ y).length := by
    rw [← byteLength_append, ← List.append_assoc, charIndexFrom_append]
  rw [slice, hstop, charIndexFrom_append, ← List.append_assoc, List.take_left, List.drop_left]

end DumpBridge.Text
