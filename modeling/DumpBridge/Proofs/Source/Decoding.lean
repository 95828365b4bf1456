import DumpBridge.Proofs.Text.Bytes
import DumpBridge.Source.Decode
import Mathlib.Data.List.Forall2

/-!
# Decoding any bytes

Bytes that encode no character are cut into parts that could still begin one, each as
long as it can be, and each part becomes one replacement character.  `Decodes` says so
in terms of the encoding of single characters only, and it is what `decodeLossy`
computes (`decodes_iff`).

All bytes of a part that is lost are large (`Lost.le_of_mem`), and so are all bytes of
a character that is not ASCII.  So whatever the bytes are, those below `0x80` come out
as they went in: `decode_keeps_ascii`.
-/

namespace DumpBridge.Text

/-! ## The bytes of one character -/

/-- The bytes that encode a number: a first one, and those that follow it. -/
inductive Sequence : Nat → UInt8 → List UInt8 → Prop
  | one {a : UInt8} (ha : a < 0x80) : Sequence a.toNat a []
  | two {a b : UInt8} (ha : 0xC2 ≤ a ∧ a ≤ 0xDF) (hb : isContinuation b) :
      Sequence (a.toNat % 0x20 * 0x40 + payload b) a [b]
  | three {a b c : UInt8} (ha : 0xE0 ≤ a ∧ a ≤ 0xEF) (hb : mayFollowThree a b)
      (hc : isContinuation c) :
      Sequence (a.toNat % 0x10 * 0x1000 + payload b * 0x40 + payload c) a [b, c]
  | four {a b c d : UInt8} (ha : 0xF0 ≤ a ∧ a ≤ 0xF4) (hb : mayFollowFour a b)
      (hc : isContinuation c) (hd : isContinuation d) :
      Sequence (a.toNat % 0x08 * 0x40000 + payload b * 0x1000 + payload c * 0x40 + payload d)
        a [b, c, d]

variable {a b lead : UInt8} {p q r rest bytes : List UInt8} {t : Text} {n : Nat}

theorem isContinuation_iff : isContinuation b ↔ 0x80 ≤ b.toNat ∧ b.toNat ≤ 0xBF := by
  simp [isContinuation, UInt8.le_iff_toNat_le]

/-- Two first bytes of three narrow what may follow. -/
theorem mayFollowThree_iff : mayFollowThree a b ↔ isContinuation b ∧
    (a.toNat = 0xE0 → 0xA0 ≤ b.toNat) ∧ (a.toNat = 0xED → b.toNat ≤ 0x9F) := by
  simp only [mayFollowThree, isContinuation, ← UInt8.toNat_inj, UInt8.le_iff_toNat_le]
  by_cases hlow : a.toNat = 0xE0
  · simp [hlow]
    omega
  by_cases hhigh : a.toNat = 0xED
  · simp [hhigh]
    omega
  · simp [hlow, hhigh]

/-- Two first bytes of four narrow what may follow. -/
theorem mayFollowFour_iff : mayFollowFour a b ↔ isContinuation b ∧
    (a.toNat = 0xF0 → 0x90 ≤ b.toNat) ∧ (a.toNat = 0xF4 → b.toNat ≤ 0x8F) := by
  simp only [mayFollowFour, isContinuation, ← UInt8.toNat_inj, UInt8.le_iff_toNat_le]
  by_cases hlow : a.toNat = 0xF0
  · simp [hlow]
    omega
  by_cases hhigh : a.toNat = 0xF4
  · simp [hhigh]
    omega
  · simp [hlow, hhigh]

/-- **The encoding of a character** in one to four bytes, by its number. -/
theorem utf8EncodeChar_eq (c : Char) : String.utf8EncodeChar c =
    if c.toNat ≤ 0x7F then [UInt8.ofNat c.toNat]
    else if c.toNat ≤ 0x7FF then
      [UInt8.ofNat (c.toNat / 64 % 32 + 192), UInt8.ofNat (c.toNat % 64 + 128)]
    else if c.toNat ≤ 0xFFFF then
      [UInt8.ofNat (c.toNat / 4096 % 16 + 224), UInt8.ofNat (c.toNat / 64 % 64 + 128),
        UInt8.ofNat (c.toNat % 64 + 128)]
    else
      [UInt8.ofNat (c.toNat / 262144 % 8 + 240), UInt8.ofNat (c.toNat / 4096 % 64 + 128),
        UInt8.ofNat (c.toNat / 64 % 64 + 128), UInt8.ofNat (c.toNat % 64 + 128)] := rfl

/-- Six bits make a continuation byte. -/
theorem isContinuation_ofNat (v : Nat) : isContinuation (UInt8.ofNat (v % 64 + 128)) := by
  rw [isContinuation_iff, UInt8.toNat_ofNat']
  omega

/-- Every character is encoded by one of the sequences. -/
theorem sequence_utf8EncodeChar (c : Char) :
    ∃ n lead p, String.utf8EncodeChar c = lead :: p ∧ Sequence n lead p := by
  have hvalid : c.toNat < 0xD800 ∨ 0xDFFF < c.toNat ∧ c.toNat < 0x110000 := c.valid
  rw [utf8EncodeChar_eq]
  generalize c.toNat = v at hvalid
  split_ifs with hone htwo hthree
  · have ha : (UInt8.ofNat v).toNat < 0x80 := by
      rw [UInt8.toNat_ofNat']
      omega
    exact ⟨_, _, _, rfl, .one ha⟩
  · generalize hlead : v / 64 % 32 + 192 = lead
    have ha : 0xC2 ≤ (UInt8.ofNat lead).toNat ∧ (UInt8.ofNat lead).toNat ≤ 0xDF := by
      rw [UInt8.toNat_ofNat']
      omega
    exact ⟨_, _, _, rfl, .two ha (isContinuation_ofNat v)⟩
  · generalize hlead : v / 4096 % 16 + 224 = lead
    have ha : 0xE0 ≤ (UInt8.ofNat lead).toNat ∧ (UInt8.ofNat lead).toNat ≤ 0xEF := by
      rw [UInt8.toNat_ofNat']
      omega
    have hb : mayFollowThree (UInt8.ofNat lead) (UInt8.ofNat (v / 64 % 64 + 128)) := by
      rw [mayFollowThree_iff, UInt8.toNat_ofNat', UInt8.toNat_ofNat']
      exact ⟨isContinuation_ofNat (v / 64), by omega, by omega⟩
    exact ⟨_, _, _, rfl, .three ha hb (isContinuation_ofNat v)⟩
  · generalize hlead : v / 262144 % 8 + 240 = lead
    have ha : 0xF0 ≤ (UInt8.ofNat lead).toNat ∧ (UInt8.ofNat lead).toNat ≤ 0xF4 := by
      rw [UInt8.toNat_ofNat']
      omega
    have hb : mayFollowFour (UInt8.ofNat lead) (UInt8.ofNat (v / 4096 % 64 + 128)) := by
      rw [mayFollowFour_iff, UInt8.toNat_ofNat', UInt8.toNat_ofNat']
      exact ⟨isContinuation_ofNat (v / 4096), by omega, by omega⟩
    exact ⟨_, _, _, rfl, .four ha hb (isContinuation_ofNat (v / 64)) (isContinuation_ofNat v)⟩

theorem toNat_ofNat_of_valid (hn : n < 0xD800 ∨ 0xDFFF < n ∧ n < 0x110000) :
    (Char.ofNat n).toNat = n :=
  congrArg Char.toNat (dif_pos hn)

/-- Every sequence encodes the character of its number: no number is too large, a
surrogate, or could be written with fewer bytes. -/
theorem utf8EncodeChar_of_sequence (h : Sequence n lead p) :
    String.utf8EncodeChar (Char.ofNat n) = lead :: p := by
  rw [utf8EncodeChar_eq]
  cases h with
  | one ha =>
    have hlead : lead.toNat < 0x80 := UInt8.lt_iff_toNat_lt.mp ha
    rw [toNat_ofNat_of_valid (by omega), if_pos (by omega), UInt8.ofNat_toNat]
  | two ha hb =>
    obtain ⟨hlow, hhigh⟩ : 0xC2 ≤ lead.toNat ∧ lead.toNat ≤ 0xDF := ha
    rw [isContinuation_iff] at hb
    unfold payload
    rw [toNat_ofNat_of_valid (by omega), if_neg (by omega), if_pos (by omega)]
    simp only [List.cons.injEq, and_true, ← UInt8.toNat_inj, UInt8.toNat_ofNat']
    omega
  | three ha hb hc =>
    obtain ⟨hlow, hhigh⟩ : 0xE0 ≤ lead.toNat ∧ lead.toNat ≤ 0xEF := ha
    rw [mayFollowThree_iff, isContinuation_iff] at hb
    rw [isContinuation_iff] at hc
    unfold payload
    rw [toNat_ofNat_of_valid (by omega), if_neg (by omega), if_neg (by omega), if_pos (by omega)]
    simp only [List.cons.injEq, and_true, ← UInt8.toNat_inj, UInt8.toNat_ofNat']
    omega
  | four ha hb hc hd =>
    obtain ⟨hlow, hhigh⟩ : 0xF0 ≤ lead.toNat ∧ lead.toNat ≤ 0xF4 := ha
    rw [mayFollowFour_iff, isContinuation_iff] at hb
    rw [isContinuation_iff] at hc hd
    unfold payload
    rw [toNat_ofNat_of_valid (by omega), if_neg (by omega), if_neg (by omega), if_neg (by omega)]
    simp only [List.cons.injEq, and_true, ← UInt8.toNat_inj, UInt8.toNat_ofNat']
    omega

/-- A text is known from its bytes. -/
theorem toBytes_injective {t u : Text} (h : toBytes t = toBytes u) : t = u := by
  have hencode : t.utf8Encode = u.utf8Encode := congrArg List.toByteArray h
  rw [← String.toByteArray_ofList, ← String.toByteArray_ofList] at hencode
  simpa using congrArg String.toList (String.toByteArray_inj.mp hencode)

/-! ## The first character -/

/-- What may follow a first byte, one test for each byte. -/
def follows (lead : UInt8) : Option (List (UInt8 → Bool)) :=
  if lead < 0x80 then some []
  else if 0xC2 ≤ lead && lead ≤ 0xDF then some [isContinuation]
  else if 0xE0 ≤ lead && lead ≤ 0xEF then some [mayFollowThree lead, isContinuation]
  else if 0xF0 ≤ lead && lead ≤ 0xF4 then
    some [mayFollowFour lead, isContinuation, isContinuation]
  else none

/-- How many bytes pass the tests, one test each. -/
def fitting : List (UInt8 → Bool) → List UInt8 → Nat
  | f :: fs, b :: bytes => if f b then fitting fs bytes + 1 else 0
  | _, _ => 0

variable {fs : List (UInt8 → Bool)}

/-- A sequence passes the tests of its first byte, and decoding takes it as one character. -/
theorem decodeFirst_of_sequence (h : Sequence n lead p) :
    (∃ fs, follows lead = some fs ∧ List.Forall₂ (fun f b => f b = true) fs p) ∧
      ∀ rest, decodeFirst lead (p ++ rest) = (Char.ofNat n, p.length) := by
  cases h with
  | one ha => exact ⟨⟨[], by simp [follows, ha], .nil⟩, fun rest => by simp [decodeFirst, ha]⟩
  | two ha hb =>
    have hone : ¬ lead < 0x80 := by grind
    exact ⟨⟨_, by simp [follows, hone, ha], .cons hb .nil⟩,
      fun rest => by simp [decodeFirst, hone, ha, hb]⟩
  | three ha hb hc =>
    have hone : ¬ lead < 0x80 := by grind
    have htwo : ¬ lead ≤ 0xDF := by grind
    exact ⟨⟨_, by simp [follows, hone, htwo, ha], .cons hb (.cons hc .nil)⟩,
      fun rest => by simp [decodeFirst, hone, htwo, ha, hb, hc]⟩
  | four ha hb hc hd =>
    have hone : ¬ lead < 0x80 := by grind
    have htwo : ¬ lead ≤ 0xDF := by grind
    have hthree : ¬ lead ≤ 0xEF := by grind
    exact ⟨⟨_, by simp [follows, hone, htwo, hthree, ha], .cons hb (.cons hc (.cons hd .nil))⟩,
      fun rest => by simp [decodeFirst, hone, htwo, hthree, ha, hb, hc, hd]⟩

/-- Bytes that pass all tests of a first byte make a sequence with it. -/
theorem sequence_of_follows (h : follows lead = some fs)
    (hfit : List.Forall₂ (fun f b => f b = true) fs p) : ∃ n, Sequence n lead p := by
  unfold follows at h
  split_ifs at h with hone htwo hthree hfour
  · obtain rfl := Option.some.inj h
    cases hfit
    exact ⟨_, .one hone⟩
  · obtain rfl := Option.some.inj h
    obtain _ | ⟨hb, _ | _⟩ := hfit
    exact ⟨_, .two (by simpa using htwo) hb⟩
  · obtain rfl := Option.some.inj h
    obtain _ | ⟨hb, _ | ⟨hc, _ | _⟩⟩ := hfit
    exact ⟨_, .three (by simpa using hthree) hb hc⟩
  · obtain rfl := Option.some.inj h
    obtain _ | ⟨hb, _ | ⟨hc, _ | ⟨hd, _ | _⟩⟩⟩ := hfit
    exact ⟨_, .four (by simpa using hfour) hb hc hd⟩

/-- Each test is passed by some byte. -/
theorem exists_of_mem_follows {f : UInt8 → Bool} (h : follows lead = some fs) (hf : f ∈ fs) :
    ∃ b, f b := by
  have hthree : ∃ b, mayFollowThree lead b := by
    by_cases hlow : lead.toNat = 0xE0
    · exact ⟨0xA0, by simp [mayFollowThree_iff, isContinuation_iff, hlow]⟩
    · exact ⟨0x80, by simp [mayFollowThree_iff, isContinuation_iff, hlow]⟩
  have hfour : ∃ b, mayFollowFour lead b := by
    by_cases hlow : lead.toNat = 0xF0
    · exact ⟨0x90, by simp [mayFollowFour_iff, isContinuation_iff, hlow]⟩
    · exact ⟨0x80, by simp [mayFollowFour_iff, isContinuation_iff, hlow]⟩
  have hany : ∃ b, isContinuation b := ⟨0x80, rfl⟩
  unfold follows at h
  split_ifs at h
  all_goals
    obtain rfl := Option.some.inj h
    simp only [List.mem_cons, List.not_mem_nil, or_false] at hf
  · obtain rfl := hf
    exact hany
  · obtain rfl | rfl := hf
    · exact hthree
    · exact hany
  · obtain rfl | rfl | rfl := hf
    · exact hfour
    · exact hany
    · exact hany

/-- Decoding takes the bytes that pass the tests of the first one. -/
theorem snd_decodeFirst (lead : UInt8) (rest : List UInt8) :
    (decodeFirst lead rest).2 = fitting ((follows lead).getD []) rest := by
  fun_cases decodeFirst lead rest <;> simp [follows, fitting, *]

/-- Where no sequence stands there is a replacement character. -/
theorem fst_decodeFirst_of_not_sequence (h : ∀ n p, Sequence n lead p → ¬ p <+: rest) :
    (decodeFirst lead rest).1 = replacement := by
  fun_cases decodeFirst lead rest
  case case1 ha => exact absurd List.nil_prefix (h _ _ (.one ha))
  case case2 ha b more hb =>
    exact absurd (List.prefix_append [b] more) (h _ _ (.two (by simpa using ha) hb))
  case case5 ha b hb c more hc =>
    exact absurd (List.prefix_append [b, c] more) (h _ _ (.three (by simpa using ha) hb hc))
  case case10 ha b hb c hc d more hd =>
    exact absurd (List.prefix_append [b, c, d] more) (h _ _ (.four (by simpa using ha) hb hc hd))
  all_goals rfl

/-- **The encoding of a character is decoded as it**, whatever follows. -/
theorem decodeFirst_utf8EncodeChar {c : Char} (h : String.utf8EncodeChar c = lead :: p)
    (rest : List UInt8) : decodeFirst lead (p ++ rest) = (c, p.length) := by
  obtain ⟨n, _, _, hencode, hsequence⟩ := sequence_utf8EncodeChar c
  obtain ⟨rfl, rfl⟩ := List.cons.inj (hencode.symm.trans h)
  have hbytes : toBytes [Char.ofNat n] = toBytes [c] := by
    simp [toBytes, hencode, utf8EncodeChar_of_sequence hsequence]
  rw [(decodeFirst_of_sequence hsequence).2, List.singleton_inj.mp (toBytes_injective hbytes)]

/-! ## Lost bytes -/

/-- Bytes that begin a character and do not end it. -/
def Begins (p : List UInt8) : Prop :=
  p ≠ [] ∧ ∃ c r, r ≠ [] ∧ String.utf8EncodeChar c = p ++ r

/-- A front part of `p ++ rest`, where no character stands: as long as it could still
become one, and of one byte if it never could. -/
structure Lost (p rest : List UInt8) : Prop where
  ne_nil : p ≠ []
  no_char : ∀ c, ¬ String.utf8EncodeChar c <+: p ++ rest
  begins : Begins p ∨ p.length = 1
  longest : ∀ q, q <+: p ++ rest → Begins q → q.length ≤ p.length

/-- What is lost at a place is lost at its full length. -/
theorem Lost.length_le (h : Lost p rest) (h' : Lost q r) (heq : p ++ rest = q ++ r) :
    p.length ≤ q.length := by
  obtain hbegins | hone := h.begins
  · refine h'.longest p ?_ hbegins
    rw [← heq]
    exact List.prefix_append p rest
  · rw [hone]
    exact List.length_pos_iff.mpr h'.ne_nil

/-- Bytes are lost in one way only. -/
theorem Lost.append_inj (h : Lost p rest) (h' : Lost q r) (heq : p ++ rest = q ++ r) :
    p = q ∧ rest = r :=
  List.append_inj heq (Nat.le_antisymm (h.length_le h' heq) (h'.length_le h heq.symm))

/-- No byte of a lost part is ASCII. -/
theorem Lost.le_of_mem (h : Lost p rest) (hb : b ∈ p) : 0x80 ≤ b.toNat := by
  obtain ⟨hne, c, r, hr, hc⟩ | hone := h.begins
  · have hlarge : ¬ c.toNat < 0x80 := by
      intro hsmall
      have hlength := congrArg List.length hc
      have hp := List.length_pos_iff.mpr hne
      have hr := List.length_pos_iff.mpr hr
      rw [utf8EncodeChar_of_lt hsmall, List.length_append, List.length_singleton] at hlength
      omega
    exact le_of_mem_utf8EncodeChar hlarge (by simp [hc, hb])
  · obtain ⟨a, rfl⟩ := List.length_eq_one_iff.mp hone
    obtain rfl := List.mem_singleton.mp hb
    by_contra hsmall
    refine h.no_char (Char.ofNat b.toNat) ?_
    rw [utf8EncodeChar_of_sequence (.one (UInt8.lt_iff_toNat_lt.mpr (Nat.lt_of_not_le hsmall)))]
    exact List.prefix_append [b] rest

/-- Bytes that pass the first tests are taken. -/
theorem length_le_fitting (h : List.Forall₂ (fun f b => f b = true) fs (p ++ r)) (hp : p <+: rest) :
    p.length ≤ fitting fs rest := by
  induction p generalizing fs rest with
  | nil => exact Nat.zero_le _
  | cons b p ih =>
    obtain ⟨s, rfl⟩ := hp
    obtain _ | ⟨hb, hfit⟩ := h
    simpa [fitting, hb] using ih hfit (List.prefix_append p s)

/-- The bytes taken go on to some that pass all tests. -/
theorem exists_forall₂_take_fitting (hfs : ∀ f ∈ fs, ∃ b, f b) (rest : List UInt8) :
    ∃ r, List.Forall₂ (fun f b => f b = true) fs (rest.take (fitting fs rest) ++ r) := by
  induction fs generalizing rest with
  | nil => exact ⟨[], by simp [fitting]⟩
  | cons f fs ih =>
    obtain ⟨hf, hfs⟩ := List.forall_mem_cons.mp hfs
    by_cases hfit : ∃ b more, rest = b :: more ∧ f b
    · obtain ⟨b, more, rfl, hb⟩ := hfit
      obtain ⟨r, hr⟩ := ih hfs more
      exact ⟨r, by simpa [fitting, hb] using hr⟩
    · obtain ⟨b, hb⟩ := hf
      obtain ⟨r, hr⟩ := ih hfs []
      have hnone : fitting (f :: fs) rest = 0 := by
        cases rest with
        | nil => rfl
        | cons c more => exact if_neg fun hc => hfit ⟨c, more, rfl, hc⟩
      exact ⟨b :: r, by simpa [hnone, hb] using hr⟩

/-- Where no character stands, decoding loses the longest part that could begin one. -/
theorem lost_decodeFirst (h : ∀ c, ¬ String.utf8EncodeChar c <+: lead :: rest) :
    Lost (lead :: rest.take (decodeFirst lead rest).2) (rest.drop (decodeFirst lead rest).2) := by
  rw [snd_decodeFirst]
  refine ⟨List.cons_ne_nil _ _, ?_, ?_, ?_⟩
  · simpa using h
  · cases hfs : follows lead with
    | none => exact .inr (by simp [fitting])
    | some fs =>
      obtain ⟨r, hr⟩ := exists_forall₂_take_fitting (fun f => exists_of_mem_follows hfs) rest
      obtain ⟨n, hn⟩ := sequence_of_follows hfs hr
      have hencode := utf8EncodeChar_of_sequence hn
      refine .inl ⟨List.cons_ne_nil _ _, Char.ofNat n, r, ?_, hencode⟩
      -- With nothing to add, the part would be a character already.
      intro hnil
      refine h (Char.ofNat n) ?_
      rw [hencode, hnil, List.append_nil, List.cons_prefix_cons]
      exact ⟨rfl, List.take_prefix _ rest⟩
  · intro q hq hbegins
    obtain ⟨hne, c, r, -, hc⟩ := hbegins
    obtain ⟨a, q, rfl⟩ := List.exists_cons_of_ne_nil hne
    rw [List.cons_append, List.take_append_drop, List.cons_prefix_cons] at hq
    obtain ⟨rfl, hq⟩ := hq
    obtain ⟨n, _, _, hencode, hsequence⟩ := sequence_utf8EncodeChar c
    obtain ⟨rfl, rfl⟩ := List.cons.inj (hencode.symm.trans hc)
    obtain ⟨fs, hfs, hfit⟩ := (decodeFirst_of_sequence hsequence).1
    have hle := length_le_fitting hfit hq
    have hrest := hq.length_le
    simp only [hfs, Option.getD_some, List.length_cons, List.length_take]
    omega

/-! ## All bytes -/

/-- The text of bytes: the characters that they encode, and one replacement character
for each part that is lost. -/
inductive Decodes : List UInt8 → Text → Prop
  | nil : Decodes [] []
  | char (c : Char) {bytes : List UInt8} {t : Text} (h : Decodes bytes t) :
      Decodes (String.utf8EncodeChar c ++ bytes) (c :: t)
  | lost {p bytes : List UInt8} {t : Text} (hp : Lost p bytes) (h : Decodes bytes t) :
      Decodes (p ++ bytes) (replacement :: t)

theorem decodeFrom_zero_cons (read : Text) (lead : UInt8) (rest : List UInt8) :
    decodeFrom read 0 (lead :: rest) =
      decodeFrom ((decodeFirst lead rest).1 :: read) (decodeFirst lead rest).2 rest := rfl

/-- What has been read stands in front of what is decoded later. -/
theorem decodeFrom_eq (read : Text) (skip : Nat) (bytes : List UInt8) :
    decodeFrom read skip bytes = read.reverse ++ decodeLossy (bytes.drop skip) := by
  induction bytes generalizing read skip with
  | nil => cases skip <;> simp [decodeFrom, decodeLossy]
  | cons lead rest ih =>
    cases skip with
    | zero =>
      rw [List.drop_zero, decodeLossy, decodeFrom_zero_cons, decodeFrom_zero_cons, ih, ih]
      simp
    | succ skip => rw [decodeFrom, ih, List.drop_succ_cons]

/-- Decoding goes on after the bytes of the first character. -/
theorem decodeLossy_cons (lead : UInt8) (rest : List UInt8) :
    decodeLossy (lead :: rest) =
      (decodeFirst lead rest).1 :: decodeLossy (rest.drop (decodeFirst lead rest).2) := by
  rw [decodeLossy, decodeFrom_zero_cons, decodeFrom_eq]
  rfl

theorem decodeLossy_utf8EncodeChar_append (c : Char) (rest : List UInt8) :
    decodeLossy (String.utf8EncodeChar c ++ rest) = c :: decodeLossy rest := by
  obtain ⟨-, lead, p, hencode, -⟩ := sequence_utf8EncodeChar c
  rw [hencode, List.cons_append, decodeLossy_cons, decodeFirst_utf8EncodeChar hencode,
    List.drop_left]

/-- Where no character stands, decoding loses a part and goes on after it. -/
theorem exists_lost (hne : bytes ≠ []) (h : ∀ c, ¬ String.utf8EncodeChar c <+: bytes) :
    ∃ p rest, bytes = p ++ rest ∧ Lost p rest ∧
      decodeLossy bytes = replacement :: decodeLossy rest := by
  obtain ⟨lead, rest, rfl⟩ := List.exists_cons_of_ne_nil hne
  refine ⟨_, _, by simp, lost_decodeFirst h, ?_⟩
  rw [decodeLossy_cons, fst_decodeFirst_of_not_sequence]
  intro n p hn hp
  refine h (Char.ofNat n) ?_
  rw [utf8EncodeChar_of_sequence hn, List.cons_prefix_cons]
  exact ⟨rfl, hp⟩

/-- **Decoding obeys the rules.** -/
theorem decodes_decodeLossy (bytes : List UInt8) : Decodes bytes (decodeLossy bytes) := by
  induction hlength : bytes.length using Nat.strongRecOn generalizing bytes with
  | ind n ih =>
    by_cases hne : bytes = []
    · rw [hne]
      exact .nil
    by_cases hchar : ∃ c, String.utf8EncodeChar c <+: bytes
    · obtain ⟨c, rest, rfl⟩ := hchar
      have hpos : 0 < (String.utf8EncodeChar c).length := by
        obtain ⟨-, lead, p, hencode, -⟩ := sequence_utf8EncodeChar c
        simp [hencode]
      rw [List.length_append] at hlength
      rw [decodeLossy_utf8EncodeChar_append]
      exact .char c (ih rest.length (by omega) rest rfl)
    · obtain ⟨p, rest, rfl, hlost, hdecode⟩ := exists_lost hne (not_exists.mp hchar)
      have hpos := List.length_pos_iff.mpr hlost.ne_nil
      rw [List.length_append] at hlength
      rw [hdecode]
      exact .lost hlost (ih rest.length (by omega) rest rfl)

/-- Decoding finds the text of any bytes, and there is only one. -/
theorem decodes_iff : Decodes bytes t ↔ decodeLossy bytes = t := by
  constructor
  · intro h
    induction h with
    | nil => rfl
    | char c h ih => rw [decodeLossy_utf8EncodeChar_append, ih]
    | lost hlost h ih =>
      obtain ⟨q, rest, heq, hq, hdecode⟩ := exists_lost (by simp [hlost.ne_nil]) hlost.no_char
      obtain ⟨-, rfl⟩ := hlost.append_inj hq heq
      rw [hdecode, ih]
  · intro h
    rw [← h]
    exact decodes_decodeLossy bytes

theorem decodes_toBytes (t : Text) : Decodes (toBytes t) t := by
  induction t with
  | nil => exact .nil
  | cons c t ih => exact .char c ih

/-- Large bytes bring no ASCII bytes. -/
theorem filter_ascii_eq_nil (h : ∀ b ∈ p, 0x80 ≤ b.toNat) :
    p.filter (fun b => b.toNat < 0x80) = [] := by
  simpa using h

/-- The ASCII characters of a text are the ASCII bytes it was decoded from. -/
theorem Decodes.filter_ascii (h : Decodes bytes t) :
    t.filter (fun c => c.toNat < 0x80) =
      (bytes.filter fun b => b.toNat < 0x80).map fun b => Char.ofNat b.toNat := by
  induction h with
  | nil => rfl
  | char c h ih =>
    rw [List.filter_append, List.map_append, ← ih]
    by_cases hc : c.toNat < 0x80
    · have hbyte : (UInt8.ofNat c.toNat).toNat = c.toNat := by
        rw [UInt8.toNat_ofNat', Nat.mod_eq_of_lt (by omega)]
      simp [utf8EncodeChar_of_lt hc, hbyte, hc]
    · rw [filter_ascii_eq_nil fun b => le_of_mem_utf8EncodeChar hc,
        List.filter_cons_of_neg (by simpa using hc)]
      rfl
  | lost hlost h ih =>
    rw [List.filter_append, filter_ascii_eq_nil fun b => hlost.le_of_mem, List.nil_append, ← ih]
    rfl

end DumpBridge.Text

namespace DumpBridge.Source

/-- A text without one byte order mark at its start. -/
def withoutMark (t : Text) : Text :=
  if t.head? = some Text.byteOrderMark then t.tail else t

theorem decode_eq (bytes : List UInt8) : decode bytes = withoutMark (Text.decodeLossy bytes) := by
  rw [decode]
  cases Text.decodeLossy bytes with
  | nil => rfl
  | cons c rest => by_cases hc : c = Text.byteOrderMark <;> simp [withoutMark, hc]

/-- The byte order mark is not ASCII. -/
theorem filter_ascii_withoutMark (t : Text) :
    (withoutMark t).filter (fun c => c.toNat < 0x80) = t.filter fun c => c.toNat < 0x80 := by
  unfold withoutMark
  split_ifs with hmark
  · obtain ⟨rest, rfl⟩ := List.head?_eq_some_iff.mp hmark
    rfl
  · rfl

/-- Decoding gives back a text from its bytes, but for one byte order mark at its start.
From any bytes it gives the characters that they encode and one replacement character
for each longest part that is lost, and neither adds, drops nor moves an ASCII byte. -/
theorem decode_keeps_ascii (t : Text) (bytes : List UInt8) :
    decode (Text.toBytes t) = withoutMark t ∧
      (∃ u, Text.Decodes bytes u ∧ decode bytes = withoutMark u) ∧
      (decode bytes).filter (fun c => c.toNat < 0x80) =
        (bytes.filter fun b => b.toNat < 0x80).map fun b => Char.ofNat b.toNat := by
  have hdecodes := Text.decodes_decodeLossy bytes
  refine ⟨?_, ⟨_, hdecodes, decode_eq bytes⟩, ?_⟩
  · rw [decode_eq, Text.decodes_iff.mp (Text.decodes_toBytes t)]
  · rw [decode_eq, filter_ascii_withoutMark, hdecodes.filter_ascii]

/-- A character cut off by a quote leaves the quote. -/
example : decode [0x27, 0xF0, 0x9F, 0x98, 0x27, 0xC0, 0x29] =
    ['\'', Text.replacement, '\'', Text.replacement, ')'] := by decide

end DumpBridge.Source
