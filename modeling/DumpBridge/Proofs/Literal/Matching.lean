import DumpBridge.Proofs.Literal.Nesting
import DumpBridge.Proofs.Text.Bytes

/-!
# The parenthesis that matches

A search for the parenthesis that matches one at a given byte reads the lexemes
from there on and counts.  `closingByte?_eq_some_iff` says what it finds: the
first closing parenthesis outside literals that makes the parentheses level.  It
depends on nothing before the one it starts at and on nothing after the one it
finds (`closingByte?_append`, `closingByte?_eq_some_iff_balanced`).

`Reached` follows the search lexeme by lexeme.  Its count is always the number of
parentheses that are opened and not closed (`Reached.depth_add_closed`), so that
it is never asked to go below zero.
-/

namespace DumpBridge.Literal

open Text (byteLength toBytes byteLength_append byteLength_cons append_inj_of_byteLength)

/-- In a scan that starts outside literals at byte `i`, the closing parenthesis at byte `c` is
outside literals, and up to it as many parentheses are closed as opened. -/
def LevelAt (q : Quoting) (t : Text) (i c : Nat) : Prop :=
  ∃ before s front rest, t = before ++ s ∧ byteLength before = i ∧
    lexemes q s = front ++ .code ')' :: rest ∧
    opened (front ++ [.code ')']) = closed (front ++ [.code ')']) ∧
    c = i + byteLength (front.flatMap Lexeme.text)

/-- `Reached ls read depth rest`: a search that starts with the lexemes `ls` comes to have read
`read`, with `depth` parentheses open, and `rest` to read. -/
inductive Reached (ls : List Lexeme) : List Lexeme → Nat → List Lexeme → Prop
  | start : Reached ls [] 0 ls
  | next {read rest : List Lexeme} {depth : Nat} {l : Lexeme}
    (h : Reached ls read depth (l :: rest))
      (hl : ¬ (l = .code ')' ∧ depth ≤ 1)) : Reached ls (read ++ [l]) (l.depthAfter depth) rest

variable {q : Quoting} {s t inner : Text} {ls read rest p : List Lexeme} {depth i c : Nat}

/-! ## The search, lexeme by lexeme -/

/-- The search goes on from what it has reached. -/
theorem Reached.groupFrom_eq (h : Reached ls read depth rest) :
    groupFrom 0 ls = (groupFrom depth rest).map (read ++ ·) := by
  induction h with
  | start => simp
  | next h hl ih =>
    rw [ih, groupFrom, if_neg (by simpa using hl), Option.map_map]
    congr 1
    funext group
    simp

/-- **The count of the search** is what is opened and not closed.  After the first parenthesis it is
never zero. -/
theorem Reached.depth_add_closed (h : Reached (.code '(' :: ls) read depth rest) :
    depth + closed read = opened read ∧ (read = [] ∧ rest = .code '(' :: ls ∨ 1 ≤ depth) := by
  induction h with
  | start => exact ⟨rfl, .inl ⟨rfl, rfl⟩⟩
  | @next read rest depth l h hl ih =>
    obtain ⟨hcount, ⟨rfl, hrest⟩ | hdepth⟩ := ih
    · obtain ⟨rfl, rfl⟩ := List.cons.inj hrest
      obtain rfl : depth = 0 := by simpa [opened, closed] using hcount
      exact ⟨rfl, .inr (Nat.le_refl 1)⟩
    · obtain ⟨hone, hafter⟩ := count_depthAfter hdepth hl []
      simp only [opened, closed, List.count_append, List.count_nil] at hcount hafter ⊢
      exact ⟨by omega, .inr hone⟩

/-- A search that finds nothing never had as many parentheses closed as opened. -/
theorem lt_of_groupFrom_eq_none (hdepth : 1 ≤ depth) (h : groupFrom depth ls = none)
    (hp : p <+: ls) : closed p < depth + opened p := by
  induction ls generalizing depth p with
  | nil =>
    obtain rfl := List.prefix_nil.mp hp
    exact Nat.lt_of_lt_of_le hdepth (Nat.le_add_right depth _)
  | cons l ls ih =>
    have hl : ¬ (l = .code ')' ∧ depth ≤ 1) := by
      rintro ⟨rfl, hone⟩
      simp [groupFrom, hone] at h
    rw [groupFrom, if_neg (by simpa using hl), Option.map_eq_none_iff] at h
    rcases List.prefix_cons_iff.mp hp with rfl | ⟨p, rfl, htail⟩
    · exact Nat.lt_of_lt_of_le hdepth (Nat.le_add_right depth _)
    · obtain ⟨hone, hafter⟩ := count_depthAfter hdepth hl p
      have := ih hone h htail
      omega

/-! ## What the search finds -/

theorem opened_cons_open (p : List Lexeme) : opened (.code '(' :: p) = opened p + 1 := by
  simp [opened]

theorem closed_cons_open (p : List Lexeme) : closed (.code '(' :: p) = closed p := by
  simp [closed]

/-- **A parenthesis is closed** by the one behind a balanced text. -/
theorem closing?_eq_some_iff {n : Nat} : closing? q s = some n ↔
    ∃ inner after, s = '(' :: (inner ++ ')' :: after) ∧ Balanced q inner ∧
      n = inner.length + 1 := by
  constructor
  · intro h
    obtain ⟨inner, after, rfl, hinner⟩ := balanced_of_closing? h
    rw [closing?_parenthesised hinner] at h
    exact ⟨inner, after, rfl, hinner, (Option.some.inj h).symm⟩
  · rintro ⟨inner, after, rfl, hinner, rfl⟩
    exact closing?_parenthesised hinner after

/-- A text is balanced just if parentheses around it match. -/
theorem balanced_iff_closing? :
    Balanced q inner ↔ closing? q ('(' :: (inner ++ [')'])) = some (inner.length + 1) := by
  constructor
  · intro h
    exact closing?_parenthesised h []
  · intro h
    obtain ⟨inner', after, hcut, hinner, hlength⟩ := closing?_eq_some_iff.mp h
    obtain ⟨-, hcut⟩ := List.cons.inj hcut
    obtain ⟨rfl, -⟩ := List.append_inj hcut (Nat.succ.inj hlength)
    exact hinner

instance : Decidable (Balanced q inner) :=
  decidable_of_iff' _ balanced_iff_closing?

/-- A balanced text ends at the parenthesis that closes it. -/
theorem Balanced.append_close_inj {inner' after after' : Text} (h : Balanced q inner)
    (h' : Balanced q inner') (heq : inner ++ ')' :: after = inner' ++ ')' :: after') :
    inner = inner' ∧ after = after' := by
  have hfound := closing?_parenthesised h after
  rw [heq, closing?_parenthesised h'] at hfound
  obtain ⟨rfl, hrest⟩ := List.append_inj heq (Nat.succ.inj (Option.some.inj hfound)).symm
  exact ⟨rfl, (List.cons.inj hrest).2⟩

/-- Parentheses level out nowhere before the one that closes a balanced text. -/
theorem Balanced.prefix_of_level {front : List Lexeme} (h : Balanced q inner)
    (hcut : lexemes q ('(' :: (inner ++ ')' :: t)) = front ++ Lexeme.code ')' :: rest)
    (hlevel : opened (front ++ [Lexeme.code ')']) = closed (front ++ [Lexeme.code ')'])) :
    .code '(' :: lexemes q inner <+: front := by
  have hnot : ¬ front ++ [Lexeme.code ')'] <+: .code '(' :: lexemes q inner := by
    intro hprefix
    rcases List.prefix_cons_iff.mp hprefix with hnil | ⟨p, hp, htail⟩
    · simp at hnil
    · have hbelow := h.never_below p htail
      rw [hp, opened_cons_open, closed_cons_open] at hlevel
      omega
  rw [lexemes_parenthesised h] at hcut
  have hfront : front ++ [Lexeme.code ')'] <+: .code '(' :: lexemes q inner ++ .code ')' ::
      lexemes q t :=
    ⟨rest, by simpa using hcut.symm⟩
  have hinner : .code '(' :: lexemes q inner <+: .code '(' :: lexemes q inner ++ .code ')' ::
      lexemes q t :=
    List.prefix_append _ _
  rcases List.prefix_or_prefix_of_prefix hfront hinner with hprefix | hprefix
  · exact absurd hprefix hnot
  · rcases List.prefix_concat_iff.mp hprefix with heq | hprefix
    · exact absurd (heq ▸ List.prefix_rfl) hnot
    · exact hprefix

/-- A text that levels out has a matching parenthesis. -/
theorem isSome_closing?_of_level {front : List Lexeme}
    (hcut : lexemes q ('(' :: s) = front ++ Lexeme.code ')' :: rest)
    (hlevel : opened (front ++ [Lexeme.code ')']) = closed (front ++ [Lexeme.code ')'])) :
    (closing? q ('(' :: s)).isSome := by
  rw [lexemes_code (by decide)] at hcut
  cases hgroup : groupFrom 1 (lexemes q s) with
  | some group =>
    have hfrom : groupFrom 0 (.code '(' :: lexemes q s) = some (.code '(' :: group) := by
      rw [groupFrom, if_neg (by decide), Lexeme.depthAfter, hgroup]
      rfl
    simp [closing?, Text.startsWith, lexemes_code (q := q) (c := '(') (by decide), hfrom]
  | none =>
    have hprefix : front ++ [Lexeme.code ')'] <+: .code '(' :: lexemes q s :=
      ⟨rest, by simp [hcut]⟩
    rcases List.prefix_cons_iff.mp hprefix with hnil | ⟨p, hp, htail⟩
    · simp at hnil
    · have hbelow := lt_of_groupFrom_eq_none (Nat.le_refl 1) hgroup htail
      rw [hp, opened_cons_open, closed_cons_open] at hlevel
      omega

/-! ## Offsets in bytes -/

/-- **What stands before** the parenthesis only shifts what is found. -/
theorem closingByte?_append (before s : Text) :
    closingByte? q (before ++ s) (byteLength before) =
      (closing? q s).map fun n => byteLength before + byteLength (s.take n) := by
  cases s with
  | nil =>
    have hnone : Text.charIndex? (before ++ []) (byteLength before) = none := by
      cases hindex : Text.charIndex? (before ++ []) (byteLength before) with
      | none => rfl
      | some k =>
        obtain ⟨x, c, u, hcut, hx, -⟩ := Text.exists_of_charIndex? hindex
        obtain ⟨-, hrest⟩ := append_inj_of_byteLength hcut hx.symm
        cases hrest
    unfold closingByte?
    rw [hnone]
    rfl
  | cons c s =>
    unfold closingByte?
    rw [Text.charIndex?_append]
    change ((closing? q ((before ++ c :: s).drop before.length)).bind fun n => _) = _
    rw [List.drop_left]
    cases closing? q (c :: s) with
    | none => rfl
    | some n =>
      change some (Text.byteOffset (before ++ c :: s) (before.length + n)) = _
      rw [Text.byteOffset, List.take_length_add_append, byteLength_append]
      rfl

/-- The parenthesis that is found closes a balanced text. -/
theorem closingByte?_eq_some_iff_balanced : closingByte? q t i = some c ↔
    ∃ before inner after, t = before ++ '(' :: (inner ++ ')' :: after) ∧ byteLength before = i ∧
      Balanced q inner ∧ c = i + byteLength ('(' :: inner) := by
  have htake : ∀ inner after : Text,
      ('(' :: (inner ++ ')' :: after)).take (inner.length + 1) = '(' :: inner := by
    intro inner after
    simp
  constructor
  · intro h
    have hindex : ∃ k, Text.charIndex? t i = some k := by
      cases hindex : Text.charIndex? t i with
      | none => simp [closingByte?, hindex] at h
      | some k => exact ⟨k, rfl⟩
    obtain ⟨k, hindex⟩ := hindex
    obtain ⟨before, d, s, rfl, rfl, -⟩ := Text.exists_of_charIndex? hindex
    rw [closingByte?_append] at h
    obtain ⟨n, hn, rfl⟩ := Option.map_eq_some_iff.mp h
    obtain ⟨inner, after, hs, hinner, rfl⟩ := closing?_eq_some_iff.mp hn
    exact ⟨before, inner, after, by rw [hs], rfl, hinner, by rw [hs, htake]⟩
  · rintro ⟨before, inner, after, rfl, rfl, hinner, rfl⟩
    rw [closingByte?_append, closing?_parenthesised hinner, Option.map_some, htake]

/-- A parenthesis is closed further on, inside the text. -/
theorem lt_of_closingByte? (h : closingByte? q t i = some c) : i < c ∧ c < byteLength t := by
  obtain ⟨before, inner, after, rfl, rfl, -, rfl⟩ := closingByte?_eq_some_iff_balanced.mp h
  have hopen : '('.utf8Size = 1 := rfl
  have hclose : ')'.utf8Size = 1 := rfl
  simp only [byteLength_append, byteLength_cons, hopen, hclose]
  omega

/-- At the parenthesis that closes a balanced text the parentheses are level. -/
theorem Balanced.levelAt (h : Balanced q inner) (before after : Text) :
    LevelAt q (before ++ '(' :: (inner ++ ')' :: after)) (byteLength before)
      (byteLength before + byteLength ('(' :: inner)) := by
  refine ⟨before, _, .code '(' :: lexemes q inner, lexemes q after, rfl, rfl,
    lexemes_parenthesised h after, ?_, ?_⟩
  · have hlevel := h.level
    simp only [opened, closed] at hlevel
    simp [opened, closed, hlevel]
  · rw [List.flatMap_cons, flatMap_text_lexemes]
    rfl

/-- They are level nowhere before it. -/
theorem Balanced.le_of_levelAt {before after : Text} (h : Balanced q inner)
    (hc : LevelAt q (before ++ '(' :: (inner ++ ')' :: after)) (byteLength before) c) :
    byteLength before + byteLength ('(' :: inner) ≤ c := by
  obtain ⟨before', s, front, rest, ht, hi, hcut, hlevel, rfl⟩ := hc
  obtain ⟨-, rfl⟩ := append_inj_of_byteLength ht hi.symm
  obtain ⟨more, rfl⟩ := h.prefix_of_level hcut hlevel
  rw [List.flatMap_append, byteLength_append, List.flatMap_cons, flatMap_text_lexemes]
  exact Nat.add_le_add_left (Nat.le_add_right _ _) _

/-- Where they are level at all, a balanced text is closed. -/
theorem exists_balanced_of_levelAt {before : Text}
    (h : LevelAt q (before ++ '(' :: s) (byteLength before) c) :
    ∃ inner after, s = inner ++ ')' :: after ∧ Balanced q inner := by
  obtain ⟨before', s', front, rest, ht, hi, hcut, hlevel, -⟩ := h
  obtain ⟨-, rfl⟩ := append_inj_of_byteLength ht hi.symm
  obtain ⟨n, hn⟩ := Option.isSome_iff_exists.mp (isSome_closing?_of_level hcut hlevel)
  obtain ⟨inner, after, hs, hinner⟩ := balanced_of_closing? hn
  exact ⟨inner, after, (List.cons.inj hs).2, hinner⟩

/-- **What is found** is the first closing parenthesis that makes the parentheses level. -/
theorem closingByte?_eq_some_iff : closingByte? q t i = some c ↔
    (toBytes t)[i]? = some 0x28 ∧ LevelAt q t i c ∧ ∀ c', LevelAt q t i c' → c ≤ c' := by
  have hopens : (toBytes t)[i]? = some 0x28 ↔ ∃ x u, t = x ++ '(' :: u ∧ byteLength x = i :=
    Text.getElem?_toBytes_eq_some_iff (c := '(') (by decide)
  rw [hopens, closingByte?_eq_some_iff_balanced]
  constructor
  · rintro ⟨before, inner, after, rfl, rfl, hinner, rfl⟩
    exact ⟨⟨before, _, rfl, rfl⟩, hinner.levelAt before after, fun c' => hinner.le_of_levelAt⟩
  · rintro ⟨⟨before, s, rfl, rfl⟩, hlevel, hfirst⟩
    obtain ⟨inner, after, rfl, hinner⟩ := exists_balanced_of_levelAt hlevel
    refine ⟨before, inner, after, rfl, rfl, hinner, ?_⟩
    exact Nat.le_antisymm (hfirst _ (hinner.levelAt before after)) (hinner.le_of_levelAt hlevel)

/-- **The matching parenthesis.**  From a parenthesis at byte `i` the search finds the first one at
which the parentheses outside literals are level, and from anything else nothing.  Its count is what
is opened and not closed, and where it meets a closing parenthesis it is not zero.  Text before byte
`i` only shifts the result, whatever it is, and text after the parenthesis that is found does not
matter. -/
theorem closingByte?_matches (q : Quoting) (t : Text) (i : Nat) :
    (∀ c, closingByte? q t i = some c ↔
        (toBytes t)[i]? = some 0x28 ∧ LevelAt q t i c ∧ ∀ c', LevelAt q t i c' → c ≤ c') ∧
      (∀ before s read depth rest, t = before ++ '(' :: s → byteLength before = i →
        Reached (lexemes q ('(' :: s)) read depth rest →
          groupFrom 0 (lexemes q ('(' :: s)) = (groupFrom depth rest).map (read ++ ·) ∧
          depth + closed read = opened read ∧ (rest.head? = some (.code ')') → 1 ≤ depth)) ∧
      (∀ before s before', t = before ++ s → byteLength before = i →
        closingByte? q (before' ++ s) (byteLength before') =
          (closingByte? q t i).map (· - i + byteLength before')) ∧
      ∀ c, closingByte? q t i = some c →
        ∃ before group after, t = before ++ (group ++ after) ∧ byteLength before = i ∧
          byteLength (before ++ group) = c + 1 ∧
          ∀ before' after', closingByte? q (before' ++ (group ++ after')) (byteLength before') =
            some (c - i + byteLength before') := by
  refine ⟨fun c => closingByte?_eq_some_iff, ?_, ?_, ?_⟩
  · rintro before s read depth rest rfl rfl h
    refine ⟨h.groupFrom_eq, ?_⟩
    rw [lexemes_code (by decide)] at h
    obtain ⟨hcount, ⟨rfl, rfl⟩ | hdepth⟩ := h.depth_add_closed
    · exact ⟨hcount, fun hhead => by simp at hhead⟩
    · exact ⟨hcount, fun _ => hdepth⟩
  · rintro before s before' rfl rfl
    rw [closingByte?_append, closingByte?_append, Option.map_map]
    congr 1
    funext n
    simp [Nat.add_comm]
  · intro c h
    obtain ⟨before, inner, after, rfl, rfl, hinner, rfl⟩ := closingByte?_eq_some_iff_balanced.mp h
    refine ⟨before, '(' :: (inner ++ [')']), after, by simp, rfl, ?_, fun before' after' => ?_⟩
    · have hone : byteLength [')'] = 1 := rfl
      rw [← List.cons_append, byteLength_append, byteLength_append, hone, Nat.add_assoc]
    · refine closingByte?_eq_some_iff_balanced.mpr
        ⟨before', inner, after', by simp, rfl, hinner, ?_⟩
      rw [Nat.add_sub_cancel_left, Nat.add_comm]

end DumpBridge.Literal
