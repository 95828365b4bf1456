import DumpBridge.Literal.Paren
import DumpBridge.Proofs.Literal.Lexed

/-!
# Parentheses that match outside literals

A closing parenthesis matches the opening one before a list of lexemes if, up
to it, the list never closes more than it opens.  `groupFrom_eq_some_iff` says
that `groupFrom` finds just that parenthesis.

The text between two parentheses that match is `Balanced`.  A balanced text is
read alike alone and in its parentheses, whatever follows them
(`lexemes_parenthesised`).
-/

namespace DumpBridge.Literal

/-- How many parentheses are opened outside literals. -/
def opened (ls : List Lexeme) : Nat :=
  ls.count (.code '(')

/-- How many parentheses are closed outside literals. -/
def closed (ls : List Lexeme) : Nat :=
  ls.count (.code ')')

/-- With `depth` parentheses open before them, the lexemes leave one open and
never had fewer. -/
structure LeavesOne (depth : Nat) (ls : List Lexeme) : Prop where
  above : ∀ p, p <+: ls → closed p < depth + opened p
  one : depth + opened ls = closed ls + 1

/-- Unless it closes the last parenthesis, a lexeme passes the count on to what
follows it. -/
theorem count_depthAfter {depth : Nat} {l : Lexeme} (hdepth : 1 ≤ depth)
    (hl : ¬ (l = .code ')' ∧ depth ≤ 1)) (p : List Lexeme) :
    1 ≤ l.depthAfter depth ∧
      depth + opened (l :: p) + closed p = l.depthAfter depth + opened p + closed (l :: p) := by
  simp only [opened, closed, List.count_cons]
  fun_cases Lexeme.depthAfter depth l with
  | case1 => grind
  | case2 =>
    have hdeep : ¬ depth ≤ 1 := fun h => hl ⟨rfl, h⟩
    grind
  | case3 hopen hclose => grind

/-- A list with such a lexeme in front leaves one open just if the rest does. -/
theorem leavesOne_cons {depth : Nat} {l : Lexeme} {ls : List Lexeme} (hdepth : 1 ≤ depth)
    (hl : ¬ (l = .code ')' ∧ depth ≤ 1)) :
    LeavesOne depth (l :: ls) ↔ LeavesOne (l.depthAfter depth) ls := by
  have hcount := count_depthAfter hdepth hl
  constructor
  · intro h
    refine ⟨fun p hp => ?_, ?_⟩
    · have := h.above (l :: p) (List.cons_prefix_cons.mpr ⟨rfl, hp⟩)
      have := (hcount p).2
      omega
    · have := h.one
      have := (hcount ls).2
      omega
  · intro h
    refine ⟨fun p hp => ?_, ?_⟩
    · rcases List.prefix_cons_iff.mp hp with rfl | ⟨p, rfl, htail⟩
      · exact Nat.lt_of_lt_of_le hdepth (Nat.le_add_right depth _)
      · have := h.above p htail
        have := (hcount p).2
        omega
    · have := h.one
      have := (hcount ls).2
      omega

/-- **The matching parenthesis.**  `groupFrom` gives the lexemes before the
closing parenthesis that is the first to leave none open. -/
theorem groupFrom_eq_some_iff {depth : Nat} {ls group : List Lexeme} (hdepth : 1 ≤ depth) :
    groupFrom depth ls = some group ↔
      LeavesOne depth group ∧ ∃ rest, ls = group ++ Lexeme.code ')' :: rest := by
  induction ls generalizing depth group with
  | nil => simp [groupFrom]
  | cons l ls ih =>
    by_cases hl : l = .code ')' ∧ depth ≤ 1
    · obtain ⟨rfl, hone⟩ := hl
      obtain rfl : depth = 1 := by omega
      constructor
      · intro h
        obtain rfl : [] = group := by simpa [groupFrom] using h
        exact ⟨⟨by simp [opened, closed], rfl⟩, ls, rfl⟩
      · rintro ⟨hgroup, rest, hls⟩
        -- A longer group would close the last parenthesis with its first lexeme.
        rcases List.cons_eq_append_iff.mp hls with ⟨rfl, -⟩ | ⟨group, rfl, -⟩
        · simp [groupFrom]
        · have := hgroup.above [.code ')'] (by simp)
          simp [opened, closed] at this
    · have hgroup : groupFrom depth (l :: ls) =
          (groupFrom (l.depthAfter depth) ls).map (l :: ·) := by
        rw [groupFrom, if_neg (by simpa using hl)]
      rw [hgroup, Option.map_eq_some_iff]
      constructor
      · rintro ⟨group, h, rfl⟩
        obtain ⟨hleaves, rest, rfl⟩ := (ih (count_depthAfter hdepth hl []).1).mp h
        exact ⟨(leavesOne_cons hdepth hl).mpr hleaves, rest, rfl⟩
      · rintro ⟨hleaves, rest, hls⟩
        rcases List.cons_eq_append_iff.mp hls with ⟨rfl, hclose⟩ | ⟨group', rfl, htail⟩
        · -- The list starts with the closing parenthesis, so `depth` is one.
          have hone := hleaves.one
          simp only [opened, closed, List.count_nil] at hone
          obtain ⟨hl', -⟩ := List.cons.inj hclose
          exact absurd ⟨hl'.symm, by omega⟩ hl
        · refine ⟨group', (ih (count_depthAfter hdepth hl []).1).mpr ⟨?_, rest, htail⟩, rfl⟩
          exact (leavesOne_cons hdepth hl).mp hleaves

/-- The text ends outside literals, and its parentheses outside literals match
each other. -/
structure Balanced (q : Quoting) (t : Text) : Prop where
  outside : markAfter none (lexemes q t) = none
  never_below : ∀ p, p <+: lexemes q t → closed p ≤ opened p
  level : opened (lexemes q t) = closed (lexemes q t)

variable {q : Quoting} {ls xs ys : List Lexeme} {t inner : Text} {c : Char}

theorem Balanced.leavesOne (h : Balanced q inner) : LeavesOne 1 (lexemes q inner) := by
  refine ⟨fun p hp => ?_, ?_⟩
  · have := h.never_below p hp
    omega
  · have := h.level
    omega

/-- A parenthesis outside literals. -/
def Lexeme.isParen : Lexeme → Bool
  | code c => c = '(' || c = ')'
  | _ => false

/-- **Only its parentheses matter**: a text that leaves no literal open is balanced if
it has the parentheses of one that is. -/
theorem Balanced.of_parens {t' : Text} (h : Balanced q t)
    (houtside : markAfter none (lexemes q t') = none)
    (hparens : (lexemes q t').filter Lexeme.isParen = (lexemes q t).filter Lexeme.isParen) :
    Balanced q t' := by
  have hopened : ∀ ls, opened (ls.filter Lexeme.isParen) = opened ls := fun ls =>
    List.count_filter rfl
  have hclosed : ∀ ls, closed (ls.filter Lexeme.isParen) = closed ls := fun ls =>
    List.count_filter rfl
  refine ⟨houtside, fun p hp => ?_, ?_⟩
  · -- The parentheses of a beginning are those of a beginning of the balanced text.
    obtain ⟨more, hmore⟩ := hp.filter Lexeme.isParen
    rw [hparens] at hmore
    obtain ⟨p', rest, hsplit, hp', -⟩ := List.filter_eq_append_iff.mp hmore.symm
    have hbelow := h.never_below p' ⟨rest, hsplit.symm⟩
    rwa [← hopened, ← hclosed, hp', hopened, hclosed] at hbelow
  · rw [← hopened, ← hclosed, hparens, hopened, hclosed, h.level]

/-- A mark that closes a literal is a quotation mark. -/
theorem Lexed.isQuote_of_closing_mem {mark : Option Char} (h : Lexed q mark ls)
    (hmark : ∀ m, mark = some m → isQuote m) (hc : .closing c ∈ ls) :
    isQuote c := by
  induction h with
  | nil => simp at hc
  | code _ _ ih => exact ih (by simp) (by simpa using hc)
  | opening hm _ ih => exact ih (by simpa using hm) (by simpa using hc)
  | inside _ _ _ ih | doubled _ _ ih | escape _ _ ih => exact ih hmark (by simpa using hc)
  | escapeAtEnd _ hend =>
    subst hend
    simp at hc
  | closing _ _ _ ih =>
    rcases List.mem_cons.mp hc with heq | hc
    · obtain rfl := Lexeme.closing.inj heq
      exact hmark _ rfl
    · exact ih (by simp) hc

/-- Lexed lists can be joined at a character of code, if the first ends outside
literals. -/
theorem Lexed.append_code (hx : Lexed q none xs) (hmark : markAfter none xs = none)
    (hc : isQuote c = false) (hy : Lexed q none ys) :
    Lexed q none (xs ++ .code c :: ys) := by
  refine hx.append (by rw [hmark]; exact .code hc hy) ?_ ?_
  · intro d hlast hhead
    have hd := hx.isQuote_of_closing_mem (by simp) (List.mem_of_getLast? hlast)
    obtain rfl : c = d := by simpa [Lexeme.text] using hhead
    simp [hc] at hd
  · intro d hlast
    -- An escape leaves the literal open, which `hmark` excludes.
    obtain ⟨zs, rfl⟩ := List.getLast?_eq_some_iff.mp hlast
    have hopen := hx.right
    rw [markAfter_append, markAfter_cons, markAfter_nil, Lexeme.markAfter] at hmark
    rw [hmark] at hopen
    cases hopen

/-- A lexed list can be cut at a character of code, and what stands before it
ends outside literals. -/
theorem lexed_append_code_iff (hc : isQuote c = false) :
    Lexed q none (xs ++ .code c :: ys) ↔
      Lexed q none xs ∧ markAfter none xs = none ∧ Lexed q none ys := by
  constructor
  · intro h
    have hright := h.right
    generalize hmark : markAfter none xs = mark at hright
    cases hright with
    | code _ hy => exact ⟨h.left, rfl, hy⟩
  · rintro ⟨hx, hmark, hy⟩
    exact hx.append_code hmark hc hy

/-- A character outside literals stands before what follows it. -/
theorem lexemes_code (hc : isQuote c = false) (t : Text) :
    lexemes q (c :: t) = .code c :: lexemes q t := by
  simp [lexemes, lexemesFrom, hc]

/-- Text without quote marks is code, whatever follows. -/
theorem lexemes_code_append {x : Text} (h : ∀ c ∈ x, isQuote c = false) (t : Text) :
    lexemes q (x ++ t) = x.map .code ++ lexemes q t := by
  induction x with
  | nil => rfl
  | cons c x ih =>
    obtain ⟨hc, h⟩ := List.forall_mem_cons.mp h
    rw [List.cons_append, lexemes_code hc, ih h]
    rfl

theorem markAfter_code (x : Text) : markAfter none (x.map Lexeme.code) = none := by
  induction x with
  | nil => rfl
  | cons c x ih => exact ih

theorem flatMap_text_code (x : Text) : (x.map Lexeme.code).flatMap Lexeme.text = x := by
  induction x with
  | nil => rfl
  | cons c x ih => simpa [Lexeme.text] using ih

/-- **A balanced text in parentheses** has its own lexemes, whatever follows. -/
theorem lexemes_parenthesised (h : Balanced q inner) (t : Text) :
    lexemes q ('(' :: (inner ++ ')' :: t)) =
      .code '(' :: (lexemes q inner ++ .code ')' :: lexemes q t) := by
  rw [lexemes_code (by decide)]
  congr 1
  refine lexemes_eq_iff.mpr ⟨?_, ?_⟩
  · exact (lexed_lexemes q inner).append_code h.outside (by decide) (lexed_lexemes q t)
  · simp [Lexeme.text, flatMap_text_lexemes]

/-- A group that starts a text is the lexemes of a balanced text. -/
theorem balanced_of_groupFrom {group : List Lexeme} (h : groupFrom 1 (lexemes q t) = some group) :
    ∃ inner rest, Balanced q inner ∧ lexemes q inner = group ∧ t = inner ++ ')' :: rest := by
  obtain ⟨hleaves, after, hlexemes⟩ := (groupFrom_eq_some_iff (Nat.le_refl 1)).mp h
  obtain ⟨hlexed, htext⟩ := lexemes_eq_iff.mp hlexemes
  have hinner : lexemes q (group.flatMap Lexeme.text) = group :=
    lexemes_eq_iff.mpr ⟨hlexed.left, rfl⟩
  refine ⟨group.flatMap Lexeme.text, after.flatMap Lexeme.text, ⟨?_, ?_, ?_⟩, hinner, ?_⟩
  · rw [hinner]
    exact ((lexed_append_code_iff (by decide)).mp hlexed).2.1
  · rw [hinner]
    intro p hp
    have := hleaves.above p hp
    omega
  · rw [hinner]
    have := hleaves.one
    omega
  · simpa [Lexeme.text] using htext.symm

/-- The parenthesis after a balanced text closes the one before it. -/
theorem closing?_parenthesised (h : Balanced q inner) (t : Text) :
    closing? q ('(' :: (inner ++ ')' :: t)) = some (inner.length + 1) := by
  have hgroup : groupFrom 1 (lexemes q inner ++ .code ')' :: lexemes q t) =
      some (lexemes q inner) :=
    (groupFrom_eq_some_iff (Nat.le_refl 1)).mpr ⟨h.leavesOne, _, rfl⟩
  have hfrom : groupFrom 0 (.code '(' :: (lexemes q inner ++ .code ')' :: lexemes q t)) =
      some (.code '(' :: lexemes q inner) := by
    rw [groupFrom, if_neg (by decide), Lexeme.depthAfter, hgroup]
    rfl
  have hstart : Text.startsWith '(' ('(' :: (inner ++ ')' :: t)) := by simp [Text.startsWith]
  rw [closing?, if_pos hstart, lexemes_parenthesised h, hfrom, Option.map_some, List.flatMap_cons,
    flatMap_text_lexemes, List.length_append, Nat.add_comm]
  rfl

/-- What a closing parenthesis closes is balanced. -/
theorem balanced_of_closing? {n : Nat} (h : closing? q t = some n) :
    ∃ inner r, t = '(' :: (inner ++ ')' :: r) ∧ Balanced q inner := by
  unfold closing? at h
  split at h
  · next hstart =>
    obtain ⟨t, rfl⟩ : ∃ t', t = '(' :: t' := by
      cases t with
      | nil => simp [Text.startsWith] at hstart
      | cons c t => exact ⟨t, by simpa [Text.startsWith] using hstart⟩
    obtain ⟨group, hgroup, -⟩ := Option.map_eq_some_iff.mp h
    rw [lexemes_code (by decide), groupFrom, if_neg (by decide)] at hgroup
    obtain ⟨inside, hinside, -⟩ := Option.map_eq_some_iff.mp hgroup
    obtain ⟨inner, r, hbalanced, -, rfl⟩ := balanced_of_groupFrom hinside
    exact ⟨inner, r, rfl, hbalanced⟩
  · simp at h

end DumpBridge.Literal
