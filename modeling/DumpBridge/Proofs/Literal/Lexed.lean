import DumpBridge.Literal.Lexeme

/-!
# The grammar of lexemes

`Lexed q mark ls` says by rules, one for each kind of lexeme, that a scan cuts
the text of `ls` into just these lexemes.  The scan obeys the rules
(`lexed_lexemesFrom`) and nothing else does (`Lexed.lexemesFrom_text`), so the
lexemes of a text are the one list that is lexed and has that text
(`lexemesFrom_eq_iff`).

A lexed list can be cut at any place (`Lexed.left`, `Lexed.right`).  Two lists
can be joined unless the text of the second goes on a lexeme of the first: a
closing mark that would be doubled, or an escape that has nothing to take yet
(`Lexed.append`).
-/

namespace DumpBridge.Literal

/-- `Lexed q mark ls`: the lexemes `ls` are what a scan makes of their text.
The scan starts outside literals (`none`) or in one that `some mark` opened. -/
inductive Lexed (q : Quoting) : Option Char → List Lexeme → Prop
  | nil (mark : Option Char) : Lexed q mark []
  | code {c : Char} {ls : List Lexeme}
      (hc : isQuote c = false) (rest : Lexed q none ls) :
      Lexed q none (.code c :: ls)
  | opening {c : Char} {ls : List Lexeme}
      (hc : isQuote c) (rest : Lexed q (some c) ls) :
      Lexed q none (.opening c :: ls)
  | inside {mark c : Char} {ls : List Lexeme}
      (he : q.escapes c = false) (hc : c ≠ mark) (rest : Lexed q (some mark) ls) :
      Lexed q (some mark) (.inside c :: ls)
  | doubled {mark : Char} {ls : List Lexeme}
      (he : q.escapes mark = false) (rest : Lexed q (some mark) ls) :
      Lexed q (some mark) (.pair mark (some mark) :: ls)
  | escape {mark c d : Char} {ls : List Lexeme}
      (he : q.escapes c) (rest : Lexed q (some mark) ls) :
      Lexed q (some mark) (.pair c (some d) :: ls)
  | escapeAtEnd {mark c : Char} {ls : List Lexeme}
      (he : q.escapes c) (hend : ls = []) :
      Lexed q (some mark) (.pair c none :: ls)
  | closing {mark : Char} {ls : List Lexeme}
      (he : q.escapes mark = false)
      (hnext : (ls.flatMap Lexeme.text).head? ≠ some mark) (rest : Lexed q none ls) :
      Lexed q (some mark) (.closing mark :: ls)

/-- No character of a class without the two quote marks is a quote mark. -/
theorem isQuote_eq_false_of_class (P : Char → Prop) (hsingle : ¬ P '\'') (hdouble : ¬ P '"')
    {c : Char} (hc : P c) : isQuote c = false := by
  rw [← Bool.not_eq_true, isQuote, Bool.or_eq_true, decide_eq_true_eq, decide_eq_true_eq]
  rintro (rfl | rfl)
  · exact hsingle hc
  · exact hdouble hc

variable {q : Quoting} {mark : Option Char} {ls xs ys : List Lexeme}

/-- A scan obeys the rules. -/
theorem lexed_lexemesFrom (q : Quoting) (mark : Option Char) (t : Text) :
    Lexed q mark (lexemesFrom q mark t) := by
  fun_induction lexemesFrom q mark t with
  | case1 mark => exact .nil mark
  | case2 c rest hc ih => exact .opening hc ih
  | case3 c rest hc ih => exact .code (by simpa using hc) ih
  | case4 mark c he => exact .escapeAtEnd he rfl
  | case5 mark he => exact .closing (by simpa using he) (by simp) (.nil none)
  | case6 mark c he hc => exact .inside (by simpa using he) hc (.nil _)
  | case7 mark c d rest he ih => exact .escape he ih
  | case8 mark rest he ih => exact .doubled (by simpa using he) ih
  | case9 mark d rest he hd ih =>
    refine .closing (by simpa using he) ?_ ih
    rw [flatMap_text_lexemesFrom]
    simpa using hd
  | case10 mark c d rest he hc ih => exact .inside (by simpa using he) hc ih

/-- The scan takes a character inside a literal, whatever follows. -/
theorem lexemesFrom_inside {m c : Char} (he : q.escapes c = false) (hc : c ≠ m) (t : Text) :
    lexemesFrom q (some m) (c :: t) = .inside c :: lexemesFrom q (some m) t := by
  cases t <;> simp [lexemesFrom, he, hc]

/-- The scan closes a literal at a mark that is not doubled. -/
theorem lexemesFrom_closing {m : Char} {t : Text} (he : q.escapes m = false)
    (hnext : t.head? ≠ some m) :
    lexemesFrom q (some m) (m :: t) = .closing m :: lexemesFrom q none t := by
  cases t with
  | nil => simp [lexemesFrom, he]
  | cons d t =>
    have hd : d ≠ m := by simpa using hnext
    simp [lexemesFrom, he, hd]

/-- The rules leave the scan no choice. -/
theorem Lexed.lexemesFrom_text (h : Lexed q mark ls) :
    lexemesFrom q mark (ls.flatMap Lexeme.text) = ls := by
  induction h with
  | nil mark => simp [lexemesFrom]
  | code hc _ ih | opening hc _ ih => simp [Lexeme.text, lexemesFrom, hc, ih]
  | inside he hc _ ih => simp [Lexeme.text, lexemesFrom_inside he hc, ih]
  | doubled he _ ih | escape he _ ih => simp [Lexeme.text, lexemesFrom, he, ih]
  | escapeAtEnd he hend => simp [Lexeme.text, lexemesFrom, he, hend]
  | closing he hnext _ ih => simp [Lexeme.text, lexemesFrom_closing he hnext, ih]

/-- **The lexemes of a text** are the one lexed list with that text. -/
theorem lexemesFrom_eq_iff {t : Text} :
    lexemesFrom q mark t = ls ↔ Lexed q mark ls ∧ ls.flatMap Lexeme.text = t := by
  constructor
  · rintro rfl
    exact ⟨lexed_lexemesFrom q mark t, flatMap_text_lexemesFrom q mark t⟩
  · rintro ⟨h, rfl⟩
    exact h.lexemesFrom_text

theorem lexed_lexemes (q : Quoting) (t : Text) : Lexed q none (lexemes q t) :=
  lexed_lexemesFrom q none t

theorem lexemes_eq_iff {t : Text} :
    lexemes q t = ls ↔ Lexed q none ls ∧ ls.flatMap Lexeme.text = t :=
  lexemesFrom_eq_iff

/-- The literal that is open after a lexeme, if `mark` was open before it. -/
def Lexeme.markAfter (mark : Option Char) : Lexeme → Option Char
  | code _ => none
  | opening c => some c
  | inside _ => mark
  | pair _ _ => mark
  | closing _ => none

/-- The literal that is open after lexemes, if `mark` was open before them. -/
def markAfter (mark : Option Char) (ls : List Lexeme) : Option Char :=
  ls.foldl Lexeme.markAfter mark

@[simp] theorem markAfter_nil (mark : Option Char) : markAfter mark [] = mark := rfl

@[simp] theorem markAfter_cons (mark : Option Char) (l : Lexeme) (ls : List Lexeme) :
    markAfter mark (l :: ls) = markAfter (l.markAfter mark) ls := rfl

/-- What is open after two runs of lexemes. -/
theorem markAfter_append (mark : Option Char) (xs ys : List Lexeme) :
    markAfter mark (xs ++ ys) = markAfter (markAfter mark xs) ys :=
  List.foldl_append

/-- A lexeme has at least one character. -/
theorem Lexeme.text_ne_nil (l : Lexeme) : l.text ≠ [] := by
  fun_cases Lexeme.text l <;> simp

/-- The first character of some lexemes is that of the first lexeme. -/
theorem head?_flatMap_text_cons (l : Lexeme) (ls : List Lexeme) :
    ((l :: ls).flatMap Lexeme.text).head? = l.text.head? := by
  rw [List.flatMap_cons, List.head?_append, List.head?_eq_some_head l.text_ne_nil, Option.some_or]

/-- The first lexemes of a lexed list are lexed. -/
theorem Lexed.left (h : Lexed q mark (xs ++ ys)) : Lexed q mark xs := by
  induction xs generalizing mark with
  | nil => exact .nil mark
  | cons x xs ih =>
    rw [List.cons_append] at h
    cases h with
    | code hc rest => exact .code hc (ih rest)
    | opening hc rest => exact .opening hc (ih rest)
    | inside he hc rest => exact .inside he hc (ih rest)
    | doubled he rest => exact .doubled he (ih rest)
    | escape he rest => exact .escape he (ih rest)
    | escapeAtEnd he hend => exact .escapeAtEnd he (List.append_eq_nil_iff.mp hend).1
    | closing he hnext rest =>
      refine .closing he ?_ (ih rest)
      cases xs with
      | nil => simp
      | cons x' xs =>
        rw [List.cons_append, head?_flatMap_text_cons] at hnext
        rwa [head?_flatMap_text_cons]

/-- What follows some lexemes is lexed from the literal they leave open. -/
theorem Lexed.right (h : Lexed q mark (xs ++ ys)) : Lexed q (markAfter mark xs) ys := by
  induction xs generalizing mark with
  | nil => exact h
  | cons x xs ih =>
    rw [List.cons_append] at h
    cases h with
    | code hc rest | opening hc rest | inside he hc rest | doubled he rest | escape he rest =>
      exact ih rest
    | escapeAtEnd he hend =>
      obtain ⟨rfl, rfl⟩ := List.append_eq_nil_iff.mp hend
      exact .nil _
    | closing he hnext rest => exact ih rest

/-- What holds of the last lexeme of a list holds of that of its tail. -/
private theorem last_tail {l : Lexeme} {ls : List Lexeme} {f : Char → Lexeme}
    {P : Char → Prop} (h : ∀ c, (l :: ls).getLast? = some (f c) → P c) :
    ∀ c, ls.getLast? = some (f c) → P c := by
  intro c hc
  refine h c ?_
  rw [List.getLast?_cons, hc, Option.getD_some]

/-- Lexed lists can be joined where the second does not go on the last lexeme
of the first. -/
theorem Lexed.append (hx : Lexed q mark xs) (hy : Lexed q (markAfter mark xs) ys)
    (hclosing : ∀ c, xs.getLast? = some (.closing c) → (ys.flatMap Lexeme.text).head? ≠ some c)
    (hescape : ∀ c, xs.getLast? = some (.pair c none) → ys = []) :
    Lexed q mark (xs ++ ys) := by
  induction hx with
  | nil mark => exact hy
  | code hc rest ih => exact .code hc (ih hy (last_tail hclosing) (last_tail hescape))
  | opening hc rest ih => exact .opening hc (ih hy (last_tail hclosing) (last_tail hescape))
  | inside he hc rest ih => exact .inside he hc (ih hy (last_tail hclosing) (last_tail hescape))
  | doubled he rest ih => exact .doubled he (ih hy (last_tail hclosing) (last_tail hescape))
  | escape he rest ih => exact .escape he (ih hy (last_tail hclosing) (last_tail hescape))
  | escapeAtEnd he hend =>
    subst hend
    exact .escapeAtEnd he (hescape _ rfl)
  | @closing m ls he hnext rest ih =>
    rw [List.cons_append]
    refine .closing he ?_ (ih hy (last_tail hclosing) (last_tail hescape))
    cases ls with
    | nil => exact hclosing m rfl
    | cons l ls =>
      rw [head?_flatMap_text_cons] at hnext
      rwa [List.cons_append, head?_flatMap_text_cons]

end DumpBridge.Literal
