import DumpBridge.Proofs.Rows.Constructs

/-!
# The values of a tuple

A value may be a call with arguments of its own, so the values of a tuple are what
stands between the commas outside literals and outside all parentheses (`valuesOf`).
The items of a tuple are cut at every comma outside literals: each value gives as
many items as it has arguments, and the items of the values, one value after the
other, are those of the tuple (`itemsOf_eq_flatMap`).

A value that has to change has neither commas nor parentheses, and neither has the
word that it becomes (`isPlain_newItem`).
-/

namespace DumpBridge.Rows

open Text (isBlank)
open Literal
  (Lexeme lexemes Lexed lexed_lexemes lexemes_eq_iff flatMap_text_lexemes isQuote
  markAfter markAfter_append markAfter_cons Balanced lexed_append_code_iff lexemes_code_append
  flatMap_text_intercalate map_text_lexemes)

/-- The parts of lexemes between the commas that no parenthesis encloses, if `depth` parentheses are
open before them. -/
def valuesFrom : Nat → List Lexeme → List (List Lexeme)
  | _, [] => [[]]
  | depth, l :: rest =>
    if l = .code ',' ∧ depth = 0 then [] :: valuesFrom 0 rest
    else (valuesFrom (l.depthAfter depth) rest).modifyHead (l :: ·)

/-- The values of a tuple's inside. -/
def valuesOf (inner : Text) : List Text :=
  (valuesFrom 0 (lexemes .standard inner)).map (List.flatMap Lexeme.text)

example : valuesOf "f(2,0,3),1".toList = ["f(2,0,3)".toList, "1".toList] := by decide

/-- The text leaves no literal open. -/
def IsShut (t : Text) : Prop :=
  markAfter none (lexemes .standard t) = none

instance (t : Text) : Decidable (IsShut t) :=
  inferInstanceAs (Decidable (_ = _))

variable {targets : Positions} {i : Nat} {t item inner : Text} {ts : List Text}
  {parts : List (List Lexeme)}

/-! ## Cutting at commas -/

/-- There is a first value, perhaps an empty one. -/
theorem valuesFrom_ne_nil (depth : Nat) (ls : List Lexeme) : valuesFrom depth ls ≠ [] := by
  induction ls generalizing depth with
  | nil => simp [valuesFrom]
  | cons l ls ih =>
    rw [valuesFrom]
    split
    · simp
    · simpa using ih _

/-- The values, with commas between them, are the lexemes again. -/
theorem intercalate_valuesFrom (depth : Nat) (ls : List Lexeme) :
    [.code ','].intercalate (valuesFrom depth ls) = ls := by
  induction ls generalizing depth with
  | nil => simp [valuesFrom]
  | cons l ls ih =>
    rw [valuesFrom]
    split
    · next hcomma =>
      obtain ⟨part, parts, hparts⟩ := List.exists_cons_of_ne_nil (valuesFrom_ne_nil 0 ls)
      have hrest := ih 0
      rw [hparts] at hrest
      rw [hparts, List.intercalate_cons_cons, hrest, hcomma.1]
      rfl
    · obtain ⟨part, parts, hparts⟩ :=
        List.exists_cons_of_ne_nil (valuesFrom_ne_nil (l.depthAfter depth) ls)
      have hrest := ih (l.depthAfter depth)
      rw [hparts] at hrest ⊢
      rw [List.modifyHead_cons]
      cases parts with
      | nil => simpa using hrest
      | cons part' parts =>
        rw [List.intercalate_cons_cons] at hrest ⊢
        rw [List.cons_append, List.cons_append, hrest]

/-- **The values joined are the inside of the tuple.** -/
theorem join_valuesOf (inner : Text) : Text.join [','] (valuesOf inner) = inner := by
  rw [valuesOf, ← flatMap_text_intercalate, intercalate_valuesFrom, flatMap_text_lexemes]

/-- A tuple has a value. -/
theorem valuesOf_ne_nil (inner : Text) : valuesOf inner ≠ [] := by
  simpa [valuesOf] using valuesFrom_ne_nil 0 _

theorem itemsOf_ne_nil (inner : Text) : itemsOf inner ≠ [] := by
  simp [itemsOf]

/-- **Lexemes joined at commas** are lexed and leave no literal open just if each part
is and does. -/
theorem shut_intercalate_iff :
    Lexed .standard none ([.code ','].intercalate parts) ∧
        markAfter none ([.code ','].intercalate parts) = none ↔
      ∀ p ∈ parts, Lexed .standard none p ∧ markAfter none p = none := by
  induction parts with
  | nil => simp [Lexed.nil]
  | cons p parts ih =>
    cases parts with
    | nil => simp
    | cons p' parts =>
      have hmark : ∀ rest, markAfter none (p ++ .code ',' :: rest) = markAfter none rest := by
        intro rest
        rw [markAfter_append, markAfter_cons]
        rfl
      rw [List.intercalate_cons_cons, List.append_assoc, List.singleton_append,
        lexed_append_code_iff (by decide), hmark, List.forall_mem_cons, ← ih]
      constructor
      · intro h
        obtain ⟨⟨hp, hshut, hrest⟩, hlast⟩ := h
        exact ⟨⟨hp, hshut⟩, hrest, hlast⟩
      · intro h
        obtain ⟨⟨hp, hshut⟩, hrest, hlast⟩ := h
        exact ⟨⟨hp, hshut, hrest⟩, hlast⟩

/-- Texts that leave no literal open are read alone as they are read when joined. -/
theorem lexemes_join (hts : ∀ t ∈ ts, IsShut t) :
    lexemes .standard (Text.join [','] ts) = [.code ','].intercalate (ts.map (lexemes .standard)) ∧
      IsShut (Text.join [','] ts) := by
  obtain ⟨hlexed, hmark⟩ := shut_intercalate_iff.mpr
    (List.forall_mem_map.mpr fun t ht => ⟨lexed_lexemes .standard t, hts t ht⟩)
  have hread : lexemes .standard (Text.join [','] ts) =
      [.code ','].intercalate (ts.map (lexemes .standard)) := by
    rw [lexemes_eq_iff, flatMap_text_intercalate, map_text_lexemes]
    exact ⟨hlexed, rfl⟩
  exact ⟨hread, by rw [IsShut, hread, hmark]⟩

/-- Parts of a text between commas are read alone as in the text, and leave no literal open if the
text leaves none open. -/
theorem lexemes_of_mem_parts {p : List Lexeme}
    (hparts : [.code ','].intercalate parts = lexemes .standard inner) (hinner : IsShut inner)
    (hp : p ∈ parts) :
    lexemes .standard (p.flatMap Lexeme.text) = p ∧ IsShut (p.flatMap Lexeme.text) := by
  have hboth : Lexed .standard none ([.code ','].intercalate parts) ∧
      markAfter none ([.code ','].intercalate parts) = none := by
    rw [hparts]
    exact ⟨lexed_lexemes .standard inner, hinner⟩
  obtain ⟨hlexed, hmark⟩ := shut_intercalate_iff.mp hboth p hp
  have hread : lexemes .standard (p.flatMap Lexeme.text) = p := lexemes_eq_iff.mpr ⟨hlexed, rfl⟩
  exact ⟨hread, by rwa [IsShut, hread]⟩

/-- No value ends inside a literal. -/
theorem isShut_of_mem_valuesOf (hinner : IsShut inner) (ht : t ∈ valuesOf inner) : IsShut t := by
  obtain ⟨p, hp, rfl⟩ := List.mem_map.mp ht
  exact (lexemes_of_mem_parts (intercalate_valuesFrom 0 _) hinner hp).2

theorem isShut_of_mem_itemsOf (hinner : IsShut inner) (ht : t ∈ itemsOf inner) : IsShut t := by
  obtain ⟨p, hp, rfl⟩ := List.mem_map.mp ht
  exact (lexemes_of_mem_parts (List.intercalate_splitOn _) hinner hp).2

/-! ## Items of values -/

/-- The items of joined texts are those of the texts, one after the other. -/
theorem itemsOf_join (hne : ts ≠ []) (hts : ∀ t ∈ ts, IsShut t) :
    itemsOf (Text.join [','] ts) = ts.flatMap itemsOf := by
  have hsplit : ∀ parts : List (List Lexeme), parts ≠ [] →
      ([Lexeme.code ','].intercalate parts).splitOn (.code ',') =
        parts.flatMap (·.splitOn (.code ',')) := by
    intro parts hparts
    induction parts with
    | nil => exact absurd rfl hparts
    | cons p parts ih =>
      cases parts with
      | nil => simp
      | cons p' parts =>
        rw [List.intercalate_cons_cons, List.append_assoc, List.singleton_append, List.splitOn,
          List.splitOnP_append_cons _ _ (by simp), List.flatMap_cons, ← ih (by simp)]
        rfl
  rw [itemsOf, (lexemes_join hts).1, hsplit _ (by simpa using hne), List.flatMap_map,
    List.map_flatMap]
  rfl

/-- **The items of a tuple** are those of its values. -/
theorem itemsOf_eq_flatMap (hinner : IsShut inner) :
    itemsOf inner = (valuesOf inner).flatMap itemsOf := by
  have hjoin := itemsOf_join (valuesOf_ne_nil inner) fun t ht => isShut_of_mem_valuesOf hinner ht
  rwa [join_valuesOf] at hjoin

theorem itemsOf_eq_singleton (h : .code ',' ∉ lexemes .standard t) : itemsOf t = [t] := by
  rw [itemsOf, List.splitOn_eq_singleton h, List.map_singleton, flatMap_text_lexemes]

/-- An item has no items but itself. -/
theorem itemsOf_of_mem_itemsOf (hinner : IsShut inner) (ht : t ∈ itemsOf inner) :
    itemsOf t = [t] := by
  obtain ⟨p, hp, rfl⟩ := List.mem_map.mp ht
  refine itemsOf_eq_singleton ?_
  rw [(lexemes_of_mem_parts (List.intercalate_splitOn _) hinner hp).1]
  exact Literal.comma_not_mem_of_mem_splitOn hp

/-- A text that is one item is that item. -/
theorem eq_of_itemsOf (h : itemsOf t = [item]) : item = t := by
  have hjoin := join_itemsOf t
  rwa [h] at hjoin

/-! ## Values that change -/

/-- A text that leaves no literal open and has no comma and no parenthesis outside literals. -/
structure IsPlain (t : Text) : Prop where
  shut : IsShut t
  no_separator : ∀ c ∈ [',', '(', ')'], .code c ∉ lexemes .standard t

instance (t : Text) : Decidable (IsPlain t) :=
  decidable_of_iff (IsShut t ∧ ∀ c ∈ [',', '(', ')'], .code c ∉ lexemes .standard t)
    ⟨fun h => ⟨h.1, h.2⟩, fun h => ⟨h.shut, h.no_separator⟩⟩

/-- A plain text is one item. -/
theorem IsPlain.itemsOf (h : IsPlain t) : itemsOf t = [t] :=
  itemsOf_eq_singleton (h.no_separator ',' (by simp))

/-- It has no parentheses. -/
theorem IsPlain.filter_isParen (h : IsPlain t) :
    (lexemes .standard t).filter Lexeme.isParen = [] := by
  refine List.filter_eq_nil_iff.mpr fun l hl hparen => ?_
  cases l with
  | code c =>
    have hc : c = '(' ∨ c = ')' := by simpa [Lexeme.isParen] using hparen
    exact h.no_separator c (by simp [hc]) hl
  | opening | inside | pair | closing => simp [Lexeme.isParen] at hparen

/-- Code behind a text that leaves no literal open is read as code. -/
theorem IsShut.lexemes_append {x : Text} (h : IsShut t) (hx : ∀ c ∈ x, isQuote c = false) :
    lexemes .standard (t ++ x) = lexemes .standard t ++ x.map .code := by
  have hcode : lexemes .standard x = x.map .code := by
    have hread := lexemes_code_append (q := .standard) hx []
    rw [List.append_nil] at hread
    rw [hread]
    exact List.append_nil _
  rw [← hcode, lexemes_eq_iff, List.flatMap_append, flatMap_text_lexemes, flatMap_text_lexemes]
  refine ⟨?_, rfl⟩
  cases x with
  | nil => simpa [hcode] using lexed_lexemes .standard t
  | cons c x =>
    obtain ⟨hc, -⟩ := List.forall_mem_cons.mp hx
    rw [Literal.lexemes_code hc]
    exact (lexed_lexemes .standard t).append_code h hc (lexed_lexemes .standard x)

/-- Blanks around a plain text leave it plain. -/
theorem IsPlain.blanks {lead tail : Text} (h : IsPlain t) (hlead : ∀ c ∈ lead, isBlank c)
    (htail : ∀ c ∈ tail, isBlank c) : IsPlain (lead ++ (t ++ tail)) := by
  have hlexemes : lexemes .standard (lead ++ (t ++ tail)) =
      lead.map .code ++ (lexemes .standard t ++ tail.map .code) := by
    rw [lexemes_code_append (Literal.isQuote_of_blank hlead),
      h.shut.lexemes_append (Literal.isQuote_of_blank htail)]
  have hsolid : ∀ c ∈ [',', '(', ')'], isBlank c = false := by decide
  have hblank : ∀ x : Text, (∀ c ∈ x, isBlank c) →
      ∀ c ∈ [',', '(', ')'], Lexeme.code c ∉ x.map Lexeme.code := by
    intro x hx c hc hmem
    obtain ⟨d, hd, hcode⟩ := List.mem_map.mp hmem
    obtain rfl := Lexeme.code.inj hcode
    simpa [hsolid d hc] using hx d hd
  refine ⟨?_, fun c hc => ?_⟩
  · rw [IsShut, hlexemes, markAfter_append, Literal.markAfter_code, markAfter_append, h.shut,
      Literal.markAfter_code]
  · rw [hlexemes, List.mem_append, List.mem_append, not_or, not_or]
    exact ⟨hblank lead hlead c hc, h.no_separator c hc, hblank tail htail c hc⟩

/-- **An item that changes** is plain, and so is what it becomes. -/
theorem isPlain_newItem (targets : Positions) (i : Nat) (item : Text) :
    newItem targets i item = item ∨ IsPlain item ∧ IsPlain (newItem targets i item) := by
  unfold newItem
  split
  · next word hword =>
    obtain ⟨hnew, hvalue⟩ := newWord?_cases hword
    have hwords : ∀ word ∈ newWords, IsPlain word := by decide
    have hvalues : ∀ value ∈ ["0".toList, "1".toList, "''".toList, "\"\"".toList],
        IsPlain value := by
      decide
    refine .inr ⟨?_, ?_⟩
    · obtain ⟨lead, tail, hitem, hlead, htail⟩ := Text.exists_trim item
      rw [hitem]
      exact (hvalues _ hvalue).blanks hlead htail
    · rw [List.append_assoc]
      refine (hwords word hnew).blanks (fun c hc => List.mem_takeWhile_imp hc) fun c hc => ?_
      exact List.mem_takeWhile_imp (List.mem_reverse.mp hc)
  · exact .inl rfl

theorem isShut_newItem (hitem : IsShut item) : IsShut (newItem targets i item) := by
  rcases isPlain_newItem targets i item with hsame | ⟨-, hnew⟩
  · rwa [hsame]
  · exact hnew.shut

/-- What an item becomes has as many items as it had. -/
theorem length_itemsOf_newItem (targets : Positions) (i : Nat) (item : Text) :
    (itemsOf (newItem targets i item)).length = (itemsOf item).length := by
  rcases isPlain_newItem targets i item with hsame | ⟨hitem, hnew⟩
  · rw [hsame]
  · rw [hitem.itemsOf, hnew.itemsOf]
    rfl

theorem itemsOf_newItem (hitem : itemsOf item = [item]) :
    itemsOf (newItem targets i item) = [newItem targets i item] := by
  rcases isPlain_newItem targets i item with hsame | ⟨-, hnew⟩
  · rwa [hsame]
  · exact hnew.itemsOf

/-- A value of several items does not change. -/
theorem newItem_of_length_ne (hlength : (itemsOf item).length ≠ 1) :
    newItem targets i item = item := by
  rcases isPlain_newItem targets i item with hsame | ⟨hitem, -⟩
  · exact hsame
  · rw [hitem.itemsOf] at hlength
    exact absurd rfl hlength

theorem isShut_of_mem_newItems (hts : ∀ t ∈ ts, IsShut t) (ht : t ∈ ts.mapIdx (newItem targets)) :
    IsShut t := by
  obtain ⟨i, hi, rfl⟩ := List.mem_mapIdx.mp ht
  exact isShut_newItem (hts _ (List.getElem_mem hi))

/-- **Changed items** are the items of the text that they are joined to. -/
theorem itemsOf_join_newItems (hinner : IsShut inner) (targets : Positions) :
    itemsOf (Text.join [','] ((itemsOf inner).mapIdx (newItem targets))) =
      (itemsOf inner).mapIdx (newItem targets) := by
  have hsingle : ∀ t ∈ (itemsOf inner).mapIdx (newItem targets), itemsOf t = [t] := by
    intro t ht
    obtain ⟨i, hi, rfl⟩ := List.mem_mapIdx.mp ht
    exact itemsOf_newItem (itemsOf_of_mem_itemsOf hinner (List.getElem_mem hi))
  rw [itemsOf_join (by simpa using itemsOf_ne_nil inner) fun t =>
      isShut_of_mem_newItems fun u hu => isShut_of_mem_itemsOf hinner hu,
    List.flatMap_congr hsingle]
  exact List.flatMap_singleton' _

/-- Lexemes whose parentheses match each other. -/
structure IsLevel (ls : List Lexeme) : Prop where
  never_below : ∀ p, p <+: ls → Literal.closed p ≤ Literal.opened p
  level : Literal.opened ls = Literal.closed ls

theorem isLevel_nil : IsLevel [] :=
  ⟨by simp [Literal.opened, Literal.closed], rfl⟩

theorem isLevel_comma : IsLevel [.code ','] := by
  refine ⟨fun p hp => ?_, rfl⟩
  rcases List.prefix_cons_iff.mp hp with rfl | ⟨p, rfl, hnil⟩
  · exact Nat.le_refl 0
  · obtain rfl := List.prefix_nil.mp hnil
    exact Nat.le_refl 0

/-- Two level texts are level one after the other. -/
theorem IsLevel.append {xs ys : List Lexeme} (hx : IsLevel xs) (hy : IsLevel ys) :
    IsLevel (xs ++ ys) := by
  have hlevel := hx.level
  refine ⟨fun p hp => ?_, ?_⟩
  · rcases List.prefix_or_prefix_of_prefix hp (List.prefix_append xs ys) with hfront | ⟨q, rfl⟩
    · exact hx.never_below p hfront
    · have hback := hy.never_below q ((List.prefix_append_right_inj xs).mp hp)
      simp only [Literal.opened, Literal.closed, List.count_append] at hlevel hback ⊢
      omega
  · have hback := hy.level
    simp only [Literal.opened, Literal.closed, List.count_append] at hlevel hback ⊢
    omega

/-- The parentheses of joined texts are those of the texts. -/
theorem filter_isParen_join (hts : ∀ t ∈ ts, IsShut t) :
    (lexemes .standard (Text.join [','] ts)).filter Lexeme.isParen =
      (ts.map fun t => (lexemes .standard t).filter Lexeme.isParen).flatten := by
  rw [(lexemes_join hts).1]
  induction ts with
  | nil => rfl
  | cons t ts ih =>
    have hrest := ih fun u hu => hts u (List.mem_cons_of_mem t hu)
    cases ts with
    | nil => simp
    | cons t' ts =>
      rw [List.map_cons, List.map_cons, List.intercalate_cons_cons, List.filter_append,
        List.filter_append, List.map_cons, List.flatten_cons, ← hrest]
      simp [Lexeme.isParen]

/-- **Balanced texts** that are joined are balanced. -/
theorem balanced_join (hts : ∀ t ∈ ts, Balanced .standard t) :
    Balanced .standard (Text.join [','] ts) := by
  obtain ⟨hread, hshut⟩ := lexemes_join fun t ht => (hts t ht).outside
  have hparts : ∀ p ∈ ts.map (lexemes .standard), IsLevel p :=
    List.forall_mem_map.mpr fun t ht => ⟨(hts t ht).never_below, (hts t ht).level⟩
  have hlevel : IsLevel ([.code ','].intercalate (ts.map (lexemes .standard))) := by
    generalize ts.map (lexemes .standard) = parts at hparts
    induction parts with
    | nil => exact isLevel_nil
    | cons p parts ih =>
      obtain ⟨hp, hrest⟩ := List.forall_mem_cons.mp hparts
      cases parts with
      | nil => simpa using hp
      | cons p' parts =>
        rw [List.intercalate_cons_cons]
        exact (hp.append isLevel_comma).append (ih hrest)
  rw [← hread] at hlevel
  exact ⟨hshut, hlevel.never_below, hlevel.level⟩

/-- **Changed items keep the balance** of the text that they are joined to. -/
theorem balanced_join_newItems (h : Balanced .standard (Text.join [','] ts))
    (hts : ∀ t ∈ ts, IsShut t) (targets : Positions) :
    Balanced .standard (Text.join [','] (ts.mapIdx (newItem targets))) := by
  have hnews : ∀ t ∈ ts.mapIdx (newItem targets), IsShut t := fun t => isShut_of_mem_newItems hts
  refine h.of_parens (lexemes_join hnews).2 ?_
  rw [filter_isParen_join hnews, filter_isParen_join hts]
  congr 1
  refine List.ext_getElem (by simp) fun i hi _ => ?_
  simp only [List.getElem_map, List.getElem_mapIdx]
  rcases isPlain_newItem targets i (ts.get ⟨i, by simpa using hi⟩) with hsame | ⟨hitem, hnew⟩
  · exact congrArg (fun t => (lexemes .standard t).filter Lexeme.isParen) hsame
  · exact hnew.filter_isParen.trans hitem.filter_isParen.symm

end DumpBridge.Rows
