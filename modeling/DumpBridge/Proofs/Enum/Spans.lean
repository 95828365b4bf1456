import DumpBridge.Proofs.Enum.Catalog
import DumpBridge.Proofs.Enum.Written
import DumpBridge.Proofs.Literal.Places

/-!
# Where enumerations are read

An enumeration is looked for on the whole line, so it may also be read inside a
literal.  The enumerations of a line start in its code just if the search comes to no
place inside a literal where a list of values opens (`spansInCode_iff`); it is enough
that no literal of the line holds the word and its parenthesis
(`spansInCode_of_literals`).

Where all of them start in code, a type of the dump has the values of an enumeration
that is written outside literals (`exists_writtenInCode`), and naming the enumerations
of a line keeps its literals, the values of the named ones apart
(`exchanged_substitute`).
-/

namespace DumpBridge

open Text.Pattern
open Literal

/-! ## Spans -/

namespace EnumType

/-- An enumeration on a line: the place of its first character, and its values. -/
structure Span where
  start : Nat
  values : List Text
  deriving DecidableEq, Repr

/-- The enumerations among pieces, the first of which starts at `start`. -/
def spansFrom (q : Quoting) : Nat → List Piece → List Span
  | _, [] => []
  | start, piece :: ps =>
    ((pieceValues? q piece).map (Span.mk start)).toList ++
      spansFrom q (start + piece.text.length) ps

/-- The enumerations on a line. -/
def spans (q : Quoting) (line : Text) : List Span :=
  spansFrom q 0 (pieces q opener line)

/-- Every enumeration of the line starts in its code. -/
def SpansInCode (q : Quoting) (line : Text) : Prop :=
  ∀ span ∈ spans q line, inCode (segments q line) span.start

variable {q : Quoting} {line : Text} {ps : List Piece} {span : Span} {n : Nat} {values : List Text}

/-- The spans have the values of the pieces. -/
theorem map_values_spansFrom (q : Quoting) (n : Nat) (ps : List Piece) :
    (spansFrom q n ps).map Span.values = ps.filterMap (pieceValues? q) := by
  induction ps generalizing n with
  | nil => rfl
  | cons piece ps ih =>
    rw [spansFrom, List.map_append, ih, List.filterMap_cons]
    cases pieceValues? q piece <;> rfl

/-- The spans of a line have its value lists. -/
theorem map_values_spans (q : Quoting) (line : Text) :
    (spans q line).map Span.values = valueLists q line :=
  map_values_spansFrom q 0 _

/-- A span is a piece with values, where it stands. -/
theorem mem_spansFrom : span ∈ spansFrom q n ps ↔
    ∃ (front : List Piece) (piece : Piece) (back : List Piece), ps = front ++ piece :: back ∧
      pieceValues? q piece = some span.values ∧
      span.start = n + (front.flatMap Piece.text).length := by
  induction ps generalizing n with
  | nil => simp [spansFrom]
  | cons piece ps ih =>
    rw [spansFrom, List.mem_append, Option.mem_toList, ih]
    constructor
    · rintro (hspan | ⟨front, piece', back, rfl, hvalues, hstart⟩)
      · obtain ⟨values, hvalues, rfl⟩ := Option.map_eq_some_iff.mp hspan
        exact ⟨[], piece, ps, rfl, hvalues, rfl⟩
      · refine ⟨piece :: front, piece', back, rfl, hvalues, ?_⟩
        rw [hstart, List.flatMap_cons, List.length_append, Nat.add_assoc]
    · rintro ⟨front, piece', back, hcut, hvalues, hstart⟩
      cases front with
      | nil =>
        obtain ⟨rfl, rfl⟩ := List.cons.inj hcut
        have hn : span.start = n := by simpa using hstart
        rw [hvalues, ← hn]
        exact Or.inl rfl
      | cons first front =>
        obtain ⟨rfl, rfl⟩ := List.cons.inj hcut
        refine Or.inr ⟨front, piece', back, rfl, hvalues, ?_⟩
        rw [hstart, List.flatMap_cons, List.length_append, Nat.add_assoc]

/-- **The enumerations of a line** are the calls at the places the search comes to whose list
is one of values. -/
theorem mem_spans_iff : span ∈ spans q line ↔
    ∃ a head inner rest, Looks q "enum" line a (head ++ (inner ++ ')' :: rest)) ∧
      IsCall q "enum" a.getLast? head inner rest ∧ valueList? q inner = some span.values ∧
      span.start = a.length := by
  rw [spans, mem_spansFrom]
  constructor
  · rintro ⟨front, piece, back, hpieces, hvalues, hstart⟩
    cases piece with
    | plain t => simp [pieceValues?] at hvalues
    | call head inner =>
      obtain ⟨rest, hlooks, hcall⟩ :=
        (pieces_eq_append_iff Enumeration.isKeyword_enum).mp ⟨front, back, hpieces, rfl⟩
      exact ⟨_, head, inner, rest, hlooks, hcall, hvalues, by rw [hstart, Nat.zero_add]⟩
  · rintro ⟨a, head, inner, rest, hlooks, hcall, hvalues, hstart⟩
    obtain ⟨front, back, hpieces, rfl⟩ :=
      (pieces_eq_append_iff Enumeration.isKeyword_enum).mpr ⟨rest, hlooks, hcall⟩
    exact ⟨front, _, back, hpieces, hvalues, by rw [hstart, Nat.zero_add]⟩

/-- The first character of an enumeration is in code just if the place is outside literals. -/
theorem inCode_iff_of_looks {a head inner rest : Text}
    (hlooks : Looks q "enum" line a (head ++ (inner ++ ')' :: rest)))
    (hcall : IsCall q "enum" a.getLast? head inner rest) :
    inCode (segments q line) a.length ↔ Outside q a := by
  obtain ⟨c, x, rfl, hhead⟩ := exists_cons_of_opens Enumeration.isKeyword_enum hcall.opens
  rw [hlooks.append, List.cons_append]
  exact inCode_iff_outside (hhead c (by simp))

/-- **The enumerations of a line start in its code** just if the search comes to no place
inside a literal where a list of values opens. -/
theorem spansInCode_iff (q : Quoting) (line : Text) : SpansInCode q line ↔
    ∀ a head inner rest, Looks q "enum" line a (head ++ (inner ++ ')' :: rest)) →
      IsCall q "enum" a.getLast? head inner rest → (valueList? q inner).isSome →
      Outside q a := by
  constructor
  · intro h a head inner rest hlooks hcall hlist
    obtain ⟨values, hvalues⟩ := Option.isSome_iff_exists.mp hlist
    have hspan : ⟨a.length, values⟩ ∈ spans q line :=
      mem_spans_iff.mpr ⟨a, head, inner, rest, hlooks, hcall, hvalues, rfl⟩
    exact (inCode_iff_of_looks hlooks hcall).mp (h _ hspan)
  · intro h span hspan
    obtain ⟨a, head, inner, rest, hlooks, hcall, hvalues, hstart⟩ := mem_spans_iff.mp hspan
    rw [hstart, inCode_iff_of_looks hlooks hcall]
    exact h a head inner rest hlooks hcall (by rw [hvalues]; rfl)

/-- It is enough that no literal holds the word and its parenthesis. -/
theorem spansInCode_of_literals (h : ∀ t, .literal t ∈ segments q line → opener.occurs t = false) :
    SpansInCode q line := by
  refine (spansInCode_iff q line).mpr fun a head inner rest hlooks hcall _ => ?_
  by_contra hinside
  obtain ⟨c, x, rfl, hhead⟩ := exists_cons_of_opens Enumeration.isKeyword_enum hcall.opens
  obtain ⟨u, v, hmem, hlast⟩ := exists_literal_of_not_outside hhead hinside (inner ++ ')' :: rest)
  have hline : line = a ++ c :: (x ++ (inner ++ ')' :: rest)) := hlooks.append
  rw [← hline] at hmem
  have hopens : opener.Takes u.getLast? (c :: x) v := by
    rw [hlast]
    exact takes_callOpener_of_takes Enumeration.isKeyword_enum hcall.opens v
  have hoccurs : opener.occurs (u ++ c :: (x ++ v)) :=
    occurs_iff.mpr ⟨u, c :: (x ++ v), rfl, c :: x, v, rfl, hopens⟩
  rw [h _ hmem] at hoccurs
  exact Bool.noConfusion hoccurs

/-- An enumeration with these values stands on the line outside literals: its word is read as
code, and its list as it is read on its own. -/
def WrittenInCode (q : Quoting) (line : Text) (values : List Text) : Prop :=
  ∃ a head inner rest, line = a ++ (head ++ (inner ++ ')' :: rest)) ∧
    opener.Takes a.getLast? head (inner ++ ')' :: rest) ∧ valueList? q inner = some values ∧
    lexemes q line =
      lexemes q a ++ (head.map .code ++ (lexemes q inner ++ .code ')' :: lexemes q rest))

/-- Values of a line whose spans are in code are written in code. -/
theorem SpansInCode.writtenInCode (h : SpansInCode q line) (hvalues : values ∈ valueLists q line) :
    WrittenInCode q line values := by
  rw [← map_values_spans] at hvalues
  obtain ⟨span, hspan, rfl⟩ := List.mem_map.mp hvalues
  obtain ⟨a, head, inner, rest, hlooks, hcall, hlist, -⟩ := mem_spans_iff.mp hspan
  have ha : Outside q a :=
    (spansInCode_iff q line).mp h a head inner rest hlooks hcall (by rw [hlist]; rfl)
  refine ⟨a, head, inner, rest, hlooks.append, hcall.opens, hlist, ?_⟩
  rw [hlooks.append]
  exact hcall.lexemes_append Enumeration.isKeyword_enum ha

end EnumType

/-! ## Catalog -/

namespace EnumCatalog

open EnumType (SpansInCode WrittenInCode spansInCode_iff spansInCode_of_literals opener)

variable {catalog : EnumCatalog} {line new k start : Text} {lines : List Text} {ps : List Piece}

/-- A type of the dump is written outside literals, if no enumeration is read inside one. -/
theorem exists_writtenInCode (h : ∀ line ∈ lines, SpansInCode .mysql line) {type : EnumType}
    (htype : type ∈ (ofLines start lines).types) :
    ∃ line ∈ lines, WrittenInCode .mysql line type.values := by
  obtain ⟨line, hline, values, hvalues, rfl⟩ := exists_of_mem_ofLines htype
  refine ⟨line, hline, (h line hline).writtenInCode ?_⟩
  rw [declared] at hvalues
  split at hvalues
  · simp at hvalues
  · exact hvalues

/-- One replacement on a line: the text kept in front of it, the enumeration as it is written,
and the name that takes its place. -/
structure Exchange where
  kept : Text
  written : Text
  name : Text

/-- `catalog.Exchanged line new`: `new` is the line with names for enumerations, each of which
the script reads on its own, apart from the text between them. -/
def Exchanged (catalog : EnumCatalog) (line new : Text) : Prop :=
  ∃ (cuts : List Exchange) (tail : Text),
    line = cuts.flatMap (fun cut => cut.kept ++ cut.written) ++ tail ∧
    new = cuts.flatMap (fun cut => cut.kept ++ cut.name) ++ tail ∧
    lexemes .standard line = cuts.flatMap (fun cut =>
      lexemes .standard cut.kept ++ lexemes .standard cut.written) ++ lexemes .standard tail ∧
    ∀ cut ∈ cuts, ∃ head inner, cut.written = (Piece.call head inner).text ∧
      catalog.replacement? (.call head inner) = some cut.name

theorem exchanged_refl (catalog : EnumCatalog) (line : Text) : catalog.Exchanged line line :=
  ⟨[], line, rfl, rfl, rfl, by simp⟩

/-- A replacement outside literals goes before others. -/
theorem Exchanged.cons {before : Option Char} {head inner rest name : Text}
    (h : catalog.Exchanged rest new) (hk : Outside .standard k)
    (hcall : IsCall .standard "enum" before head inner rest)
    (hname : catalog.replacement? (.call head inner) = some name) :
    catalog.Exchanged (k ++ (head ++ (inner ++ ')' :: rest))) (k ++ (name ++ new)) := by
  obtain ⟨cuts, tail, hrest, rfl, hlexemes, hcuts⟩ := h
  have hwritten : lexemes .standard (Piece.call head inner).text =
      head.map .code ++ (lexemes .standard inner ++ [Lexeme.code ')']) := by
    have hcall' : IsCall .standard "enum" before head inner [] :=
      ⟨takes_callOpener_of_takes Enumeration.isKeyword_enum hcall.opens _, hcall.balanced⟩
    have halone := hcall'.lexemes_append Enumeration.isKeyword_enum (x := []) rfl
    simpa [Piece.text, lexemes, lexemesFrom] using halone
  refine ⟨⟨k, (Piece.call head inner).text, name⟩ :: cuts, tail, ?_, ?_, ?_, ?_⟩
  · rw [hrest]
    simp [Piece.text]
  · simp
  · rw [hcall.lexemes_append Enumeration.isKeyword_enum hk, hlexemes, List.flatMap_cons, hwritten]
    simp
  · exact List.forall_mem_cons.mpr ⟨⟨head, inner, rfl, hname⟩, hcuts⟩

/-- The enumerations to be named among pieces that have the text `k` in front start outside
literals. -/
def NamedOutside (catalog : EnumCatalog) (k : Text) (ps : List Piece) : Prop :=
  ∀ front head inner back, ps = front ++ .call head inner :: back →
    (catalog.replacement? (.call head inner)).isSome →
    Outside .standard (k ++ front.flatMap Piece.text)

/-- A character before the pieces can be counted to what stands before them. -/
theorem NamedOutside.of_pushPlain {c : Char} (h : catalog.NamedOutside k (pushPlain c ps)) :
    catalog.NamedOutside (k ++ [c]) ps := by
  intro front head inner back hcut hname
  rw [hcut, pushPlain_append_call] at h
  have houtside := h _ head inner back rfl hname
  rwa [flatMap_text_pushPlain, List.append_cons] at houtside

/-- A piece that is kept goes to the text in front. -/
theorem NamedOutside.of_cons {piece : Piece} (h : catalog.NamedOutside k (piece :: ps)) :
    catalog.NamedOutside (k ++ piece.text) ps := by
  intro front head inner back hcut hname
  rw [hcut, ← List.cons_append] at h
  have houtside := h _ head inner back rfl hname
  rwa [List.flatMap_cons, ← List.append_assoc] at houtside

/-- Behind a call outside literals the text in front begins anew. -/
theorem NamedOutside.of_call {before : Option Char} {head inner rest : Text}
    (h : catalog.NamedOutside k (.call head inner :: ps)) (hk : Outside .standard k)
    (hcall : IsCall .standard "enum" before head inner rest) : catalog.NamedOutside [] ps := by
  intro front head' inner' back hcut hname
  have houtside := h.of_cons front head' inner' back hcut hname
  have hbehind : IsCall .standard "enum" before head inner (front.flatMap Piece.text) :=
    ⟨takes_callOpener_of_takes Enumeration.isKeyword_enum hcall.opens _, hcall.balanced⟩
  rw [List.nil_append, ← hbehind.outside_append_iff Enumeration.isKeyword_enum hk]
  simpa [Piece.text] using houtside

/-- **Naming enumerations outside literals**, in a text that has the kept text `k` in front. -/
theorem exchanged_piecesFrom (before : Option Char) (k t : Text)
    (h : catalog.NamedOutside k (piecesFrom .standard opener before 0 t)) :
    catalog.Exchanged (k ++ t) (k ++ (piecesFrom .standard opener before 0 t).flatMap fun piece =>
      (catalog.replacement? piece).getD piece.text) := by
  -- The induction is on the length, since a call takes several characters at once.
  induction hlength : t.length using Nat.strongRecOn generalizing before k t with
  | ind n ih =>
    cases t with
    | nil => exact exchanged_refl catalog _
    | cons c t =>
      rw [opener] at h ih ⊢
      rcases piecesFrom_cases .standard Enumeration.isKeyword_enum before c t with
        ⟨-, hpieces⟩ | hpieces | ⟨head, inner, r, hsplit, hopens, hbalanced, hpieces⟩
      · rw [hpieces] at h ⊢
        have hrest := ih t.length (by simp [← hlength]) (some c) (k ++ [c]) t h.of_pushPlain rfl
        rw [flatMap_pushPlain fun u => rfl]
        simpa using hrest
      · rw [hpieces, List.flatMap_singleton]
        exact exchanged_refl catalog _
      · have hcall : IsCall .standard "enum" before head inner r := ⟨hopens, hbalanced⟩
        have hshorter : r.length < n := by
          rw [← hlength, hsplit]
          simp
          omega
        rw [hpieces] at h ⊢
        rw [hsplit, List.flatMap_cons]
        cases hname : catalog.replacement? (.call head inner) with
        | none =>
          have hrest := ih r.length hshorter (some ')') _ r h.of_cons rfl
          simpa [Piece.text] using hrest
        | some name =>
          have hk : Outside .standard k := by
            have houtside := h [] head inner _ rfl (by rw [hname]; rfl)
            simpa using houtside
          exact (ih r.length hshorter (some ')') [] r (h.of_call hk hcall) rfl).cons hk
            hcall hname

/-- What is named is an enumeration. -/
theorem isSome_of_replacement? {head inner : Text}
    (h : (catalog.replacement? (.call head inner)).isSome) :
    (valueList? .standard inner).isSome := by
  cases hvalues : valueList? .standard inner with
  | some values => rfl
  | none => simp [replacement?, EnumType.pieceValues?, hvalues] at h

/-- **Naming the enumerations of a line** keeps its literals, the values of the named ones
apart, if no enumeration is read inside a literal. -/
theorem exchanged_substitute (catalog : EnumCatalog) (h : SpansInCode .standard line) :
    catalog.Exchanged line (catalog.substitute line) := by
  have hnamed : catalog.NamedOutside [] (pieces .standard opener line) := by
    intro front head inner back hcut hname
    obtain ⟨rest, hlooks, hcall⟩ :=
      (pieces_eq_append_iff Enumeration.isKeyword_enum).mp ⟨front, back, hcut, rfl⟩
    exact (spansInCode_iff .standard line).mp h _ head inner rest hlooks hcall
      (isSome_of_replacement? hname)
  unfold substitute substitute?
  split
  · exact exchanged_refl catalog line
  · dsimp only
    split
    · exact exchanged_piecesFrom none [] line hnamed
    · exact exchanged_refl catalog line

/-- **Enumerations and literals.**  The enumerations of a line start in its code just if the
search comes to no place inside a literal where a list of values opens, as on every line whose
literals do not hold the word and its parenthesis.  Then every type of a dump is written outside
literals, and naming the enumerations of a line keeps all other literals. -/
theorem enumerations_outside_literals (catalog : EnumCatalog) (q : Quoting) (line start : Text)
    (lines : List Text) :
    (SpansInCode q line ↔
      ∀ a head inner rest, Looks q "enum" line a (head ++ (inner ++ ')' :: rest)) →
        IsCall q "enum" a.getLast? head inner rest → (valueList? q inner).isSome →
        Outside q a) ∧
    ((∀ t, .literal t ∈ segments q line → opener.occurs t = false) → SpansInCode q line) ∧
    ((∀ raw ∈ lines, SpansInCode .mysql raw) → ∀ type ∈ (ofLines start lines).types,
      ∃ raw ∈ lines, WrittenInCode .mysql raw type.values) ∧
    (SpansInCode .standard line → catalog.Exchanged line (catalog.substitute line)) := by
  refine ⟨spansInCode_iff q line, spansInCode_of_literals, ?_, exchanged_substitute catalog⟩
  intro h type htype
  exact exists_writtenInCode h htype

/-- An enumeration in code is named, and a comment that speaks of one is kept. -/
theorem enumerations_outside_literals_column :
    EnumCatalog.substitute ⟨[⟨"mood".toList, ["a".toList, "b)".toList]⟩]⟩
        " c enum('a','b)') COMMENT 'an enum'".toList = " c mood COMMENT 'an enum'".toList ∧
      EnumCatalog.Exchanged ⟨[⟨"mood".toList, ["a".toList, "b)".toList]⟩]⟩
        " c enum('a','b)') COMMENT 'an enum'".toList " c mood COMMENT 'an enum'".toList := by
  have hnew : EnumCatalog.substitute ⟨[⟨"mood".toList, ["a".toList, "b)".toList]⟩]⟩
      " c enum('a','b)') COMMENT 'an enum'".toList = " c mood COMMENT 'an enum'".toList := by
    decide +kernel
  have hliterals : ∀ s ∈ segments .standard " c enum('a','b)') COMMENT 'an enum'".toList,
      opener.occurs s.text → s.isCode := by decide +kernel
  obtain ⟨-, hcode, -, hexchanged⟩ := enumerations_outside_literals
    ⟨[⟨"mood".toList, ["a".toList, "b)".toList]⟩]⟩ .standard
    " c enum('a','b)') COMMENT 'an enum'".toList [] []
  rw [hnew] at hexchanged
  refine ⟨hnew, hexchanged (hcode fun t ht => ?_)⟩
  exact Bool.eq_false_iff.mpr fun hoccurs => Bool.noConfusion (hliterals _ ht hoccurs)

/-- **A comment that quotes an enumeration** is read as one: it starts inside the literal, and
the dump declares a type for it. -/
theorem declared_comment_literal :
    segments .mysql "  a text COMMENT 'enum(''x'')',".toList =
        [.code "  a text COMMENT ".toList, .literal "'enum(''x'')'".toList, .code [',']] ∧
      EnumType.spans .mysql "  a text COMMENT 'enum(''x'')',".toList = [⟨18, ["'x'".toList]⟩] ∧
      declared "  a text COMMENT 'enum(''x'')',".toList = [["'x'".toList]] := by
  decide +kernel

end EnumCatalog
end DumpBridge
