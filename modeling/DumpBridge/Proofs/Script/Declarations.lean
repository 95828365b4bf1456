import DumpBridge.Proofs.Script.Assembly

/-!
# Where types are declared and where they are used

The declarations stand after the first line that mentions the setting of the time
zone, wherever that is.  `place` and `declarationPlace` say where a line and the
declaration of a type stand in the script (`getElem?_place`,
`getElem?_declarationPlace`).  So it can be said of lines when a type is declared
before it is used, and when the declarations come between the lines of an insert
statement (`declaredFirst_iff`).  Lines on which something happens are not blank,
and of the lines before the declarations only blank ones come after the anchor
(`anchor_le_iff`).
-/

namespace DumpBridge

open Text (isBlank)
open Line (isEmpty InsertHeader)

/-! ## Names on lines -/

namespace EnumCatalog

variable {catalog : EnumCatalog} {line name : Text}

/-- `catalog.Puts line name`: an enumeration on the converted line gives way to the
name of its type. -/
def Puts (catalog : EnumCatalog) (line name : Text) : Prop :=
  Line.isComment line = false ∧ Line.isData line = false ∧
    ∃ piece ∈ Literal.pieces .standard EnumType.opener line, catalog.replacement? piece = some name

/-- A name that is put into a line is that of a type. -/
theorem exists_type_of_puts (h : catalog.Puts line name) :
    ∃ type ∈ catalog.types, type.name = name := by
  obtain ⟨-, -, piece, -, hnew⟩ := h
  simp only [replacement?, bind, Option.bind_eq_some_iff] at hnew
  obtain ⟨values, -, type, htype, hname⟩ := hnew
  exact ⟨type, (mem_of_get? htype).1, Option.some.inj hname⟩

/-- A name that is put on a line stands on it. -/
theorem mem_substitute (h : catalog.Puts line name) {c : Char} (hc : c ∈ name) :
    c ∈ catalog.substitute line := by
  obtain ⟨hcomment, hdata, piece, hpiece, hnew⟩ := h
  have hany : (Literal.pieces .standard EnumType.opener line).any
      (fun piece => (catalog.replacement? piece).isSome) :=
    List.any_eq_true.mpr ⟨piece, hpiece, by simp [hnew]⟩
  have hsubstitute : catalog.substitute? line = some ((Literal.pieces .standard EnumType.opener
      line).flatMap fun piece => (catalog.replacement? piece).getD piece.text) := by
    simp [substitute?, hcomment, hdata, hany]
  rw [substitute, hsubstitute]
  exact List.mem_flatMap.mpr ⟨piece, hpiece, by simpa [hnew] using hc⟩

end EnumCatalog

/-! ## Lines that are not blank -/

theorem Rows.isEmpty_eq {line : Text} : isEmpty line = (Rows.lastSolid? line).isNone := by
  rw [Bool.eq_iff_iff, Line.isEmpty_iff, Option.isNone_iff_eq_none, lastSolid?, List.find?_eq_none]
  simp

/-- A line that ends a statement is not empty. -/
theorem Rows.isEmpty_of_endsStatement {line : Text} (h : endsStatement line) :
    isEmpty line = false := by
  rw [endsStatement_eq, decide_eq_true_eq] at h
  simp [isEmpty_eq, h]

/-- Nor is a line with the header of an insert. -/
theorem Line.isEmpty_of_insertHeader {line : Text} (h : (InsertHeader.parse? line).isSome) :
    isEmpty line = false := by
  have hstarts : InsertHeader.pattern.starts line := by
    simpa [InsertHeader.parse?, Text.Pattern.starts] using h
  rw [Text.Pattern.starts_iff, InsertHeader.pattern] at hstarts
  simp only [Text.Pattern.fits_append_assoc] at hstarts
  obtain ⟨lead, m, rfl, -, hfits⟩ := Text.Pattern.fits_append.mp hstarts
  obtain ⟨word, hword, hfits⟩ := Text.Pattern.fits_anyPhrase_append.mp hfits
  have hkeyword : Text.Pattern.isKeyword word.toList := by
    have hall : ∀ word ∈ ["INSERT", "REPLACE"], Text.Pattern.isKeyword word.toList := by
      decide
    exact hall word hword
  have hhead := Text.Pattern.isWord_of_fits_keyword hkeyword hfits
  cases m with
  | nil => simp at hhead
  | cons c m =>
    have hc := Text.isBlank_eq_false_of_isWord (c := c) (by simpa using hhead)
    exact isEmpty_eq_false hc (by simp)

/-- Blanks only follow the last solid character. -/
theorem Rows.exists_of_lastSolid? {line : Text} {c : Char} (h : lastSolid? line = some c) :
    ∃ t tail, line = t ++ c :: tail ∧ ∀ d ∈ tail, isBlank d := by
  obtain ⟨-, tail, t, hsplit, htail⟩ := List.find?_eq_some_iff_append.mp h
  refine ⟨t.reverse, tail.reverse, ?_, ?_⟩
  · have hreverse := congrArg List.reverse hsplit
    simpa using hreverse
  · simpa using htail

/-- Repairing a line's comma takes no other character away. -/
theorem Separators.mem_commaFix {line : Text} (rest : List Text) {c : Char} (hc : c ∈ line)
    (hcomma : c ≠ ',') : c ∈ (commaFix line rest).apply line := by
  cases hends : Text.endsWith ',' (Text.trimEnd line) with
  | false =>
    rw [commaFix_eq_keep rest hends]
    exact hc
  | true =>
    rw [Text.endsWith, Rows.getLast?_trimEnd, decide_eq_true_eq] at hends
    obtain ⟨t, tail, rfl, htail⟩ := Rows.exists_of_lastSolid? hends
    have hkept : ∀ new, c ∈ replaceComma new (t ++ ',' :: tail) := by
      intro new
      rw [replaceComma_append new t htail]
      simp only [List.mem_append, List.mem_cons, hcomma, false_or] at hc ⊢
      rcases hc with hc | hc
      · exact Or.inl (Or.inl hc)
      · exact Or.inr hc
    cases commaFix (t ++ ',' :: tail) rest with
    | keep => exact hc
    | terminate => exact hkept [';']
    | drop => exact hkept []

/-- What stands on a line, commas apart, stands on it after the repair. -/
theorem Separators.forall₂_repair (lines : List Text) :
    List.Forall₂ (fun line new => ∀ c ∈ line, c ≠ ',' → c ∈ new) lines (repair lines).lines := by
  rw [lines_repair]
  induction lines with
  | nil => exact .nil
  | cons line lines ih =>
    refine .cons (fun c hc hcomma => ?_) ih
    have hfixed := mem_commaFix lines hc hcomma
    dsimp only
    split
    · exact List.mem_append_right _ hfixed
    · exact hfixed

/-- Changing values keeps the last solid character of a line. -/
theorem Rows.lastSolid?_becomes {schema : Schema} {before : List Text} {line : Text}
    {effect : Effect}
    (h : Becomes schema before line effect) : lastSolid? effect.line = lastSolid? line := by
  cases h with
  | kept => rfl
  | @values targets start rows rest _ _ hreads =>
    have hline : line = line.take start ++ (rows.flatMap Row.text ++ rest) := by
      rw [← hreads.text, List.take_append_drop]
    conv_rhs => rw [hline]
    simp only [lastSolid?_append, lastSolid?_flatMap_result]

namespace Conversion

variable {options : Options} {dump : Text} {i : Nat} {name : Text}

/-- `PutAt options dump i name`: on the line `i` of the dump, once it is converted,
an enumeration gives way to the name of its type. -/
def PutAt (options : Options) (dump : Text) (i : Nat) (name : Text) : Prop :=
  ∃ line, (dump.lines.map (Line.convert options))[i]? = some line ∧
    (catalogOf options dump).Puts line name

/-- A line on which a type is used is not blank: the digits of its name are left. -/
theorem exists_line_of_putAt (h : PutAt options dump i name) :
    ∃ line, (coercedLines options dump)[i]? = some line ∧ isEmpty line = false := by
  obtain ⟨converted, hconverted, hputs⟩ := h
  obtain ⟨type, htype, rfl⟩ := EnumCatalog.exists_type_of_puts hputs
  obtain ⟨_, -, values, -, rfl⟩ := EnumCatalog.exists_of_mem_ofLines htype
  obtain ⟨digits, hname, hne, hdigits⟩ := EnumType.exists_nameOf options.enumPrefix values
  obtain ⟨c, more, rfl⟩ := List.exists_cons_of_ne_nil hne
  have hkey : Text.isKeyChar c := hdigits c (by simp)
  have hcomma : c ≠ ',' := by
    rintro rfl
    exact absurd hkey (by decide)
  have hnamed : (namedLines options dump)[i]? =
      some ((catalogOf options dump).substitute converted) := by
    rw [namedLines, List.getElem?_map, hconverted, Option.map_some]
  have hmem : c ∈ (catalogOf options dump).substitute converted :=
    EnumCatalog.mem_substitute hputs (by simp [EnumType.ofValues, hname])
  obtain ⟨repaired, hrepaired, hkept⟩ :=
    exists_getElem?_of_forall₂ (Separators.forall₂_repair _) hnamed
  obtain ⟨line, hline, before, effect, hbecomes, rfl⟩ :=
    exists_getElem?_of_forall₂ (Rows.forall₂_coerce (Schema.ofLines (catalogOf options dump)
      (Separators.repair (namedLines options dump)).lines) _) hrepaired
  refine ⟨_, hline, ?_⟩
  rw [Rows.isEmpty_eq, Rows.lastSolid?_becomes hbecomes, ← Rows.isEmpty_eq]
  exact Line.isEmpty_eq_false (Text.isBlank_eq_false_of_isWord (Text.isWord_of_isKeyChar hkey))
    (hkept c hmem hcomma)

end Conversion

/-! ## Places in the script -/

namespace Script

variable {options : Options} {catalog : EnumCatalog} {lines : List Text} {line : Text} {drop : Bool}
  {i j : Nat}

/-- What sets up the session, if that is asked for. -/
def opening (options : Options) : List Text :=
  if options.sessionPreamble then preamble else []

/-- How many lines of the script come before the declarations. -/
def declarationStart (options : Options) (lines : List Text) : Nat :=
  (opening options).length + (dressed options.dropTables (lines.take (anchor lines))).length

/-- How many lines of the script come before the statement that creates the type with
number `j`. -/
def declarationPlace (options : Options) (lines : List Text) (j : Nat) : Nat :=
  declarationStart options lines + (6 + 2 * j)

/-- How many lines of the script come before line `i`. -/
def place (options : Options) (catalog : EnumCatalog) (lines : List Text) (i : Nat) : Nat :=
  (opening options).length + ((dressed options.dropTables (lines.take (i + 1))).length - 1) +
    if i < anchor lines then 0 else (declarationLines catalog).length

/-- A line comes last in what it and the lines before it become. -/
theorem exists_dressed_take (drop : Bool) (h : lines[i]? = some line) :
    ∃ before, dressed drop (lines.take (i + 1)) =
      dressed drop (lines.take i) ++ before ++ [line] := by
  obtain ⟨before, hline, -, -⟩ := exists_dressed_singleton drop line
  refine ⟨before, ?_⟩
  rw [List.take_add_one, h, Option.toList_some, dressed_append, hline, List.append_assoc]

/-- More lines are dressed in more lines. -/
theorem length_dressed_le (drop : Bool) (lines : List Text) (h : i ≤ j) :
    (dressed drop (lines.take i)).length ≤ (dressed drop (lines.take j)).length := by
  have hsplit : lines.take j = lines.take i ++ (lines.take j).drop i := by
    conv_lhs => rw [← List.take_append_drop i (lines.take j)]
    rw [List.take_take, Nat.min_eq_left h]
  rw [hsplit, dressed_append, List.length_append]
  omega

/-- **A line before the anchor** comes before the declarations. -/
theorem place_lt (options : Options) (catalog : EnumCatalog) (h : lines[i]? = some line)
    (hi : i < anchor lines) :
    place options catalog lines i < declarationStart options lines := by
  obtain ⟨before, htake⟩ := exists_dressed_take options.dropTables h
  have hle := length_dressed_le options.dropTables lines (i := i + 1) (j := anchor lines) (by omega)
  rw [htake, List.length_append, List.length_singleton] at hle
  rw [place, declarationStart, if_pos hi, htake, List.length_append, List.length_singleton]
  omega

/-- **A line after it** comes after them. -/
theorem le_place (options : Options) (catalog : EnumCatalog) (h : lines[i]? = some line)
    (hi : anchor lines ≤ i) :
    declarationStart options lines + (declarationLines catalog).length ≤
      place options catalog lines i := by
  obtain ⟨before, htake⟩ := exists_dressed_take options.dropTables h
  have hle := length_dressed_le options.dropTables lines hi
  rw [place, declarationStart, if_neg (by omega), htake, List.length_append, List.length_append,
    List.length_singleton]
  omega

/-- Where a member stands once others are put in, before it or after it, and all is
put between two parts. -/
theorem getElem?_inserted {α : Type} {first last : List α} {n : Nat} {a : α}
    (h : (first ++ last)[n]? = some a) (front inside back : List α) :
    (front ++ (first ++ inside ++ last) ++ back)[front.length + n +
      if n < first.length then 0 else inside.length]? = some a := by
  have hinside : (first ++ inside ++ last)[n + if n < first.length then 0 else inside.length]? =
      some a := by
    rw [List.getElem?_append] at h
    split at h
    · next hn =>
      rw [if_pos hn, Nat.add_zero, List.append_assoc, List.getElem?_append_left hn, h]
    · next hn =>
      rw [if_neg hn, List.getElem?_append_right (by rw [List.length_append]; omega), ← h]
      congr 1
      rw [List.length_append]
      omega
  have hlength := (List.getElem?_eq_some_iff.mp hinside).1
  rw [Nat.add_assoc, List.append_assoc, List.getElem?_append_right (by omega),
    Nat.add_sub_cancel_left, List.getElem?_append_left hlength, hinside]

/-- **Each line stands in its place.** -/
theorem getElem?_place (options : Options) (catalog : EnumCatalog) (h : lines[i]? = some line) :
    (Conversion.assemble options catalog lines)[place options catalog lines i]? = some line := by
  obtain ⟨before, htake⟩ := exists_dressed_take options.dropTables h
  have hlast : (dressed options.dropTables (lines.take (i + 1))).length - 1 =
      (dressed options.dropTables (lines.take i) ++ before).length := by
    rw [htake, List.length_append, List.length_singleton, Nat.add_sub_cancel]
  have hlines : (dressed options.dropTables (lines.take (anchor lines)) ++
      dressed options.dropTables (lines.drop (anchor lines)))[
        (dressed options.dropTables (lines.take (i + 1))).length - 1]? = some line := by
    rw [← dressed_append, List.take_append_drop, hlast]
    conv_lhs => rw [← List.take_append_drop (i + 1) lines, dressed_append, htake]
    simp
  have hplace := getElem?_inserted hlines (opening options) (declarationLines catalog)
    (if options.sessionPreamble then epilogue else [])
  have hiff : (dressed options.dropTables (lines.take (i + 1))).length - 1 <
      (dressed options.dropTables (lines.take (anchor lines))).length ↔ i < anchor lines := by
    rw [hlast]
    by_cases hi : i < anchor lines
    · have hle := length_dressed_le options.dropTables lines (i := i + 1) (j := anchor lines) hi
      rw [htake, List.length_append, List.length_singleton] at hle
      exact iff_of_true (by omega) hi
    · have hle := length_dressed_le options.dropTables lines (Nat.le_of_not_lt hi)
      rw [List.length_append]
      exact iff_of_false (by omega) hi
  rw [assemble_eq, ← opening, place]
  simpa only [hiff] using hplace

/-- The declaration of a type follows the statement that drops it. -/
theorem getElem?_declarations (types : List EnumType) {type : EnumType}
    (h : types[j]? = some type) :
    (types.flatMap fun type => [type.dropStatement, type.createStatement])[2 * j + 1]? =
      some type.createStatement := by
  induction types generalizing j with
  | nil => simp at h
  | cons first types ih =>
    cases j with
    | zero =>
      obtain rfl : first = type := by simpa using h
      rfl
    | succ j => exact ih (by simpa using h)

/-- **Each type is created in its place.** -/
theorem getElem?_declarationPlace (options : Options) (lines : List Text) {type : EnumType}
    (h : catalog.types[j]? = some type) :
    (Conversion.assemble options catalog lines)[declarationPlace options lines j]? =
      some type.createStatement := by
  have hj : j < catalog.types.length := (List.getElem?_eq_some_iff.mp h).1
  have hdeclared : (declarationLines catalog)[6 + 2 * j]? = some type.createStatement := by
    have hne : catalog.types ≠ [] := List.ne_nil_of_length_pos (by omega)
    have hstatement := getElem?_declarations catalog.types h
    have hlength := (List.getElem?_eq_some_iff.mp hstatement).1
    unfold declarationLines declarationBlock EnumCatalog.declarations
    rw [if_neg hne, List.append_assoc, List.getElem?_append_right (by simp; omega),
      show 6 + 2 * j - _ = 2 * j + 1 by simp; omega, List.getElem?_append_left hlength, hstatement]
  have hlength := (List.getElem?_eq_some_iff.mp hdeclared).1
  rw [assemble_eq, ← opening, declarationPlace, declarationStart, List.append_assoc, Nat.add_assoc,
    List.getElem?_append_right (by omega), Nat.add_sub_cancel_left, List.append_assoc,
    List.append_assoc, List.getElem?_append_right (by omega), Nat.add_sub_cancel_left,
    List.getElem?_append_left hlength, hdeclared]

/-! ## Before and after the anchor -/

/-- Of the lines before the declarations, only blank ones come after the anchor. -/
theorem anchor_le_iff (h : lines[i]? = some line) (hsolid : isEmpty line = false) :
    anchor lines ≤ i ↔ ∀ a, lines.findIdx? isAnchor = some a → a < i := by
  rcases exists_anchor_split lines with hnone | ⟨before, first, blank, rest, rfl, hbefore, hfirst,
    hblank, hrest⟩
  · rw [anchor_eq_zero hnone, List.findIdx?_eq_none_iff.mpr hnone]
    simp
  · rw [anchor_append hbefore hfirst hblank hrest, findIdx?_anchor hbefore hfirst]
    simp only [List.length_append, List.length_cons, Option.some.injEq, forall_eq']
    constructor
    · intro hle
      omega
    · intro hlt
      apply Nat.le_of_not_lt
      intro hinside
      have hmem : line ∈ blank := by
        rw [List.getElem?_append_right (by omega), List.getElem?_cons,
          if_neg (by omega), List.getElem?_append_left (by omega)] at h
        exact List.mem_of_getElem? h
      simp [hblank line hmem] at hsolid

/-- `IsInsert lines first last`: the lines from `first` to `last` are an insert
statement, from its header to the line that ends it. -/
structure IsInsert (lines : List Text) (first last : Nat) : Prop where
  le : first ≤ last
  header : ∃ line, lines[first]? = some line ∧ (InsertHeader.parse? line).isSome
  ends : ∃ line, lines[last]? = some line ∧ Rows.endsStatement line
  goes_on : ∀ i line, first ≤ i → i < last → lines[i]? = some line → Rows.endsStatement line = false
  one_header : ∀ i line, first < i → i ≤ last → lines[i]? = some line →
    InsertHeader.parse? line = none

/-- The declarations come between the lines of a statement if the anchor is one of
them, and not the last. -/
theorem IsInsert.split_iff {first last : Nat} (h : IsInsert lines first last) :
    (place options catalog lines first < declarationStart options lines ∧
        declarationStart options lines ≤ place options catalog lines last) ↔
      ∃ a, lines.findIdx? isAnchor = some a ∧ first ≤ a ∧ a < last := by
  obtain ⟨header, hheader, hparse⟩ := h.header
  obtain ⟨ending, hending, hends⟩ := h.ends
  have hfirst := anchor_le_iff hheader (Line.isEmpty_of_insertHeader hparse)
  have hlast := anchor_le_iff hending (Rows.isEmpty_of_endsStatement hends)
  have hbefore : place options catalog lines first < declarationStart options lines ↔
      first < anchor lines := by
    by_cases hi : first < anchor lines
    · exact iff_of_true (place_lt options catalog hheader hi) hi
    · have hle := le_place options catalog hheader (by omega)
      exact iff_of_false (by omega) hi
  have hafter : declarationStart options lines ≤ place options catalog lines last ↔
      anchor lines ≤ last := by
    by_cases hi : anchor lines ≤ last
    · have hle := le_place options catalog hending hi
      exact iff_of_true (by omega) hi
    · have hlt := place_lt options catalog hending (by omega)
      exact iff_of_false (by omega) hi
  rw [hbefore, hafter, ← Nat.not_le, hfirst, hlast]
  cases hanchor : lines.findIdx? isAnchor with
  | none | some a => simp

end Script

namespace Conversion

open Script (isAnchor place declarationPlace declarationStart IsInsert)

/-- Every type is created before the first line on which its name was put, and the
declarations do not come between the lines of an insert statement. -/
structure DeclaredFirst (options : Options) (dump : Text) : Prop where
  before_use : ∀ i j type, PutAt options dump i type.name →
    (catalogOf options dump).types[j]? = some type →
    declarationPlace options (coercedLines options dump) j <
      place options (catalogOf options dump) (coercedLines options dump) i
  outside_rows : (catalogOf options dump).types ≠ [] → ∀ first last,
    IsInsert (coercedLines options dump) first last →
    ¬ (place options (catalogOf options dump) (coercedLines options dump) first <
        declarationStart options (coercedLines options dump) ∧
      declarationStart options (coercedLines options dump) ≤
        place options (catalogOf options dump) (coercedLines options dump) last)

/-- A type is created before a line with its name if the anchor is. -/
theorem declarationPlace_lt_iff {options : Options} {dump : Text} {i j : Nat} {type : EnumType}
    (hput : PutAt options dump i type.name)
    (htype : (catalogOf options dump).types[j]? = some type) :
    declarationPlace options (coercedLines options dump) j <
        place options (catalogOf options dump) (coercedLines options dump) i ↔
      ∀ a, (coercedLines options dump).findIdx? isAnchor = some a → a < i := by
  obtain ⟨line, hline, hsolid⟩ := exists_line_of_putAt hput
  have hj : j < (catalogOf options dump).types.length := (List.getElem?_eq_some_iff.mp htype).1
  have hlength := Script.length_declarationLines (catalogOf options dump)
  rw [if_pos (by omega)] at hlength
  rw [← Script.anchor_le_iff hline hsolid]
  unfold declarationPlace
  by_cases hi : Script.anchor (coercedLines options dump) ≤ i
  · have hle := Script.le_place options (catalogOf options dump) hline hi
    exact iff_of_true (by omega) hi
  · have hlt := Script.place_lt options (catalogOf options dump) hline
      (by omega)
    exact iff_of_false (by omega) hi

/-- **The declarations come first** just if every name comes behind the anchor, and no
insert has it inside. -/
theorem declaredFirst_iff (options : Options) (dump : Text) :
    DeclaredFirst options dump ↔
      ∀ a, (coercedLines options dump).findIdx? isAnchor = some a →
        (∀ i name, PutAt options dump i name → a < i) ∧
        ((catalogOf options dump).types ≠ [] → ∀ first last,
          IsInsert (coercedLines options dump) first last → ¬ (first ≤ a ∧ a < last)) := by
  constructor
  · intro hfirst a ha
    constructor
    · intro i name hput
      obtain ⟨type, htype, rfl⟩ : ∃ type ∈ (catalogOf options dump).types, type.name = name := by
        obtain ⟨_, -, hputs⟩ := hput
        exact EnumCatalog.exists_type_of_puts hputs
      obtain ⟨j, hj⟩ := List.mem_iff_getElem?.mp htype
      exact (declarationPlace_lt_iff hput hj).mp (hfirst.before_use i j type hput hj) a ha
    · intro hne first last hinsert hinside
      exact hfirst.outside_rows hne first last hinsert (hinsert.split_iff.mpr ⟨a, ha, hinside⟩)
  · intro hanchor
    constructor
    · intro i j type hput htype
      exact (declarationPlace_lt_iff hput htype).mpr fun a ha => (hanchor a ha).1 i _ hput
    · intro hne first last hinsert hsplit
      obtain ⟨a, ha, hinside⟩ := hinsert.split_iff.mp hsplit
      exact (hanchor a ha).2 hne first last hinsert hinside

/-- **Types are declared first just if the anchor allows it.**  Every line and every
declaration stands in its place in the script.  Each type is created before it is
used, and no insert statement is cut, exactly if no name was put on a line up to the
first anchor and no insert statement goes on after it. -/
theorem run_declares_first_iff (options : Options) (dump : Text) :
    (run options dump).text = Script.render (scriptLines options dump) ∧
      (∀ i line, (coercedLines options dump)[i]? = some line →
        (scriptLines options dump)[place options (catalogOf options dump)
          (coercedLines options dump) i]? = some line) ∧
      (∀ j type, (catalogOf options dump).types[j]? = some type →
        (scriptLines options dump)[declarationPlace options (coercedLines options dump) j]? =
          some type.createStatement) ∧
      (DeclaredFirst options dump ↔
        ∀ a, (coercedLines options dump).findIdx? isAnchor = some a →
          (∀ i name, PutAt options dump i name → a < i) ∧
          ((catalogOf options dump).types ≠ [] → ∀ first last,
            IsInsert (coercedLines options dump) first last → ¬ (first ≤ a ∧ a < last))) :=
  ⟨text_run options dump, fun _ _ => Script.getElem?_place options _,
    fun _ _ => Script.getElem?_declarationPlace options _, declaredFirst_iff options dump⟩

/-- A row that mentions the setting is taken for the anchor, so the type is created
after the table that uses it. -/
theorem not_declaredFirst_row_text :
    ¬ DeclaredFirst { dropTables := false, sessionPreamble := false }
      "CREATE TABLE t (a enum('x'));\nINSERT INTO t VALUES ('SET timezone');\n".toList := by
  rw [declaredFirst_iff]
  intro hanchor
  have hput : PutAt { dropTables := false, sessionPreamble := false }
      "CREATE TABLE t (a enum('x'));\nINSERT INTO t VALUES ('SET timezone');\n".toList 0
      (EnumType.nameOf "enum_type_".toList ["x".toList]) := by
    refine ⟨"CREATE TABLE t (a enum('x'));".toList, by decide +kernel, by decide, by decide,
      .call "enum(".toList "'x'".toList, by decide +kernel, by decide +kernel⟩
  have hused := (hanchor 1 (by decide +kernel)).1 0 _ hput
  omega

end Conversion
end DumpBridge
