import DumpBridge.Proofs.Line.DataFront
import DumpBridge.Proofs.Script.Declarations

/-!
# What the repair leaves alone

The repair is two passes over the lines.  Run on the lines where they stand, a pass
replaces one line after the other and looks only at lines that it has not come to, so
it finds there what the pass found when it began (`foldl_commaStep`,
`foldl_headerStep`).  That is why every line can be decided at once, from the
document as it was (`commasFixed_eq_mapIdx`).

The first pass changes the comma at the end of a line and nothing else, the second
marks lines that only name a table to alter, and the counts are those of the lines
that were changed: `repair_framed`.
-/

namespace DumpBridge.Separators

open Text (Pattern FirstWord isBlank isWord)
open Text.Pattern
open Line (isComment isData isEmpty commentOut)

variable {line old new changed : Text} {lines fixed rest : List Text}

/-! ## The passes in place -/

/-- Repairs the comma of line `i` where it stands, and counts. -/
def commaStep (o : Outcome) (i : Nat) : Outcome :=
  match o.lines.drop i with
  | [] => o
  | line :: rest =>
    match commaFix line rest with
    | .keep => o
    | .terminate =>
      { o with lines := o.lines.set i (replaceComma [';'] line), terminated := o.terminated + 1 }
    | .drop => { o with lines := o.lines.set i (replaceComma [] line), dropped := o.dropped + 1 }

/-- Makes line `i` a comment where it stands if it is a bare header, and counts. -/
def headerStep (o : Outcome) (i : Nat) : Outcome :=
  match o.lines.drop i with
  | [] => o
  | line :: rest =>
    if isBareHeader line rest then
      { o with lines := o.lines.set i (commentOut line), commented := o.commented + 1 }
    else o

/-- The comma pass, from the first line to the last. -/
def commaPass (lines : List Text) : Outcome :=
  (List.range lines.length).foldl commaStep ⟨lines, 0, 0, 0⟩

/-- The comma pass and after it the header pass. -/
def repairInPlace (lines : List Text) : Outcome :=
  (List.range lines.length).foldl headerStep (commaPass lines)

/-- The comma of the line that the pass has come to is settled by the lines after it. -/
theorem commaStep_append (done rest : List Text) (line : Text)
    (terminated dropped commented : Nat) :
    commaStep ⟨done ++ line :: rest, terminated, dropped, commented⟩ done.length =
      ⟨done ++ (commaFix line rest).apply line :: rest,
        terminated + [commaFix line rest].count .terminate,
        dropped + [commaFix line rest].count .drop, commented⟩ := by
  rw [commaStep, List.drop_left]
  cases hfix : commaFix line rest with
  | keep | terminate | drop => simp [hfix, CommaFix.apply]

/-- **The comma pass in place.**  From any line on, the pass makes of the lines that
are left what they become when all are decided at once. -/
theorem foldl_commaStep (done rest : List Text) (terminated dropped commented : Nat) :
    (List.range' done.length rest.length).foldl commaStep
        ⟨done ++ rest, terminated, dropped, commented⟩ =
      ⟨done ++ commasFixed rest, terminated + (commaFixes rest).count .terminate,
        dropped + (commaFixes rest).count .drop, commented⟩ := by
  induction rest generalizing done terminated dropped with
  | nil => rfl
  | cons line rest ih =>
    have hnext := ih (done ++ [(commaFix line rest).apply line])
      (terminated + [commaFix line rest].count .terminate)
      (dropped + [commaFix line rest].count .drop)
    simp only [List.length_append, List.length_singleton, List.append_assoc,
      List.singleton_append] at hnext
    have hcount : ∀ fix, (commaFixes (line :: rest)).count fix =
        [commaFix line rest].count fix + (commaFixes rest).count fix := by
      intro fix
      rw [commaFixes, ← List.singleton_append, List.count_append]
    rw [List.length_cons, List.range'_succ, List.foldl_cons, commaStep_append, hnext,
      commasFixed_cons, hcount, hcount, Nat.add_assoc, Nat.add_assoc]

/-- **One step of the second pass** changes the header it is at, and counts it. -/
theorem headerStep_append (done rest : List Text) (line : Text)
    (terminated dropped commented : Nat) :
    headerStep ⟨done ++ line :: rest, terminated, dropped, commented⟩ done.length =
      ⟨done ++ (if isBareHeader line rest then commentOut line else line) :: rest, terminated,
        dropped, commented + [isBareHeader line rest].count true⟩ := by
  rw [headerStep, List.drop_left]
  cases hbare : isBareHeader line rest with
  | false | true => simp [hbare]

/-- **The header pass in place.** -/
theorem foldl_headerStep (done rest : List Text) (terminated dropped commented : Nat) :
    (List.range' done.length rest.length).foldl headerStep
        ⟨done ++ rest, terminated, dropped, commented⟩ =
      ⟨done ++ headersMarked rest, terminated, dropped,
        commented + (bareHeaders rest).count true⟩ := by
  induction rest generalizing done commented with
  | nil => rfl
  | cons line rest ih =>
    have hnext := ih (done ++ [if isBareHeader line rest then commentOut line else line])
      (commented + [isBareHeader line rest].count true)
    simp only [List.length_append, List.length_singleton, List.append_assoc,
      List.singleton_append] at hnext
    have hcount : (bareHeaders (line :: rest)).count true =
        [isBareHeader line rest].count true + (bareHeaders rest).count true := by
      rw [bareHeaders, ← List.singleton_append, List.count_append]
    rw [List.length_cons, List.range'_succ, List.foldl_cons, headerStep_append, hnext,
      headersMarked_cons, hcount, Nat.add_assoc]

/-- **The first pass** fixes each line by what follows it, and counts the fixes. -/
theorem commaPass_eq (lines : List Text) :
    commaPass lines =
      ⟨commasFixed lines, (commaFixes lines).count .terminate, (commaFixes lines).count .drop,
        0⟩ := by
  have hpass := foldl_commaStep [] lines 0 0 0
  rw [List.length_nil, ← List.range_eq_range'] at hpass
  simpa [commaPass] using hpass

/-- All commas can be repaired at once, each line by the document as it was. -/
theorem commasFixed_eq_mapIdx (lines : List Text) :
    commasFixed lines =
      lines.mapIdx fun i line => (commaFix line (lines.drop (i + 1))).apply line := by
  induction lines with
  | nil => rfl
  | cons line rest ih => simp [ih, List.mapIdx_cons]

/-- **The repair in place** is the repair. -/
theorem repairInPlace_eq (lines : List Text) : repairInPlace lines = repair lines := by
  have hlength : lines.length = (commasFixed lines).length := by
    rw [commasFixed_eq_mapIdx, List.length_mapIdx]
  have hpass := foldl_headerStep [] (commasFixed lines) ((commaFixes lines).count .terminate)
    ((commaFixes lines).count .drop) 0
  rw [List.length_nil, ← List.range_eq_range', List.nil_append, List.nil_append,
    Nat.zero_add] at hpass
  rw [repairInPlace, commaPass_eq, hlength]
  exact hpass

/-! ## What the comma pass changes -/

/-- `CommaBecomes piece old new`: of the lines `old` and `new`, one has a comma for its
last solid character where the other has `piece`, and all else is the same. -/
def CommaBecomes (piece old new : Text) : Prop :=
  ∃ t tail, (∀ c ∈ tail, isBlank c) ∧ old = t ++ ',' :: tail ∧ new = t ++ piece ++ tail

/-- The comma of a line becomes a piece just if there is one and it is replaced. -/
theorem commaBecomes_iff {piece : Text} : CommaBecomes piece old new ↔
    Text.endsWith ',' (Text.trimEnd old) ∧ new = replaceComma piece old := by
  constructor
  · intro h
    obtain ⟨t, tail, htail, rfl, rfl⟩ := h
    have hcomma : isBlank ',' = false := by decide
    rw [replaceComma_append piece t htail, Text.trimEnd_append_cons hcomma htail]
    simp [Text.endsWith]
  · intro h
    obtain ⟨hends, rfl⟩ := h
    rw [Text.endsWith, Rows.getLast?_trimEnd, decide_eq_true_eq] at hends
    obtain ⟨t, tail, rfl, htail⟩ := Rows.exists_of_lastSolid? hends
    exact ⟨t, tail, htail, rfl, replaceComma_append piece t htail⟩

instance decidableCommaBecomes (piece old new : Text) : Decidable (CommaBecomes piece old new) :=
  decidable_of_iff _ commaBecomes_iff.symm

/-- A line does not become itself by losing its comma. -/
theorem not_commaBecomes_self {piece : Text} (h : piece = [';'] ∨ piece = []) :
    ¬ CommaBecomes piece line line := by
  intro hbecomes
  obtain ⟨t, tail, -, rfl, hsame⟩ := hbecomes
  rw [List.append_assoc] at hsame
  have hpiece := List.append_cancel_left hsame
  rcases h with rfl | rfl
  · simp at hpiece
  · exact absurd (congrArg List.length hpiece) (by simp)

theorem CommaBecomes.length {piece : Text} (h : CommaBecomes piece old new) :
    new.length + 1 = old.length + piece.length := by
  obtain ⟨t, tail, -, rfl, rfl⟩ := h
  simp only [List.length_append, List.length_cons]
  omega

/-- The two fixes can be told apart by what they make of a line. -/
theorem commaBecomes_apply_iff (line : Text) (rest : List Text) :
    (CommaBecomes [';'] line ((commaFix line rest).apply line) ↔ commaFix line rest = .terminate) ∧
      (CommaBecomes [] line ((commaFix line rest).apply line) ↔ commaFix line rest = .drop) := by
  by_cases hkeep : commaFix line rest = .keep
  · rw [hkeep]
    simp [CommaFix.apply, not_commaBecomes_self]
  · have hends : Text.endsWith ',' (Text.trimEnd line) := by
      by_contra hends
      exact hkeep (commaFix_eq_keep rest (by simpa using hends))
    have hbecomes : ∀ piece, CommaBecomes piece line (replaceComma piece line) :=
      fun piece => commaBecomes_iff.mpr ⟨hends, rfl⟩
    -- The two ways differ in the length of the line.
    have hother : ∀ piece piece' : Text, piece.length ≠ piece'.length →
        ¬ CommaBecomes piece' line (replaceComma piece line) := by
      intro piece piece' hne h
      have hlength := (hbecomes piece).length
      have hlength' := h.length
      omega
    cases hfix : commaFix line rest with
    | keep => exact absurd hfix hkeep
    | terminate | drop => simp [CommaFix.apply, hbecomes, hother]

/-! ## Lines that stay -/

/-- A line that no pass may change: a comment, rows, or blank. -/
def isExempt (line : Text) : Bool :=
  isComment line || isData line || isEmpty line

/-- Blanks at the end of a line come after its first word. -/
theorem exists_trimEnd_append (lead : Text) {word : Text} (hne : word ≠ [])
    (hsolid : ∀ c ∈ word, isBlank c = false) (after : Text) :
    ∃ after', Text.trimEnd (lead ++ (word ++ after)) = lead ++ (word ++ after') := by
  have hlast : isBlank (word.getLast hne) = false := hsolid _ (List.getLast_mem hne)
  have hsplit : word = word.dropLast ++ [word.getLast hne] :=
    (List.dropLast_append_getLast hne).symm
  obtain ⟨after', htrim⟩ :=
    Text.exists_dropEndWhile_append_cons (lead ++ word.dropLast) hlast after
  refine ⟨after', ?_⟩
  rw [hsplit]
  simpa [Text.trimEnd] using htrim

/-- A comment stays one when its end is trimmed. -/
theorem isComment_trimEnd (h : isComment line) : isComment (Text.trimEnd line) := by
  have hdashes : ∀ c ∈ ['-', '-'], isBlank c = false := by decide
  have hlead : ∀ c ∈ line.takeWhile isBlank, isBlank c :=
    fun c hc => List.mem_takeWhile_imp hc
  obtain ⟨after, hafter⟩ := List.isPrefixOf_iff_prefix.mp h
  have hline : line = line.takeWhile isBlank ++ (['-', '-'] ++ after) := by
    rw [hafter, Text.trimStart, List.takeWhile_append_dropWhile]
  obtain ⟨after', htrim⟩ := exists_trimEnd_append (line.takeWhile isBlank) (by simp) hdashes after
  rw [hline, htrim, List.cons_append, Line.isComment_append hlead (by decide)]
  rfl

/-- So does a row. -/
theorem isData_trimEnd (h : isData line) : isData (Text.trimEnd line) := by
  obtain ⟨lead, word, after, rfl, hlead, hword⟩ := Line.isData_iff_front.mp h
  have hsolid : word ≠ [] ∧ ∀ c ∈ word, isBlank c = false := by
    rcases Line.isWord_of_dataWord hword with rfl | ⟨hne, hletters⟩
    · exact ⟨by simp, by decide⟩
    · exact ⟨hne, fun c hc => Text.isBlank_eq_false_of_isWord (hletters c hc)⟩
  obtain ⟨after', htrim⟩ := exists_trimEnd_append lead hsolid.1 hsolid.2 after
  rw [htrim]
  exact Line.isData_iff_front.mpr ⟨lead, word, after', rfl, hlead, hword⟩

/-- An exempt line keeps its comma. -/
theorem commaFix_of_isExempt (h : isExempt line) (rest : List Text) :
    commaFix line rest = .keep := by
  simp only [isExempt, Bool.or_eq_true] at h
  rcases h with (h | h) | h
  · simp [commaFix, isComment_trimEnd h]
  · simp [commaFix, isData_trimEnd h]
  · refine commaFix_eq_keep rest ?_
    have hblank := Line.isEmpty_iff.mp h
    have hnil : Text.trimEnd line = [] := Text.trimEnd_append_blank [] hblank
    rw [hnil]
    rfl

/-! ## What the header pass changes -/

/-- A line that only names a table to alter: the words `ALTER TABLE`, a name without
blanks, and blanks around them. -/
def NamesTable (line : Text) : Prop :=
  ∃ lead alter gap table space name trail,
    line = lead ++ (alter ++ (gap ++ (table ++ (space ++ (name ++ trail))))) ∧
      (∀ c ∈ lead, isBlank c) ∧ spells "ALTER".toList alter ∧
      (gap ≠ [] ∧ ∀ c ∈ gap, isBlank c) ∧ spells "TABLE".toList table ∧
      (space ≠ [] ∧ ∀ c ∈ space, isBlank c) ∧ (name ≠ [] ∧ ∀ c ∈ name, isBlank c = false) ∧
      ∀ c ∈ trail, isBlank c

/-- A header of an alteration names a table and nothing else. -/
theorem alterHeader_starts_iff : alterHeader.starts line ↔ NamesTable line := by
  have hphrase : phrase "ALTER TABLE " =
      letters ("ALTER".toList ++ ' ' :: ("TABLE".toList ++ [' '])) :=
    rfl
  have halter : ' ' ∉ "ALTER".toList := by decide
  have htable : ' ' ∉ "TABLE".toList := by decide
  rw [starts_iff, alterHeader]
  simp only [fits_append_assoc]
  rw [fits_append]
  simp only [hphrase, fits_phrase_append halter, fits_gap_append, fits_word_gap htable,
    fits_word_append htable]
  constructor
  · intro h
    obtain ⟨lead, _, rfl, ⟨hlead, -⟩, alter, _, rfl, halter, gap, _, rfl, ⟨hgapNe, hgap, -⟩,
        table, _, rfl,
      htable, space, _, rfl, ⟨hspaceNe, hspace, -⟩, hname⟩ := h
    obtain ⟨name, _, rfl, hname, hend⟩ := fits_append.mp hname
    obtain ⟨trail, _, rfl, ⟨htrail, -⟩, hend⟩ := fits_append.mp hend
    obtain rfl := fits_textEnd.mp hend
    obtain ⟨hnameNe, hnameSolid, -⟩ := takes_someOf.mp hname
    exact ⟨lead, alter, gap, table, space, name, trail, by simp, hlead, halter, ⟨hgapNe, hgap⟩,
      htable, ⟨hspaceNe, hspace⟩, ⟨hnameNe, by simpa using hnameSolid⟩, htrail⟩
  · intro h
    obtain ⟨lead, alter, gap, table, space, name, trail, rfl, hlead, halter, ⟨hgapNe, hgap⟩, htable,
      ⟨hspaceNe, hspace⟩, ⟨hnameNe, hname⟩, htrail⟩ := h
    have hnameSolid : (name ++ trail).head?.any isBlank = false := by
      obtain ⟨c, name, rfl⟩ := List.exists_cons_of_ne_nil hnameNe
      simpa using hname c List.mem_cons_self
    refine ⟨lead, _, rfl, ⟨hlead, head_append_of_spells (by decide) halter _⟩, alter, _, rfl,
      halter, gap, _, rfl, ⟨hgapNe, hgap, head_append_of_spells (by decide) htable _⟩, table, _,
      rfl, htable, space, _, rfl, ⟨hspaceNe, hspace, hnameSolid⟩, ?_⟩
    refine fits_append.mpr
      ⟨name, trail, rfl, takes_someOf.mpr ⟨hnameNe, by simpa using hname, ?_⟩, ?_⟩
    · cases trail with
      | nil => rfl
      | cons c trail => simp [htrail c (by simp)]
    · exact fits_append.mpr ⟨trail, [], by simp, ⟨htrail, rfl⟩, fits_textEnd.mpr rfl⟩

/-- `Commented old new`: the line only names a table to alter, and became a comment. -/
def Commented (old new : Text) : Prop :=
  NamesTable old ∧ new = "-- ".toList ++ old

instance decidableCommented (old new : Text) : Decidable (Commented old new) :=
  decidable_of_iff (alterHeader.starts old ∧ new = "-- ".toList ++ old)
    (and_congr_left' alterHeader_starts_iff)

/-- Its first word is the one for an alteration. -/
theorem NamesTable.firstWord (h : NamesTable line) :
    ∃ lead word rest, FirstWord line lead word rest ∧ spells "ALTER".toList word := by
  obtain ⟨lead, alter, gap, table, space, name, trail, rfl, hlead, halter, ⟨hgapNe, hgap⟩, -⟩ := h
  obtain ⟨hne, hletters⟩ := isWord_of_spells (by decide) halter
  refine ⟨lead, alter, _, ⟨rfl, hlead, hne, fun c hc => ?_, ?_⟩, halter⟩
  · exact Text.isBlank_eq_false_of_isWord (hletters c hc)
  obtain ⟨c, gap, rfl⟩ := List.exists_cons_of_ne_nil hgapNe
  simpa using hgap c (by simp)

/-- A line that names a table to alter is no comment, holds no rows and is not blank. -/
theorem NamesTable.not_isExempt (h : NamesTable line) : isExempt line = false := by
  obtain ⟨lead, word, rest, hfirst, halter⟩ := h.firstWord
  have hupper : word.map Char.toUpper = "ALTER".toList := map_toUpper_of_spells (by decide) halter
  obtain ⟨c, word, rfl⟩ := List.exists_cons_of_ne_nil hfirst.word_ne
  have hc : c.toUpper = 'A' := (List.cons.inj hupper).1
  have hne : c ≠ '-' ∧ c ≠ '(' := by
    constructor
    · intro heq
      exact absurd (heq ▸ hc) (by decide)
    · intro heq
      exact absurd (heq ▸ hc) (by decide)
  rw [isExempt, isComment_of_firstWord hfirst, isData_eq hfirst, isEmpty_of_firstWord hfirst,
    beginsRows, hupper]
  simp [List.isPrefixOf, Text.startsWith, hne.1.symm, hne.2]

/-- An exempt line is no header that is left alone. -/
theorem isBareHeader_of_isExempt (h : isExempt line) (rest : List Text) :
    isBareHeader line rest = false := by
  have hheader : alterHeader.starts line = false := by
    rw [← Bool.not_eq_true]
    intro hstarts
    simp [(alterHeader_starts_iff.mp hstarts).not_isExempt] at h
  rw [isBareHeader, hheader]
  rfl

/-- A header is commented out just if no clause of it is live. -/
theorem commented_marked_iff (line : Text) (rest : List Text) :
    Commented line (if isBareHeader line rest then commentOut line else line) ↔
      isBareHeader line rest := by
  by_cases hbare : isBareHeader line rest
  · have hheader : alterHeader.starts line := by
      rw [isBareHeader, Bool.and_eq_true] at hbare
      exact hbare.1
    rw [if_pos hbare]
    exact iff_of_true ⟨alterHeader_starts_iff.mp hheader, rfl⟩ hbare
  · rw [if_neg hbare]
    refine iff_of_false (fun hcommented => ?_) hbare
    have hlength := congrArg List.length hcommented.2
    have hdashes : "-- ".toList.length = 3 := rfl
    rw [List.length_append] at hlength
    omega

/-! ## The repair as a whole -/

/-- What becomes of a document: `lines` are its lines, `fixed` those after the comma
pass, and `outcome` is the repair. -/
structure Framed (lines fixed : List Text) (outcome : Outcome) : Prop where
  length_eq : outcome.lines.length = lines.length
  /-- Comments, rows and blank lines stay. -/
  exempt : List.Forall₂ (fun line new => isExempt line = true → new = line) lines outcome.lines
  /-- The comma pass keeps a line, or changes the comma at its end. -/
  commas : List.Forall₂
    (fun line new => new = line ∨ CommaBecomes [';'] line new ∨ CommaBecomes [] line new)
    lines fixed
  /-- The header pass keeps a line, or makes a header a comment. -/
  headers : List.Forall₂ (fun line new => new = line ∨ Commented line new) fixed outcome.lines
  terminated_eq : outcome.terminated =
    (lines.zip fixed).countP fun p => CommaBecomes [';'] p.1 p.2
  dropped_eq : outcome.dropped = (lines.zip fixed).countP fun p => CommaBecomes [] p.1 p.2
  commented_eq : outcome.commented = (fixed.zip outcome.lines).countP fun p => Commented p.1 p.2

/-- Each line of the first pass stays or has its comma fixed. -/
theorem forall₂_commasFixed (lines : List Text) :
    List.Forall₂
      (fun line new => new = line ∨ CommaBecomes [';'] line new ∨ CommaBecomes [] line new)
      lines (commasFixed lines) := by
  induction lines with
  | nil => exact .nil
  | cons line rest ih =>
    refine .cons ?_ ih
    have hbecomes := commaBecomes_apply_iff line rest
    cases hfix : commaFix line rest with
    | keep => exact Or.inl rfl
    | terminate => exact Or.inr (Or.inl (hfix ▸ hbecomes.1.mpr hfix))
    | drop => exact Or.inr (Or.inr (hfix ▸ hbecomes.2.mpr hfix))

/-- Each line of the second pass stays or is commented out. -/
theorem forall₂_headersMarked (lines : List Text) :
    List.Forall₂ (fun line new => new = line ∨ Commented line new) lines (headersMarked lines) := by
  induction lines with
  | nil => exact .nil
  | cons line rest ih =>
    refine .cons ?_ ih
    by_cases hbare : isBareHeader line rest
    · exact Or.inr ((commented_marked_iff line rest).mpr hbare)
    · exact Or.inl (if_neg hbare)

/-- **Exempt lines stay** through both passes. -/
theorem forall₂_exempt (lines : List Text) :
    List.Forall₂ (fun line new => isExempt line = true → new = line) lines
      (repair lines).lines := by
  rw [lines_repair]
  induction lines with
  | nil => exact .nil
  | cons line rest ih =>
    refine .cons (fun hexempt => ?_) ih
    rw [commaFix_of_isExempt hexempt, CommaFix.apply, isBareHeader_of_isExempt hexempt]
    rfl

/-- A fix is made as often as it is decided on. -/
theorem count_commaFixes {fix : CommaFix} {piece : Text}
    (h : ∀ line rest, CommaBecomes piece line ((commaFix line rest).apply line) ↔
      commaFix line rest = fix) (lines : List Text) :
    (commaFixes lines).count fix =
      (lines.zip (commasFixed lines)).countP fun p => CommaBecomes piece p.1 p.2 := by
  induction lines with
  | nil => rfl
  | cons line rest ih =>
    simp only [commaFixes, commasFixed_cons, List.zip_cons_cons, List.count_cons,
      List.countP_cons, ih, beq_iff_eq, h, decide_eq_true_eq]

/-- The headers that are left alone are counted by what became of them. -/
theorem count_bareHeaders (lines : List Text) :
    (bareHeaders lines).count true =
      (lines.zip (headersMarked lines)).countP fun p => Commented p.1 p.2 := by
  induction lines with
  | nil => rfl
  | cons line rest ih =>
    simp only [bareHeaders, headersMarked_cons, List.zip_cons_cons, List.count_cons,
      List.countP_cons, ih, beq_iff_eq, commented_marked_iff, decide_eq_true_eq]

/-- **The frame of the repair.**  Run in place, the passes are the repair; the comma
pass changes every line as the document decides that was there before; and but for
commas at the ends of lines and dashes before headers all stays as it was. -/
theorem repair_framed (lines : List Text) :
    repairInPlace lines = repair lines ∧
      (commaPass lines).lines =
        lines.mapIdx (fun i line => (commaFix line (lines.drop (i + 1))).apply line) ∧
      Framed lines (commaPass lines).lines (repair lines) := by
  have hpass : (commaPass lines).lines = commasFixed lines := by rw [commaPass_eq]
  refine ⟨repairInPlace_eq lines, hpass.trans (commasFixed_eq_mapIdx lines), ?_⟩
  rw [hpass]
  exact
    { length_eq := length_repair lines
      exempt := forall₂_exempt lines
      commas := forall₂_commasFixed lines
      headers := forall₂_headersMarked (commasFixed lines)
      terminated_eq :=
        count_commaFixes (fun line rest => (commaBecomes_apply_iff line rest).1) lines
      dropped_eq := count_commaFixes (fun line rest => (commaBecomes_apply_iff line rest).2) lines
      commented_eq := count_bareHeaders (commasFixed lines) }

/-- Both passes may change one line. -/
example : repair ["ALTER TABLE a, ".toList, "-- x;".toList, ")".toList] =
    ⟨["-- ALTER TABLE a ".toList, "-- x;".toList, ")".toList], 0, 1, 1⟩ := by decide

end DumpBridge.Separators
