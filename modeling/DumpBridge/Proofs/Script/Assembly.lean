import DumpBridge.Proofs.Script.Stages
import DumpBridge.Proofs.Table.Reading

/-!
# The script around the lines

The lines come into the script as they are and in their order, and other lines are
put in: a statement before each line that begins a table (`Dropping`), the
declarations of the enum types in one place, and the lines around all
(`Assembled`).  The place of the declarations is found in the lines with the
statements already in.  A statement that drops a table is neither an anchor nor
blank, so the place is the same as in the lines without them
(`withDeclarations_dressed`), and no table is parted from its statement.
-/

namespace DumpBridge

open Text (isBlank)
open Line (isEmpty tableName?)

theorem Text.contains_iff {piece t : Text} : contains piece t ↔ piece <:+: t := by
  induction t with
  | nil => simp [contains, List.infix_nil]
  | cons c t ih =>
    rw [contains, Bool.or_eq_true, List.isPrefixOf_iff_prefix, ih, List.infix_cons_iff]

/-- The name of a table has no blank. -/
theorem Line.isBlank_of_tableName? {line name : Text} (h : tableName? line = some name) :
    ∀ c ∈ name, isBlank c = false := by
  intro c hc
  have hchar := Schema.isNameChar_of_tableName? h c hc
  rw [Schema.isNameChar, Bool.and_eq_true, Bool.and_eq_true] at hchar
  simpa using hchar.1.1

namespace Script

variable {catalog : EnumCatalog} {lines first script : List Text} {line name : Text} {n : Nat}

/-! ## The place of the declarations -/

theorem isEmpty_dropStatement (name : Text) : isEmpty (dropStatement name) = false := by
  apply Line.isEmpty_eq_false (c := 'D') (by decide)
  unfold dropStatement
  simp

/-- A statement that drops a table sets no time zone: no blank in it comes after
`SET` and before `timezone`. -/
theorem isAnchor_dropStatement (hname : ∀ c ∈ name, isBlank c = false) :
    isAnchor (dropStatement name) = false := by
  have hsolid : ' ' ∉ name := by
    intro hmem
    exact absurd (hname ' ' hmem) (by decide)
  suffices hnot : ¬ "SET timezone".toList <:+: dropStatement name by
    rw [isAnchor, Bool.eq_false_iff.mpr fun h => hnot (Text.contains_iff.mp h)]
    rfl
  unfold dropStatement
  rintro ⟨s, r, hsplit⟩
  have hparts : "DROP TABLE IF EXISTS ".toList ++ (name ++ ' ' :: "CASCADE;".toList) =
      (s ++ "SET ".toList) ++ ("timezone".toList ++ r) := by
    simpa using hsplit.symm
  rcases List.append_eq_append_iff.mp hparts with ⟨mid, hmid, hrest⟩ | ⟨mid, hmid, -⟩
  · -- The blank stands after the words that begin the statement.
    rcases List.eq_nil_or_concat mid with rfl | ⟨mid, last, rfl⟩
    · have hlast := congrArg (·.dropLast.getLast?) hmid
      simp at hlast
    · have hmid' : s ++ "SET".toList ++ [' '] =
          ("DROP TABLE IF EXISTS ".toList ++ mid) ++ [last] := by simpa using hmid
      obtain ⟨-, hlast⟩ := List.append_inj' hmid' rfl
      obtain rfl := List.singleton_inj.mp hlast
      have hblank : mid ++ ' ' :: ("timezone".toList ++ r) =
          name ++ ' ' :: "CASCADE;".toList := by simpa using hrest.symm
      obtain ⟨more, -, hmore⟩ := Text.exists_append_of_not_mem hsolid hblank
      cases more with
      | nil => simp at hmore
      | cons c more =>
        have hmem : ' ' ∈ "CASCADE;".toList := by
          rw [(List.cons.inj hmore).2]
          simp
        exact absurd hmem (by decide)
  · have hinside : "SET ".toList <:+: "DROP TABLE IF EXISTS ".toList :=
      ⟨s, mid, by simpa using hmid.symm⟩
    exact absurd (Text.contains_iff.mpr hinside) (by decide)

/-- Lines either have no anchor, or go on from the first one with blank lines. -/
theorem exists_anchor_split (lines : List Text) :
    (∀ line ∈ lines, isAnchor line = false) ∨
      ∃ before line blank rest, lines = before ++ line :: (blank ++ rest) ∧
        (∀ l ∈ before, isAnchor l = false) ∧ isAnchor line ∧
        (∀ l ∈ blank, isEmpty l) ∧ rest.head?.any isEmpty = false := by
  induction lines with
  | nil => exact Or.inl (by simp)
  | cons line lines ih =>
    cases hline : isAnchor line with
    | true =>
      refine Or.inr
        ⟨[], line, lines.takeWhile isEmpty, lines.dropWhile isEmpty, by simp, by simp,
        hline, fun l hl => List.mem_takeWhile_imp hl, ?_⟩
      cases hrest : lines.dropWhile isEmpty with
      | nil => rfl
      | cons l rest =>
        have hne : lines.dropWhile isEmpty ≠ [] := by simp [hrest]
        simpa [hrest] using List.head_dropWhile_not isEmpty hne
    | false =>
      rcases ih with hnone | ⟨before, anchor, blank, rest, rfl, hbefore, hanchor, hblank, hrest⟩
      · exact Or.inl (List.forall_mem_cons.mpr ⟨hline, hnone⟩)
      · exact Or.inr ⟨line :: before, anchor, blank, rest, rfl,
          List.forall_mem_cons.mpr ⟨hline, hbefore⟩, hanchor, hblank, hrest⟩

theorem anchor_eq_zero (h : ∀ line ∈ lines, isAnchor line = false) : anchor lines = 0 := by
  rw [anchor, List.findIdx?_eq_none_iff.mpr h]

theorem findIdx?_anchor {before rest : List Text} (hbefore : ∀ l ∈ before, isAnchor l = false)
    (hline : isAnchor line) :
    (before ++ line :: rest).findIdx? isAnchor = some before.length := by
  rw [List.findIdx?_append, List.findIdx?_eq_none_iff.mpr hbefore]
  simp [List.findIdx?_cons, hline]

/-- **Declarations go** behind the first anchor and the empty lines after it. -/
theorem anchor_append {before blank rest : List Text} (hbefore : ∀ l ∈ before, isAnchor l = false)
    (hline : isAnchor line) (hblank : ∀ l ∈ blank, isEmpty l)
    (hrest : rest.head?.any isEmpty = false) :
    anchor (before ++ line :: (blank ++ rest)) = (before ++ line :: blank).length := by
  have hdrop : (before ++ line :: (blank ++ rest)).drop (before.length + 1) = blank ++ rest := by
    rw [List.drop_append]
    simp
  have htake : (blank ++ rest).takeWhile isEmpty = blank := by
    rw [List.takeWhile_append_of_pos hblank]
    cases rest with
    | nil => simp
    | cons l rest => simp [show isEmpty l = false by simpa using hrest]
  rw [anchor, findIdx?_anchor hbefore hline]
  simp only [hdrop, htake, List.length_append, List.length_cons]
  omega

/-! ## Statements that drop tables -/

/-- The lines, if `drop` with the statements that drop their tables. -/
def dressed (drop : Bool) (lines : List Text) : List Text :=
  if drop then withDrops lines else lines

/-- `Dropping drop lines script n`: the script has the lines in their order and, if
`drop`, right before each that begins a table the statement that drops it, `n`
statements in all. -/
inductive Dropping (drop : Bool) : List Text → List Text → Nat → Prop
  | nil : Dropping drop [] [] 0
  | table {lines script : List Text} {line name : Text} {n : Nat} (hdrop : drop)
      (hname : tableName? line = some name) (rest : Dropping drop lines script n) :
      Dropping drop (line :: lines) (dropStatement name :: line :: script) (n + 1)
  | other {lines script : List Text} {line : Text} {n : Nat}
      (hother : drop → tableName? line = none) (rest : Dropping drop lines script n) :
      Dropping drop (line :: lines) (line :: script) n

/-- Dressing a script puts in the statements that drop its tables. -/
theorem dropping_dressed (drop : Bool) (lines : List Text) :
    Dropping drop lines (dressed drop lines) (if drop then countTables lines else 0) := by
  induction lines with
  | nil => cases drop <;> exact .nil
  | cons line lines ih =>
    cases drop with
    | false => exact .other (by simp) ih
    | true =>
      cases hname : tableName? line with
      | none => simpa [dressed, withDrops, withDrop, countTables, hname] using
          Dropping.other (fun _ => hname) ih
      | some name => simpa [dressed, withDrops, withDrop, countTables, hname] using
          Dropping.table rfl hname ih

/-- It adds as many lines as there are such statements. -/
theorem Dropping.length_eq {drop : Bool} (h : Dropping drop lines script n) :
    script.length = lines.length + n := by
  induction h with
  | nil => rfl
  | table _ _ _ ih | other _ _ ih =>
    simp only [List.length_cons, ih]
    omega

/-- It makes no break. -/
theorem Dropping.not_mem {drop : Bool} (h : Dropping drop lines script n)
    (hlines : ∀ line ∈ lines, '\n' ∉ line) : ∀ line ∈ script, '\n' ∉ line := by
  induction h with
  | nil => exact hlines
  | @table _ _ line name _ _ hname _ ih =>
    obtain ⟨hline, hlines⟩ := List.forall_mem_cons.mp hlines
    have hsolid : '\n' ∉ name := by
      intro hmem
      exact absurd (Line.isBlank_of_tableName? hname '\n' hmem) (by decide)
    have hstatement : '\n' ∉ dropStatement name := by
      unfold dropStatement
      simp [hsolid]
    exact List.forall_mem_cons.mpr ⟨hstatement, List.forall_mem_cons.mpr ⟨hline, ih hlines⟩⟩
  | other _ _ ih =>
    obtain ⟨hline, hlines⟩ := List.forall_mem_cons.mp hlines
    exact List.forall_mem_cons.mpr ⟨hline, ih hlines⟩

theorem dressed_append (drop : Bool) (first last : List Text) :
    dressed drop (first ++ last) = dressed drop first ++ dressed drop last := by
  cases drop <;> simp [dressed, withDrops]

/-- The statement before a line is no anchor. -/
theorem exists_dressed_singleton (drop : Bool) (line : Text) :
    ∃ before, dressed drop [line] = before ++ [line] ∧ (∀ l ∈ before, isAnchor l = false) ∧
      ∀ l ∈ before, isEmpty l = false := by
  cases drop with
  | false => exact ⟨[], rfl, by simp, by simp⟩
  | true =>
    cases hname : tableName? line with
    | none => exact ⟨[], by simp [dressed, withDrops, withDrop, hname], by simp, by simp⟩
    | some name =>
      refine ⟨[dropStatement name], by simp [dressed, withDrops, withDrop, hname], ?_, ?_⟩
      · simpa using isAnchor_dropStatement (Line.isBlank_of_tableName? hname)
      · simpa using isEmpty_dropStatement name

/-- No anchor is put in. -/
theorem isAnchor_dressed {drop : Bool} (h : ∀ line ∈ lines, isAnchor line = false) :
    ∀ line ∈ dressed drop lines, isAnchor line = false := by
  induction lines with
  | nil => cases drop <;> simp [dressed, withDrops]
  | cons line lines ih =>
    obtain ⟨hline, hlines⟩ := List.forall_mem_cons.mp h
    obtain ⟨before, hdressed, hbefore, -⟩ := exists_dressed_singleton drop line
    rw [← List.singleton_append, dressed_append, hdressed, List.forall_mem_append]
    refine ⟨List.forall_mem_append.mpr ⟨hbefore, ?_⟩, ih hlines⟩
    simpa using hline

/-- A blank line begins no table. -/
theorem tableName?_of_isEmpty (h : isEmpty line) : tableName? line = none := by
  cases hname : tableName? line with
  | none => rfl
  | some name =>
    obtain ⟨a, hfits⟩ := Line.fits_tableOpener (by rw [hname]; rfl)
    obtain ⟨lead, m, rfl, -, hfits⟩ := Text.Pattern.fits_append.mp hfits
    have hsplit : "CREATE".toList ++ " TABLE ".toList = "CREATE".toList ++ ' ' :: "TABLE ".toList :=
      rfl
    rw [hsplit, Text.Pattern.fits_phrase_split (by decide)] at hfits
    have hword := Text.Pattern.isWord_of_fits_keyword (by decide) hfits
    cases m with
    | nil => simp at hword
    | cons c m =>
      have hsolid := Text.isBlank_eq_false_of_isWord (c := c) (by simpa using hword)
      simp [Line.isEmpty_iff.mp h c (by simp)] at hsolid

/-- Empty lines stay as they are. -/
theorem dressed_of_isEmpty {drop : Bool} (h : ∀ line ∈ lines, isEmpty line) :
    dressed drop lines = lines := by
  cases drop with
  | false => rfl
  | true =>
    induction lines with
    | nil => rfl
    | cons line lines ih =>
      obtain ⟨hline, hlines⟩ := List.forall_mem_cons.mp h
      have hdressed := ih hlines
      simp only [dressed, withDrops, if_true] at hdressed ⊢
      rw [List.flatMap_cons, hdressed, withDrop, tableName?_of_isEmpty hline]
      rfl

/-- **The place of the declarations** is the same with the statements in: no line is
parted from its statement. -/
theorem anchor_dressed (drop : Bool) (lines : List Text) :
    anchor (dressed drop lines) = (dressed drop (lines.take (anchor lines))).length := by
  rcases exists_anchor_split lines with hnone | ⟨before, line, blank, rest, rfl, hbefore, hline,
    hblank, hrest⟩
  · rw [anchor_eq_zero (isAnchor_dressed hnone), anchor_eq_zero hnone]
    cases drop <;> rfl
  · obtain ⟨statement, hdressed, hstatement, -⟩ := exists_dressed_singleton drop line
    have hsplit : ∀ tail, dressed drop (before ++ line :: (blank ++ tail)) =
        (dressed drop before ++ statement) ++ line :: (blank ++ dressed drop tail) := by
      intro tail
      rw [← List.singleton_append, dressed_append, dressed_append, dressed_append, hdressed,
        dressed_of_isEmpty hblank]
      simp
    have hhead : (dressed drop rest).head?.any isEmpty = false := by
      cases rest with
      | nil => cases drop <;> rfl
      | cons l rest =>
        obtain ⟨before, hl, -, hsolid⟩ := exists_dressed_singleton drop l
        rw [← List.singleton_append, dressed_append, hl]
        cases before with
        | nil => simpa using hrest
        | cons b before => simpa using hsolid b (by simp)
    have hbefore' : ∀ l ∈ dressed drop before ++ statement, isAnchor l = false :=
      List.forall_mem_append.mpr ⟨isAnchor_dressed hbefore, hstatement⟩
    have htake : (before ++ line :: (blank ++ rest)).take (before ++ line :: blank).length =
        before ++ line :: (blank ++ []) := by
      rw [show before ++ line :: (blank ++ rest) = (before ++ line :: blank) ++ rest by simp,
        List.take_left, List.append_nil]
    rw [anchor_append hbefore hline hblank hrest, htake, hsplit, hsplit,
      anchor_append hbefore' hline hblank hhead]
    cases drop <;> simp [dressed, withDrops]

/-- The lines that declare the types of a catalog, if it has any. -/
def declarationLines (catalog : EnumCatalog) : List Text :=
  if catalog.types = [] then [] else declarationBlock catalog

/-- The declarations come between two parts of the lines. -/
theorem withDeclarations_dressed (catalog : EnumCatalog) (drop : Bool) (lines : List Text) :
    withDeclarations catalog (dressed drop lines) =
      dressed drop (lines.take (anchor lines)) ++ declarationLines catalog ++
        dressed drop (lines.drop (anchor lines)) := by
  have hlines : dressed drop lines =
      dressed drop (lines.take (anchor lines)) ++ dressed drop (lines.drop (anchor lines)) := by
    rw [← dressed_append, List.take_append_drop]
  unfold withDeclarations declarationLines
  by_cases htypes : catalog.types = []
  · simpa [htypes] using hlines
  · have htake : (dressed drop lines).take (anchor (dressed drop lines)) =
        dressed drop (lines.take (anchor lines)) := by
      rw [anchor_dressed, hlines, List.take_left]
    have hdrop : (dressed drop lines).drop (anchor (dressed drop lines)) =
        dressed drop (lines.drop (anchor lines)) := by
      rw [anchor_dressed, hlines, List.drop_left]
    simp [htypes, htake, hdrop]

/-- Declarations take two lines a type, and six around them. -/
theorem length_declarationLines (catalog : EnumCatalog) :
    (declarationLines catalog).length =
      if 0 < catalog.types.length then 6 + 2 * catalog.types.length else 0 := by
  have hlength : ∀ types : List EnumType,
      (types.flatMap fun type => [type.dropStatement, type.createStatement]).length =
        2 * types.length := by
    intro types
    induction types with
    | nil => rfl
    | cons type types ih =>
      rw [List.flatMap_cons, List.length_append, ih]
      simp only [List.length_cons, List.length_nil]
      omega
  unfold declarationLines declarationBlock EnumCatalog.declarations
  by_cases htypes : catalog.types = []
  · simp [htypes]
  · have hpos : 0 < catalog.types.length := List.length_pos_iff.mpr htypes
    rw [if_neg htypes, if_pos hpos, List.length_append, List.length_append, hlength]
    simp only [List.length_cons, List.length_nil]
    omega

/-! ## The whole script -/

/-- `Assembled options catalog lines script n`: the script has the lines in their
order, between what sets up the session and what restores it, if that is asked
for.  Up to the anchor and from there on they have the statements that drop their
tables, `n` in all, and in between the types are declared. -/
def Assembled (options : Options) (catalog : EnumCatalog) (lines script : List Text) (n : Nat) :
    Prop :=
  ∃ head tail m k, Dropping options.dropTables (lines.take (anchor lines)) head m ∧
    Dropping options.dropTables (lines.drop (anchor lines)) tail k ∧ m + k = n ∧
    script = (if options.sessionPreamble then preamble else []) ++
      (head ++ declarationLines catalog ++ tail) ++
      (if options.sessionPreamble then epilogue else [])

/-- **An assembled script** is the preamble, the lines with the declarations at their place,
and the end. -/
theorem assemble_eq (options : Options) (catalog : EnumCatalog) (lines : List Text) :
    Conversion.assemble options catalog lines =
      (if options.sessionPreamble then preamble else []) ++
        (dressed options.dropTables (lines.take (anchor lines)) ++ declarationLines catalog ++
          dressed options.dropTables (lines.drop (anchor lines))) ++
        (if options.sessionPreamble then epilogue else []) := by
  rw [← withDeclarations_dressed]
  unfold Conversion.assemble withSession dressed
  cases options.sessionPreamble <;> simp

/-- It puts in what the options say, and nothing else. -/
theorem assembled_assemble (options : Options) (catalog : EnumCatalog) (lines : List Text) :
    Assembled options catalog lines (Conversion.assemble options catalog lines)
      (if options.dropTables then countTables lines else 0) := by
  refine ⟨_, _, _, _, dropping_dressed _ _, dropping_dressed _ _, ?_, ?_⟩
  · cases options.dropTables with
    | false => rfl
    | true => simp only [if_true, countTables, ← List.countP_append, List.take_append_drop]
  · exact assemble_eq options catalog lines

/-- **The number of its lines** follows from that. -/
theorem Assembled.length_eq {options : Options} (h : Assembled options catalog lines script n) :
    script.length = lines.length + n +
      (if 0 < catalog.types.length then 6 + 2 * catalog.types.length else 0) +
      (if options.sessionPreamble then 8 else 0) := by
  obtain ⟨head, tail, m, k, hhead, htail, rfl, rfl⟩ := h
  have hlength : lines.length =
      (lines.take (anchor lines)).length + (lines.drop (anchor lines)).length := by
    rw [← List.length_append, List.take_append_drop]
  have hsession : ∀ b : Bool,
      (if b then preamble else []).length + (if b then epilogue else []).length =
        if b then 8 else 0 := by
    intro b
    cases b <;> rfl
  simp only [List.length_append, hhead.length_eq, htail.length_eq, length_declarationLines]
  have := hsession options.sessionPreamble
  omega

/-- So does that it makes no break. -/
theorem Assembled.not_mem {options : Options} (h : Assembled options catalog lines script n)
    (hlines : ∀ line ∈ lines, '\n' ∉ line) (htypes : ∀ s ∈ catalog.declarations, '\n' ∉ s) :
    ∀ line ∈ script, '\n' ∉ line := by
  obtain ⟨head, tail, m, k, hhead, htail, -, rfl⟩ := h
  have hsession : ∀ b : Bool, (∀ line ∈ if b then preamble else [], '\n' ∉ line) ∧
      ∀ line ∈ if b then epilogue else [], '\n' ∉ line := by decide
  have hdeclared : ∀ line ∈ declarationLines catalog, '\n' ∉ line := by
    unfold declarationLines declarationBlock
    split
    · simp
    · refine List.forall_mem_append.mpr ⟨List.forall_mem_append.mpr ⟨by decide, htypes⟩, by decide⟩
  simp only [List.forall_mem_append]
  exact ⟨⟨(hsession _).1, ⟨hhead.not_mem fun l hl => hlines l (List.mem_of_mem_take hl), hdeclared⟩,
    htail.not_mem fun l hl => hlines l (List.mem_of_mem_drop hl)⟩, (hsession _).2⟩

/-- Lines without line feeds have one each in the text. -/
theorem count_render (h : ∀ line ∈ script, '\n' ∉ line) :
    (render script).count '\n' = script.length := by
  induction script with
  | nil => rfl
  | cons line script ih =>
    obtain ⟨hline, hscript⟩ := List.forall_mem_cons.mp h
    have hcons : render (line :: script) = line ++ '\n' :: render script := by simp [render]
    rw [hcons, List.count_append, List.count_cons_self, List.count_eq_zero_of_not_mem hline,
      ih hscript, List.length_cons]
    omega

end Script

namespace Conversion

/-- **The script has the lines and what is put in.**  With a prefix without line
feeds, the text of the script has its lines one by one.  They are the converted
lines of the dump, one for each line of it, with other lines put in, of which the
counts tell how many there are. -/
theorem assembled_run {options : Options} (hstart : '\n' ∉ options.enumPrefix) (dump : Text) :
    (coercedLines options dump).length = dump.lines.length ∧
      ∃ script, (run options dump).text = Script.render script ∧
        Script.Assembled options (catalogOf options dump) (coercedLines options dump) script
          (run options dump).stats.tablesDropped ∧
        (run options dump).text.count '\n' = (run options dump).stats.linesWritten ∧
        (run options dump).stats.linesWritten = script.length ∧
        (run options dump).stats.linesWritten =
          (run options dump).stats.linesRead + (run options dump).stats.tablesDropped +
          (if 0 < (run options dump).stats.enumTypes
            then 6 + 2 * (run options dump).stats.enumTypes else 0) +
          (if options.sessionPreamble then 8 else 0) ∧
        (run options dump).stats.linesRead = dump.lines.length ∧
        (run options dump).stats.enumTypes = (catalogOf options dump).types.length := by
  have hassembled := Script.assembled_assemble options (catalogOf options dump)
    (coercedLines options dump)
  have hlength := length_coercedLines options dump
  have hcount : (Script.render (scriptLines options dump)).count '\n' =
      (scriptLines options dump).length :=
    Script.count_render (hassembled.not_mem (not_mem_coercedLines hstart dump)
      (EnumCatalog.not_mem_declarations hstart Text.not_mem_lines))
  have hwritten := hassembled.length_eq
  rw [hlength] at hwritten
  exact ⟨hlength, scriptLines options dump, rfl, hassembled, hcount, rfl, hwritten, rfl, rfl⟩

/-- A table with an enumeration: three lines of the dump, one statement before them,
eight lines for the type and eight for the session. -/
theorem assembled_run_table :
    '\n' ∉ ({} : Options).enumPrefix ∧
      (run {} "CREATE TABLE t (\n  k enum('a')\n);\n".toList).text.count '\n' = 20 := by
  have hstart : '\n' ∉ ({} : Options).enumPrefix := by decide
  obtain ⟨-, script, -, -, hcount, -, hwritten, -⟩ :=
    assembled_run hstart "CREATE TABLE t (\n  k enum('a')\n);\n".toList
  refine ⟨hstart, ?_⟩
  rw [hcount, hwritten]
  decide +kernel

end Conversion
end DumpBridge
