import DumpBridge.Conversion
import DumpBridge.Proofs.Enum.Catalog
import DumpBridge.Proofs.Line.Additions
import DumpBridge.Proofs.Rows.Statements
import DumpBridge.Proofs.Separators.Clauses

/-!
# The lines on their way to the script

`Conversion.coercedLines` are the lines from which the script is put together.
Every stage up to there makes one line of each line: there are as many as the dump
has (`length_coercedLines`), and none has a line feed inside
(`not_mem_coercedLines`).
-/

namespace DumpBridge

/-! ## Lines of a text -/

/-- A line has no break. -/
theorem Text.not_mem_lines {t : Text} : ∀ line ∈ t.lines, '\n' ∉ line := by
  have hpieces : ∀ piece ∈ cut '\n' t, '\n' ∉ piece := not_mem_cutFrom (by simp)
  intro line hline
  rcases List.mem_append.mp hline with hline | hline
  · obtain ⟨piece, hpiece, rfl⟩ := List.mem_map.mp hline
    have hkept := hpieces piece (List.dropLast_subset _ hpiece)
    unfold dropReturn
    split
    · exact fun hmem => hkept (List.dropLast_subset _ hmem)
    · exact hkept
  · -- The last piece is a line if it is not empty.
    split at hline
    · simp at hline
    · obtain rfl := List.mem_singleton.mp hline
      cases hlast : (cut '\n' t).getLast? with
      | none => simp [List.getLastD_eq_getLast?, hlast]
      | some last =>
        rw [List.getLastD_eq_getLast?, hlast]
        exact hpieces last (List.mem_of_getLast? hlast)

/-! ## Names of types -/

namespace EnumCatalog

variable {start line : Text} {lines : List Text} {type : EnumType} {catalog : EnumCatalog}

/-- The name of a type is one line, if the prefix of names is. -/
theorem not_mem_name (hstart : '\n' ∉ start) (htype : type ∈ (ofLines start lines).types) :
    '\n' ∉ type.name := by
  obtain ⟨line, -, values, -, rfl⟩ := exists_of_mem_ofLines htype
  obtain ⟨digits, hname, -, hdigits⟩ := EnumType.exists_nameOf start values
  have hdigit : '\n' ∉ digits := by
    intro hmem
    exact absurd (hdigits _ hmem) (by decide)
  rw [EnumType.ofValues, hname, List.mem_append, not_or]
  exact ⟨hstart, hdigit⟩

/-- The values of a type come from lines. -/
theorem not_mem_typeValues (hlines : ∀ line ∈ lines, '\n' ∉ line)
    (htype : type ∈ (ofLines start lines).types) : ∀ value ∈ type.values, '\n' ∉ value := by
  obtain ⟨line, hline, values, hvalues, rfl⟩ := exists_of_mem_ofLines htype
  unfold declared at hvalues
  split at hvalues
  · simp at hvalues
  · obtain ⟨piece, hpiece, hvalues⟩ := List.mem_filterMap.mp hvalues
    have hkept := Literal.not_mem_piece (by decide) hpiece (hlines line hline)
    cases piece with
    | plain s => simp [EnumType.pieceValues?] at hvalues
    | call head inside =>
      simp only [Literal.Piece.text, List.mem_append, not_or] at hkept
      exact Literal.not_mem_value hvalues hkept.1.2

/-- So a declaration is one line. -/
theorem not_mem_declarations (hstart : '\n' ∉ start) (hlines : ∀ line ∈ lines, '\n' ∉ line) :
    ∀ statement ∈ (ofLines start lines).declarations, '\n' ∉ statement := by
  intro statement hstatement
  obtain ⟨type, htype, hstatement⟩ := List.mem_flatMap.mp hstatement
  have hname := not_mem_name hstart htype
  have hquoted : ∀ literal ∈ type.values.map Literal.quote, '\n' ∉ literal := by
    intro literal hliteral
    obtain ⟨value, hvalue, rfl⟩ := List.mem_map.mp hliteral
    exact Literal.not_mem_quote (by decide) (not_mem_typeValues hlines htype value hvalue)
  have hvalues : '\n' ∉ type.valueText := Text.not_mem_join (by decide) hquoted
  have hdrop : '\n' ∉ type.dropStatement := by
    unfold EnumType.dropStatement
    simp [hname]
  have hcreate : '\n' ∉ type.createStatement := by
    unfold EnumType.createStatement
    simp [hname, hvalues]
  have hboth : ∀ s ∈ [type.dropStatement, type.createStatement], '\n' ∉ s :=
    List.forall_mem_cons.mpr ⟨hdrop, List.forall_mem_cons.mpr ⟨hcreate, by simp⟩⟩
  exact hboth statement hstatement

/-- Putting names in makes no break. -/
theorem not_mem_substitute (hnames : ∀ type ∈ catalog.types, '\n' ∉ type.name)
    (hline : '\n' ∉ line) : '\n' ∉ catalog.substitute line := by
  have hpiece : ∀ piece ∈ Literal.pieces .standard EnumType.opener line,
      '\n' ∉ (catalog.replacement? piece).getD piece.text := by
    intro piece hpiece
    cases hnew : catalog.replacement? piece with
    | none => exact Literal.not_mem_piece (by decide) hpiece hline
    | some name =>
      simp only [replacement?, bind, Option.bind_eq_some_iff] at hnew
      obtain ⟨values, -, type, htype, hname⟩ := hnew
      obtain rfl := Option.some.inj hname
      exact hnames type (mem_of_get? htype).1
  unfold substitute substitute?
  split
  · exact hline
  · dsimp only
    split
    · intro hmem
      obtain ⟨piece, hmem, hnew⟩ := List.mem_flatMap.mp hmem
      exact hpiece piece hmem hnew
    · exact hline

end EnumCatalog

/-! ## Separators -/

namespace Separators

variable {lines : List Text} {line : Text}

/-- Repairing keeps the number of lines. -/
theorem length_repair (lines : List Text) : (repair lines).lines.length = lines.length := by
  have hcommas : ∀ lines, (commasFixed lines).length = lines.length := by
    intro lines
    induction lines with
    | nil => rfl
    | cons line lines ih => simp [ih]
  have hheaders : ∀ lines, (headersMarked lines).length = lines.length := by
    intro lines
    induction lines with
    | nil => rfl
    | cons line lines ih => simp [ih]
  rw [lines_repair, hheaders, hcommas]

/-- A separator that is put in is no break. -/
theorem not_mem_applyFix (fix : CommaFix) (hline : '\n' ∉ line) : '\n' ∉ fix.apply line := by
  have hreplace : ∀ new : Text, '\n' ∉ new → '\n' ∉ replaceComma new line := by
    intro new hnew
    simp only [replaceComma, List.mem_append, not_or]
    refine ⟨⟨fun hmem => ?_, hnew⟩, fun hmem => hline (List.mem_of_mem_drop hmem)⟩
    exact Text.not_mem_trimEnd hline (List.dropLast_subset _ hmem)
  cases fix with
  | keep => exact hline
  | terminate => exact hreplace [';'] (by decide)
  | drop => exact hreplace [] (by simp)

/-- **Repairing makes no break.** -/
theorem not_mem_repair (hlines : ∀ line ∈ lines, '\n' ∉ line) :
    ∀ line ∈ (repair lines).lines, '\n' ∉ line := by
  have hcommas : ∀ line ∈ commasFixed lines, '\n' ∉ line := by
    induction lines with
    | nil => simp
    | cons line lines ih =>
      obtain ⟨hline, hlines⟩ := List.forall_mem_cons.mp hlines
      exact List.forall_mem_cons.mpr ⟨not_mem_applyFix _ hline, ih hlines⟩
  rw [lines_repair]
  generalize commasFixed lines = fixed at hcommas
  induction fixed with
  | nil => simp
  | cons line fixed ih =>
    obtain ⟨hline, hfixed⟩ := List.forall_mem_cons.mp hcommas
    have hcomment := Line.addsNo_ite_commentOut (x := '\n') (by decide)
      fun line => isBareHeader line fixed
    exact List.forall_mem_cons.mpr ⟨hcomment.not_mem hline, ih hfixed⟩

end Separators

/-! ## Rows -/

/-- What an item has, the joined text has. -/
theorem Text.mem_join {sep item : Text} {items : List Text} {c : Char} (hitem : item ∈ items)
    (hc : c ∈ item) : c ∈ join sep items := by
  fun_induction join sep items with
  | case1 => simp at hitem
  | case2 t =>
    obtain rfl := List.mem_singleton.mp hitem
    exact hc
  | case3 t rest _ ih =>
    rcases List.mem_cons.mp hitem with rfl | hitem
    · simp [hc]
    · simp [ih hitem]

namespace Rows

variable {schema : Schema} {before lines : List Text} {line : Text}

/-- A new value has no break. -/
theorem not_mem_newItem {targets : Positions} {i : Nat} {item : Text} (hitem : '\n' ∉ item) :
    '\n' ∉ newItem targets i item := by
  have hword : ∀ value word, newWord? targets i value = some word → '\n' ∉ word := by
    intro value word hword
    unfold newWord? at hword
    split_ifs at hword <;> obtain rfl := Option.some.inj hword <;> decide
  unfold newItem
  split
  · next word hnew =>
    simp only [List.mem_append, List.mem_reverse, not_or]
    refine ⟨⟨fun hmem => hitem (List.takeWhile_subset _ hmem), hword _ _ hnew⟩, fun hmem => ?_⟩
    exact hitem (List.mem_reverse.mp (List.takeWhile_subset _ hmem))
  · exact hitem

/-- Neither has a row with new values. -/
theorem not_mem_result {targets : Positions} {row : Row} (hrow : '\n' ∉ row.text) :
    '\n' ∉ row.result targets := by
  simp only [Row.text, Row.withItems, List.mem_append, List.mem_cons, not_or] at hrow
  obtain ⟨hgap, hopen, hitems, hclose⟩ := hrow
  have hnew : ∀ item ∈ (itemsOf row.inner).mapIdx (newItem targets), '\n' ∉ item := by
    intro item hitem
    obtain ⟨i, hi, rfl⟩ := List.mem_mapIdx.mp hitem
    exact not_mem_newItem fun hmem => hitems (Text.mem_join (List.getElem_mem hi) hmem)
  have hjoin : '\n' ∉ Text.join [','] ((itemsOf row.inner).mapIdx (newItem targets)) :=
    Text.not_mem_join (by decide) hnew
  simp [Row.result, Row.withItems, hgap, hjoin]

/-- Whatever a line becomes is one line. -/
theorem not_mem_becomes {effect : Effect} (h : Becomes schema before line effect)
    (hline : '\n' ∉ line) : '\n' ∉ effect.line := by
  cases h with
  | kept => exact hline
  | @values targets start rows rest hvalues hne hreads =>
    have hread : '\n' ∉ rows.flatMap Row.text ++ rest := by
      rw [← hreads.text]
      exact fun hmem => hline (List.mem_of_mem_drop hmem)
    rw [List.mem_append, not_or] at hread
    have hrows : '\n' ∉ rows.flatMap (Row.result targets) := by
      intro hmem
      obtain ⟨row, hrow, hmem⟩ := List.mem_flatMap.mp hmem
      exact not_mem_result (fun h => hread.1 (List.mem_flatMap.mpr ⟨row, hrow, h⟩)) hmem
    simp only [List.mem_append, not_or]
    exact ⟨fun hmem => hline (List.mem_of_mem_take hmem), hrows, hread.2⟩

/-- Each line becomes what it does after those before it. -/
theorem Effects.forall₂ {effects : List Effect} (h : Effects schema before lines effects) :
    List.Forall₂ (fun line effect => ∃ before, Becomes schema before line effect) lines
      effects := by
  induction h with
  | nil before => exact .nil
  | cons first rest ih => exact .cons ⟨_, first⟩ ih

/-- Each line of a script becomes one line. -/
theorem forall₂_coerce (schema : Schema) (lines : List Text) :
    List.Forall₂ (fun line new => ∃ before effect, Becomes schema before line effect ∧
      new = effect.line) lines (coerce schema lines).lines := by
  obtain ⟨effects, heffects⟩ := exists_effects schema [] lines
  have hlines := (coerceLines_of_effects (activeAfter_nil schema) heffects 1 {}).1
  rw [coerce_eq_coerceLines, hlines, List.forall₂_map_right_iff]
  refine heffects.forall₂.imp ?_
  rintro line effect ⟨before, h⟩
  exact ⟨before, effect, h, rfl⟩

/-- **Coercing rows makes no break.** -/
theorem not_mem_coerce (hlines : ∀ line ∈ lines, '\n' ∉ line) :
    ∀ line ∈ (coerce schema lines).lines, '\n' ∉ line := by
  have hforall := forall₂_coerce schema lines
  generalize (coerce schema lines).lines = coerced at hforall
  induction hforall with
  | nil => simp
  | cons h _ ih =>
    obtain ⟨before, effect, hbecomes, rfl⟩ := h
    obtain ⟨hline, hlines⟩ := List.forall_mem_cons.mp hlines
    exact List.forall_mem_cons.mpr ⟨not_mem_becomes hbecomes hline, ih hlines⟩

end Rows

/-! ## All stages -/

/-- Entries at the same place are related. -/
theorem exists_getElem?_of_forall₂ {α β : Type} {R : α → β → Prop} {l : List α} {r : List β}
    (h : List.Forall₂ R l r) {i : Nat} {a : α} (ha : l[i]? = some a) :
    ∃ b, r[i]? = some b ∧ R a b := by
  induction h generalizing i with
  | nil => simp at ha
  | cons hab _ ih =>
    cases i with
    | zero =>
      obtain rfl : _ = a := by simpa using ha
      exact ⟨_, rfl, hab⟩
    | succ i => exact ih (by simpa using ha)

namespace Conversion

/-- The enum types of a dump. -/
def catalogOf (options : Options) (dump : Text) : EnumCatalog :=
  .ofLines options.enumPrefix dump.lines

/-- The converted lines, with names in place of enumerations. -/
def namedLines (options : Options) (dump : Text) : List Text :=
  (dump.lines.map (Line.convert options)).map (catalogOf options dump).substitute

/-- The lines from which the script is put together: their separators are repaired
and their values changed. -/
def coercedLines (options : Options) (dump : Text) : List Text :=
  let repaired := (Separators.repair (namedLines options dump)).lines
  (Rows.coerce (Schema.ofLines (catalogOf options dump) repaired) repaired).lines

/-- The lines of the script. -/
def scriptLines (options : Options) (dump : Text) : List Text :=
  assemble options (catalogOf options dump) (coercedLines options dump)

/-- The text of a run is its lines put together. -/
theorem text_run (options : Options) (dump : Text) :
    (run options dump).text = Script.render (scriptLines options dump) := rfl

/-- **Every line of the dump becomes one line.** -/
theorem length_coercedLines (options : Options) (dump : Text) :
    (coercedLines options dump).length = dump.lines.length := by
  rw [coercedLines, ← (Rows.forall₂_coerce _ _).length_eq, Separators.length_repair, namedLines,
    List.length_map, List.length_map]

/-- **No stage makes a break**, so the lines of a dump stay lines. -/
theorem not_mem_coercedLines {options : Options} (hstart : '\n' ∉ options.enumPrefix)
    (dump : Text) :
    ∀ line ∈ coercedLines options dump, '\n' ∉ line := by
  apply Rows.not_mem_coerce
  apply Separators.not_mem_repair
  intro line hline
  obtain ⟨converted, hconverted, rfl⟩ := List.mem_map.mp hline
  obtain ⟨raw, hraw, rfl⟩ := List.mem_map.mp hconverted
  apply EnumCatalog.not_mem_substitute
  · exact fun type => EnumCatalog.not_mem_name hstart
  · exact Line.not_mem_convert options (Text.not_mem_lines raw hraw)

end Conversion
end DumpBridge
