import DumpBridge.Table.Schema
import DumpBridge.Proofs.Line.KeyText
import DumpBridge.Proofs.Text.Characters

/-!
# What is read off one line of a table definition

A line inside a definition adds a column if it is not taken for a key and its
first word has the letters that a name may have (`column?_eq_some`,
`column?_eq_none`).  So a column is missed if its name is not of these letters or
if it looks like a key, and a key that does not look like one adds a column that
is not there.
-/

namespace DumpBridge.Schema

open Text (Pattern Cursor isBlank isNameStart isWord)
open Text.Pattern
open Line (isBare IsKey tableName?)

/-- Whether a character may stand in a name after its first. -/
def continuesName (c : Char) : Bool :=
  isWord c || c = '$'

/-- Whether a name has the letters that are looked for. -/
def isReadable (name : Text) : Bool :=
  name.head?.any isNameStart && name.tail.all continuesName

/-- A gap and a word come next. -/
def HasWord (rest : Text) : Prop :=
  ∃ space t, rest = space ++ t ∧ space ≠ [] ∧ (∀ c ∈ space, isBlank c) ∧ t ≠ [] ∧
    t.head?.any isBlank = false

variable {word rest space type more : Text}

/-- What continues a name is bare. -/
theorem isBare_of_continuesName {c : Char} (hc : continuesName c) : isBare c := by
  rw [continuesName, Bool.or_eq_true, decide_eq_true_eq] at hc
  rcases hc with hc | rfl
  · exact Line.isBare_of_isWord hc
  · decide

/-- The class of bare characters that a readable name belongs to. -/
theorem isBare_of_isReadable (hword : isReadable word) : ∀ c ∈ word, isBare c := by
  rw [isReadable, Bool.and_eq_true, List.all_eq_true] at hword
  cases word with
  | nil => simp
  | cons d word =>
    refine List.forall_mem_cons.mpr ⟨Line.isBare_of_isWord (Text.isWord_of_isNameStart ?_), ?_⟩
    · simpa using hword.1
    · exact fun c hc => isBare_of_continuesName (hword.2 c hc)

/-! ## Columns -/

/-- Behind a word stands a blank or a parenthesis, and so no bare character. -/
theorem head_isBare (hrest : rest.head?.all (fun c => isBlank c || c = '(')) :
    rest.head?.any isBare = false ∧ rest.head? ≠ some '"' := by
  have hparen : isBare '(' = false := by decide
  have hquote : isBlank '"' = false := by decide
  cases rest with
  | nil => simp
  | cons c rest =>
    have hc : isBlank c ∨ c = '(' := by simpa using hrest
    rcases hc with hc | rfl
    · refine ⟨by simpa using Line.isBare_eq_false_of_isBlank hc, ?_⟩
      rintro ⟨rfl⟩
      simp [hc] at hquote
    · exact ⟨by simpa using hparen, by simp⟩

/-- A column definition is found only after a readable name and a gap. -/
theorem isReadable_of_fits (hword : ∀ c ∈ word, isBare c)
    (hrest : rest.head?.all (fun c => isBlank c || c = '('))
    (hfits : columnDefinition.Fits none (word ++ rest)) : isReadable word ∧
    HasWord rest := by
  obtain ⟨hbare, hmark⟩ := head_isBare hrest
  have hquoteBare : isBare '"' = false := by decide
  rw [columnDefinition] at hfits
  simp only [fits_append_assoc] at hfits
  obtain ⟨quote, m, hsplit, hquote, hfits⟩ := fits_append.mp hfits
  obtain rfl : quote = [] := by
    refine (takes_optional.mp hquote).resolve_left fun hchar => ?_
    obtain rfl := takes_char.mp hchar
    cases word with
    | nil => exact hmark (by rw [List.nil_append] at hsplit; simp [hsplit])
    | cons d word =>
      obtain ⟨rfl, -⟩ := List.cons.inj hsplit
      simp [hword '"' (by simp)] at hquoteBare
  obtain ⟨name, m, rfl, ⟨_, z, rfl, ⟨c, rfl, hc⟩, hz, -⟩, hfits⟩ := fits_append.mp hfits
  obtain ⟨quote, m, rfl, hquote, hfits⟩ := fits_append.mp hfits
  obtain ⟨space, t, rfl, ⟨hspace_ne, hspace, ht⟩, x, r, rfl, hx⟩ := fits_gap_append.mp hfits
  have hname : ∀ d ∈ [c] ++ z, isBare d :=
    List.forall_mem_cons.mpr ⟨Line.isBare_of_isWord (Text.isWord_of_isNameStart hc),
      fun d hd => isBare_of_continuesName (hz d hd)⟩
  have hhead : (quote ++ (space ++ (x ++ r))).head?.any isBare = false := by
    rcases takes_optional.mp hquote with hchar | rfl
    · obtain rfl := takes_char.mp hchar
      simpa using hquoteBare
    · obtain ⟨b, space, rfl⟩ := List.exists_cons_of_ne_nil hspace_ne
      simpa using Line.isBare_eq_false_of_isBlank (hspace b (by simp))
  obtain ⟨rfl, rfl⟩ := Text.span_inj hword hname hbare hhead hsplit
  obtain rfl : quote = [] := by
    refine (takes_optional.mp hquote).resolve_left fun hchar => ?_
    obtain rfl := takes_char.mp hchar
    simp at hmark
  refine ⟨?_, space, x ++ r, rfl, hspace_ne, hspace, ?_, ht⟩
  · rw [isReadable, Bool.and_eq_true, List.all_eq_true]
    exact ⟨by simpa using hc, fun d hd => hz d (by simpa using hd)⟩
  · have hne := (takes_someOf.mp hx).1
    simp [hne]

/-- The match of a column definition sets aside the name and the type. -/
theorem matchStart_columnDefinition (hword : isReadable word) (hspace_ne : space ≠ [])
    (hspace : ∀ c ∈ space, isBlank c) (htype_ne : type ≠ [])
    (htype : ∀ c ∈ type, isBlank c = false) (hmore : more.head?.all isBlank) :
    ∃ found, columnDefinition.matchStart (word ++ (space ++ (type ++ more))) = some found ∧
      found.captured 1 = word ∧ found.captured 2 = type := by
  have hbare := isBare_of_isReadable hword
  have hquoteBare : isBare '"' = false := by decide
  have hquoteBlank : isBlank '"' = false := by decide
  rw [isReadable, Bool.and_eq_true, List.all_eq_true] at hword
  obtain ⟨c, name, rfl⟩ : ∃ c name, word = c :: name := by
    cases word with
    | nil => simp at hword
    | cons c name => exact ⟨c, name, rfl⟩
  obtain ⟨b, space', rfl⟩ := List.exists_cons_of_ne_nil hspace_ne
  obtain ⟨d, type', rfl⟩ := List.exists_cons_of_ne_nil htype_ne
  have hb : isBlank b := hspace b (by simp)
  have hc : isNameStart c := by simpa using hword.1
  let start := Cursor.start none (c :: name ++ (b :: space' ++ (d :: type' ++ more)))
  let named := start.setAside 1 (c :: name)
  have hnamed : named.rest = b :: space' ++ (d :: type' ++ more) := Cursor.rest_setAside 1 rfl
  have hgap : (named.advance (b :: space')).rest = d :: type' ++ more := Cursor.rest_advance hnamed
  have hbefore : ((optional (char '"')).ends start).head? = some start := by
    refine head?_ends_optional ?_
    rw [char, fits_one]
    intro hquote
    obtain rfl : c = '"' := by simpa [start, Cursor.start] using hquote
    simp [hbare '"' (by simp)] at hquoteBare
  have hname : ((capture 1 (one isNameStart ++ run continuesName)).ends start).head? =
      some named := by
    refine head?_ends_capture 1
      ((takesOnly_append (x := [c]) (takesOnly_one hc) ?_).head?_ends rfl rfl)
    refine takesOnly_run (by simpa using hword.2) ?_
    have hb' : isBare b = false := Line.isBare_eq_false_of_isBlank hb
    rw [List.cons_append, List.head?_cons, Option.any_some, ← Bool.not_eq_true]
    exact fun h => by simp [isBare_of_continuesName h] at hb'
  have hafter : ((optional (char '"')).ends named).head? = some named := by
    refine head?_ends_optional ?_
    rw [char, fits_one, hnamed]
    intro hquote
    obtain rfl : b = '"' := by simpa using hquote
    simp [hb] at hquoteBlank
  have hspaced : (gap.ends named).head? = some (named.advance (b :: space')) := by
    refine (takesOnly_someOf (by simp) hspace ?_).head?_ends rfl hnamed
    simpa using htype d (by simp)
  have htyped : ((capture 2 (someOf (!isBlank ·))).ends (named.advance (b :: space'))).head? =
      some ((named.advance (b :: space')).setAside 2 (d :: type')) := by
    refine head?_ends_capture 2
      ((takesOnly_someOf (by simp) (by simpa using htype) ?_).head?_ends rfl hgap)
    cases more with
    | nil => rfl
    | cons e more => simpa using hmore
  refine ⟨_, head?_ends_append (head?_ends_append (head?_ends_append (head?_ends_append hbefore
    hname) hafter) hspaced) htyped, ?_, ?_⟩
  · rw [Cursor.captured_setAside_of_ne (by decide), Cursor.captured_advance]
    exact Cursor.captured_setAside 1 rfl
  · exact Cursor.captured_setAside 2 hgap

/-! ## Lines by their first word -/

section Word

variable (hword : ∀ c ∈ word, isBare c)
  (hrest : rest.head?.all (fun c => isBlank c || c = '('))
include hword hrest

/-- A line adds a column only if its first word is readable and another follows. -/
theorem column?_eq_none (hread : ¬ (isReadable word ∧ HasWord rest)) (catalog : EnumCatalog) :
    column? catalog (word ++ rest) = none := by
  have hmatch : columnDefinition.matchStart (word ++ rest) = none := by
    rw [matchStart, matchAfter_eq_none_iff]
    exact fun hfits => hread (isReadable_of_fits hword hrest hfits)
  simp [column?, hmatch]

end Word

section Word

variable (hne : word ≠ []) (hword : ∀ c ∈ word, isBare c)
  (hrest : rest.head?.all (fun c => isBlank c || c = '('))
include hne hword

theorem head_isBlank : (word ++ rest).head?.any isBlank = false := by
  obtain ⟨c, word, rfl⟩ := List.exists_cons_of_ne_nil hne
  have hc := hword c (by simp)
  rw [isBare, Bool.and_eq_true] at hc
  simpa using hc.1

include hrest

/-- Whether it is a comment is seen at its first word. -/
theorem isComment_eq : Line.isComment (word ++ rest) = ['-', '-'].isPrefixOf word := by
  have htrim : Text.trimStart (word ++ rest) = word ++ rest :=
    Text.trimStart_append (x := []) (by simp) (head_isBlank hne hword)
  have hdash : isBare '-' := by decide
  rw [Line.isComment, htrim]
  obtain ⟨c, word, rfl⟩ := List.exists_cons_of_ne_nil hne
  cases word with
  | cons d word => rfl
  | nil =>
    have hbare := (head_isBare hrest).1
    cases rest with
    | nil => rfl
    | cons d rest =>
      have hd : '-' ≠ d := by
        rintro rfl
        simp [hdash] at hbare
      simp [List.isPrefixOf, hd]

/-- **It is a key clause** just if its first word is one that the rest makes a key. -/
theorem isKeyClause_iff : Line.isKeyClause (word ++ rest) ↔ IsKey word rest := by
  have htrim : Text.trimStart (word ++ rest) = word ++ rest :=
    Text.trimStart_append (x := []) (by simp) (head_isBlank hne hword)
  rw [Line.isKeyClause, htrim, Line.keyClause_starts_iff hword (head_isBare hrest).1]

theorem column?_of_isKey (hkey : IsKey word rest) (catalog : EnumCatalog) :
    column? catalog (word ++ rest) = none := by
  simp [column?, (isKeyClause_iff hne hword hrest).mpr hkey]

/-- A line that is not taken for a key adds a column if its first word is readable
and a type follows. -/
theorem column?_eq_some (hkey : ¬ IsKey word rest) (hdashes : ['-', '-'].isPrefixOf word = false)
    (hread : isReadable word) (hsplit : rest = space ++ (type ++ more))
    (hspace_ne : space ≠ []) (hspace : ∀ c ∈ space, isBlank c) (htype_ne : type ≠ [])
    (htype : ∀ c ∈ type, isBlank c = false) (hmore : more.head?.all isBlank)
    (catalog : EnumCatalog) :
    column? catalog (word ++ rest) =
      some { name := Text.lower word, kind := kindOf catalog type } := by
  have hclause : Line.isKeyClause (word ++ rest) = false := by
    rw [← Bool.not_eq_true, isKeyClause_iff hne hword hrest]
    exact hkey
  have hempty : (word ++ rest).isEmpty = false := by
    rw [List.isEmpty_eq_false_iff]
    exact List.append_ne_nil_of_left_ne_nil hne rest
  obtain ⟨found, hfound, hname, htype'⟩ :=
    matchStart_columnDefinition hread hspace_ne hspace htype_ne htype hmore
  rw [← hsplit] at hfound
  rw [column?, isComment_eq hne hword hrest, hclause, hdashes, hempty, hfound, Option.map_some,
    hname, htype']
  rfl

end Word

/-! ## The first line -/

/-- Whether a character may stand in the name of a table. -/
def isNameChar (c : Char) : Bool :=
  !isBlank c && !isNameQuote c && c != '('

/-- The name of a table has such characters only. -/
theorem isNameChar_of_tableName? {line name : Text} (h : tableName? line = some name) :
    ∀ c ∈ name, isNameChar c := by
  obtain ⟨found, hfound, rfl⟩ := Option.map_eq_some_iff.mp h
  have hname : Line.nameChars.Within (isNameChar ·) := ⟨fun _ hc => hc, fun _ hc => hc⟩
  have hsets : Line.tableOpener.Sets line fun k => k.slot = 1 → ∀ c ∈ k.text, isNameChar c := by
    refine ⟨⟨sets_of_isPlain (by decide), sets_of_isPlain (by decide), ?_⟩,
      sets_of_isPlain (by decide)⟩
    intro before y rest _ hy _ c hc
    exact hname.of_takes hy c (by simpa [Text.Capture.text] using hc)
  exact Sets.captured (P := fun name => ∀ c ∈ name, isNameChar c = true) hsets hfound (by simp)

section Opener

variable {create asked name after : Text}

/-- The match of the first line of a definition sets aside the table's name. -/
theorem matchStart_tableOpener
    (hcreate : (phrase "CREATE TABLE ").Takes none create (asked ++ (name ++ after)))
    (hhead : create.head?.any isBlank = false) (hne : create ≠ [])
    (hasked : ((optional (phrase "IF NOT EXISTS ")).ends
        ((Cursor.start none (create ++ (asked ++ (name ++ after)))).advance create)).head? =
      some (((Cursor.start none (create ++ (asked ++ (name ++ after)))).advance create).advance
        asked))
    (hname_ne : name ≠ []) (hname : ∀ c ∈ name, isNameChar c)
    (hafter : after.head?.all (fun c => isBlank c || c = '(')) :
    ∃ found, Line.tableOpener.matchStart (create ++ (asked ++ (name ++ after))) = some found ∧
      found.captured 1 = name := by
  let start := Cursor.start none (create ++ (asked ++ (name ++ after)))
  let opened := (start.advance create).advance asked
  have hopened : opened.rest = name ++ after := Cursor.rest_advance (Cursor.rest_advance rfl)
  have hblanks : (blanks.ends start).head? = some start := by
    have honly : blanks.TakesOnly none [] (create ++ (asked ++ (name ++ after))) := by
      refine takesOnly_run (by simp) ?_
      obtain ⟨c, create, rfl⟩ := List.exists_cons_of_ne_nil hne
      simpa using hhead
    exact TakesOnly.head?_ends (c := start) honly rfl rfl
  have hphrase : ((phrase "CREATE TABLE ").ends start).head? = some (start.advance create) :=
    (takesOnly_letters hcreate).head?_ends (isPlain_letters _) rfl
  have hquote : (nameQuote.ends opened).head? = some opened := by
    refine head?_ends_optional ?_
    rw [fits_one, hopened]
    obtain ⟨c, name, rfl⟩ := List.exists_cons_of_ne_nil hname_ne
    have hc := hname c (by simp)
    rw [isNameChar, Bool.and_eq_true, Bool.and_eq_true] at hc
    simpa using hc.1.2
  have hnamed : ((capture 1 Line.nameChars).ends opened).head? = some (opened.setAside 1 name) := by
    refine head?_ends_capture 1 (head?_ends_plus hname_ne hname ?_ hopened)
    cases after with
    | nil => rfl
    | cons c after =>
      have hc : isBlank c ∨ c = '(' := by simpa using hafter
      rcases hc with hc | rfl
      · simp [hc]
      · simp
  have hquote' : (nameQuote.ends (opened.setAside 1 name)).head? =
      some (opened.setAside 1 name) := by
    refine head?_ends_optional ?_
    rw [fits_one, Cursor.rest_setAside 1 hopened]
    cases after with
    | nil => simp
    | cons c after =>
      have hc : isBlank c ∨ c = '(' := by simpa using hafter
      intro hquote
      have hquote : isNameQuote c := by simpa using hquote
      rcases hc with hc | rfl
      · simp [Line.isBlank_of_isNameQuote hquote] at hc
      · exact absurd hquote (by decide)
  exact ⟨_, head?_ends_append (head?_ends_append (head?_ends_append (head?_ends_append
    (head?_ends_append hblanks hphrase) hasked) hquote) hnamed) hquote',
    Cursor.captured_setAside 1 hopened⟩

end Opener

/-- The first line of a table definition. -/
structure Opening where
  indent : Text
  ifNotExists : Bool
  name : Text
  space : Text
  tail : Text
  indent_blank : ∀ c ∈ indent, isBlank c
  name_ne : name ≠ []
  name_chars : ∀ c ∈ name, isNameChar c
  space_blank : ∀ c ∈ space, isBlank c
  tail_blank : ∀ c ∈ tail, isBlank c

namespace Opening

variable (o : Opening)

/-- The words between the table's name and the start of the line. -/
def asked : Text :=
  if o.ifNotExists then "IF NOT EXISTS ".toList else []

/-- The line without blanks around it. -/
def core : Text :=
  "CREATE TABLE ".toList ++ (o.asked ++ (o.name ++ (o.space ++ ['('])))

def line : Text :=
  o.indent ++ (o.core ++ o.tail)

theorem getLast?_core : o.core.getLast? = some '(' := by
  have hlast : ∀ a b n s : Text, (a ++ (b ++ (n ++ (s ++ ['('])))).getLast? = some '(' := by
    intro a b n s
    simp only [← List.append_assoc, List.getLast?_concat]
  exact hlast _ _ _ _

theorem trim_line : Text.trim o.line = o.core := by
  refine Text.trim_append o.indent_blank ?_ ?_ o.tail_blank
  · exact show (!isBlank 'C') = true by decide
  · rw [o.getLast?_core]
    decide

/-- The name of the table does not begin with a blank. -/
theorem head_name (m : Text) : (o.name ++ m).head?.any isBlank = false := by
  obtain ⟨c, name, hname⟩ := List.exists_cons_of_ne_nil o.name_ne
  have hc := o.name_chars c (by simp [hname])
  rw [isNameChar, Bool.and_eq_true, Bool.and_eq_true] at hc
  rw [hname]
  simpa using hc.1.1

theorem head_space : (o.space ++ ['(']).head?.all (fun c => isBlank c || c = '(') := by
  have hspace := o.space_blank
  cases hcons : o.space with
  | nil => rfl
  | cons c space => simp [hspace c (by simp [hcons])]

/-- The name is not taken for more of the words in front of it. -/
theorem not_fits_ifNotExists (before : Option Char) :
    ¬ (phrase "IF NOT EXISTS ").Fits before (o.name ++ (o.space ++ ['('])) := by
  have hblank : ∀ c, isBlank c → isNameChar c = false := by
    intro c hc
    simp [isNameChar, hc]
  have hword : ∀ c, isWord c → isNameChar c := by
    intro c hc
    have hquote : isNameQuote c = false := by
      rw [← Bool.not_eq_true]
      exact fun h => by simp [Line.isWord_of_isNameQuote h] at hc
    have hparen : c ≠ '(' := by
      rintro rfl
      exact absurd hc (by decide)
    simp [isNameChar, Text.isBlank_eq_false_of_isWord hc, hquote, hparen]
  have hstop : ∀ last m, isWord last →
      (gap ++ letters "NOT EXISTS ".toList).Fits (some last) m →
      m.head?.any isNameChar = false := by
    intro last m _ hfits
    have hm := isBlank_of_fits_gap hfits
    cases m with
    | nil => rfl
    | cons c m => simpa using hblank c (by simpa using hm)
  have hhead : (o.space ++ ['(']).head?.any isNameChar = false := by
    have hspace := o.space_blank
    cases hcons : o.space with
    | nil => decide
    | cons c space => simpa using hblank c (hspace c (by simp [hcons]))
  have hsplit : phrase "IF NOT EXISTS " = letters ("IF".toList ++ ' ' :: "NOT EXISTS ".toList) :=
    rfl
  have hsplit' : letters "NOT EXISTS ".toList =
    letters ("NOT".toList ++ ' ' :: "EXISTS ".toList) := rfl
  rw [hsplit, fits_letters_pair, fits_keyword_append hword (by decide) hstop o.name_chars hhead]
  rintro ⟨-, hfits⟩
  obtain ⟨space, m, hspace_eq, ⟨-, hspace, hm⟩, hfits⟩ := fits_gap_append.mp hfits
  have hparen : ['('].head?.any isBlank = false := by decide
  obtain ⟨-, rfl⟩ := Text.span_inj o.space_blank hspace hparen hm hspace_eq
  rw [hsplit', fits_letters_pair] at hfits
  obtain ⟨y, m, hy_eq, hy, -⟩ := (fits_word_append (by decide)).mp hfits
  obtain ⟨hne, hletters⟩ := isWord_of_spells (by decide) hy
  obtain ⟨c, y, rfl⟩ := List.exists_cons_of_ne_nil hne
  obtain ⟨rfl, -⟩ := List.cons.inj hy_eq
  exact absurd (hletters '(' (by simp)) (by decide)

/-- **The table is read by its name.** -/
theorem tableName?_core : tableName? o.core = some o.name := by
  let start := Cursor.start none o.core
  have hrest : (start.advance "CREATE TABLE ".toList).rest =
      o.asked ++ (o.name ++ (o.space ++ ['('])) := Cursor.rest_advance rfl
  have hcreate : (phrase "CREATE TABLE ").Takes none "CREATE TABLE ".toList
      (o.asked ++ (o.name ++ (o.space ++ ['(']))) := by
    refine takes_letters_self (by decide) ?_
    rw [asked]
    split
    · exact show isBlank 'I' = false by decide
    · exact o.head_name _
  have hasked : ((optional (phrase "IF NOT EXISTS ")).ends
      (start.advance "CREATE TABLE ".toList)).head? =
        some ((start.advance "CREATE TABLE ".toList).advance o.asked) := by
    rw [asked] at hrest ⊢
    split at hrest
    · rw [if_pos (by assumption)]
      refine head?_ends_optional_of_some ?_
      exact (takesOnly_letters (takes_letters_self (by decide) (o.head_name _))).head?_ends
        (isPlain_letters _) hrest
    · rw [if_neg (by assumption)]
      refine head?_ends_optional ?_
      rw [hrest]
      exact o.not_fits_ifNotExists _
  obtain ⟨found, hfound, hname⟩ := matchStart_tableOpener hcreate (by decide) (by decide) hasked
    o.name_ne o.name_chars o.head_space
  have hcore : Line.tableOpener.matchStart o.core = some found := hfound
  rw [tableName?, hcore, Option.map_some, hname]

end Opening

end DumpBridge.Schema
