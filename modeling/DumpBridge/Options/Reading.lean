import DumpBridge.Options
import DumpBridge.Text.Shown
import DumpBridge.Yaml.Node

/-!
# Reading options

Options are written as a YAML mapping.  A setting that is not there keeps its default, and a
key that is no setting is passed over.  The prefix of enum types becomes part of statements,
so it has to be a plain identifier.
-/

namespace DumpBridge.Options

open Yaml (Node Document Style boolTag)

/-- Why options cannot be used. -/
inductive Error where
  /-- They are not written as they should be. -/
  | malformed
  /-- The prefix of enum types is no identifier. -/
  | badPrefix (start : Text)
  deriving DecidableEq, Repr

/-- The error in words. -/
def Error.message : Error → Text
  | malformed => "malformed options".toList
  | badPrefix start =>
    "enum_type_prefix must be a plain SQL identifier, got ".toList ++ Text.shown start

/-- The four settings. -/
inductive Setting where
  | enumPrefix
  | dropTables
  | sessionPreamble
  | commentSecondaryIndexes
  deriving DecidableEq, Repr

/-- The setting of a key. -/
def Setting.ofKey? (key : Text) : Option Setting :=
  [("enum_type_prefix", Setting.enumPrefix), ("drop_tables", .dropTables),
   ("session_preamble", .sessionPreamble),
   ("comment_secondary_indexes", .commentSecondaryIndexes)].findSome? fun (name, setting) =>
    if name.toList = key then some setting else none

/-- The text of a scalar. -/
def text? : Node → Option Text
  | .scalar _ _ text => some text
  | _ => none

/-- Whether a scalar written so can be a truth value: without quotes, or as lines under their
own tag. -/
def mayBeFlag (style : Style) (tag : Option Text) : Bool :=
  style = .plain || (style = .literal && tag = some boolTag)

/-- The truth value of a scalar. -/
def flag? : Node → Option Bool
  | .scalar style tag text =>
    if !mayBeFlag style tag then none
    else if text ∈ ["true", "True", "TRUE"].map String.toList then some true
    else if text ∈ ["false", "False", "FALSE"].map String.toList then some false
    else none
  | _ => none

/-- The options with a setting made. -/
def set? (options : Options) (setting : Setting) (value : Node) : Option Options :=
  match setting with
  | .enumPrefix => (text? value).map fun start => { options with enumPrefix := start }
  | .dropTables => (flag? value).map fun flag => { options with dropTables := flag }
  | .sessionPreamble => (flag? value).map fun flag => { options with sessionPreamble := flag }
  | .commentSecondaryIndexes =>
    (flag? value).map fun flag => { options with commentSecondaryIndexes := flag }

/-- Makes the settings of a mapping's entries.  A setting may be made once; `made` has those that
were.  Aliases are followed only where a setting needs them. -/
def ofEntries? (document : Document) (options : Options) (made : List Setting) :
    List (Node × Node) → Option Options
  | [] => some options
  | (key, value) :: rest => do
    match Setting.ofKey? (← text? (← document.follow? key)) with
    | none => ofEntries? document options made rest
    | some setting =>
      if setting ∈ made then none
      else
        let options ← options.set? setting (← document.follow? value)
        ofEntries? document options (setting :: made) rest

/-- The options of a document. -/
def ofDocument? (document : Document) : Option Options :=
  match document.root with
  | .mapping entries => ofEntries? document {} [] entries
  | .scalar .plain _ [] => some {}
  | _ => none

/-- A letter or underscore, and then letters, digits and underscores, all of ASCII. -/
def isIdentifier : Text → Bool
  | [] => false
  | c :: rest => Text.isNameStart c && rest.all fun c => c.isAlphanum || c = '_'

/-- Reads options. -/
def read (yaml : Text) : Except Error Options :=
  match (Yaml.parse? yaml).bind ofDocument? with
  | none => .error .malformed
  | some options =>
    if isIdentifier options.enumPrefix then .ok options else .error (.badPrefix options.enumPrefix)

end DumpBridge.Options
