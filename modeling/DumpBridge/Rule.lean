import DumpBridge.Options
import DumpBridge.Line.Quotes
import DumpBridge.Line.Columns
import DumpBridge.Line.Keys

/-!
# The rules for lines

Nineteen rules turn a line of the dump into a line of the script.  They run in a fixed order:
secondary keys are recognised before the backticks around names go, since a column may be called
`key`; escapes are changed before anything reads literals in the script's quoting; the options of a
table go before the comments of columns; and types change before the defaults of truth values.

A rule for schema lines passes over row data, and over a line that is a comment or has become one.
-/

namespace DumpBridge

/-- The rules, in the order in which they run. -/
inductive Rule where
  | commentSecondaryKeys
  | commentIdentityModifications
  | stripNameQuotes
  | normalizeEscapes
  | nullZeroDates
  | commentConditionalBlocks
  | renameTimeZone
  | commentSessionStatements
  | stripTableOptions
  | stripColumnComments
  | stripCollation
  | stripCharset
  | mapTypes
  | booleanDefaults
  | stripOnUpdate
  | currentTimestampCalls
  | stripAutoIncrement
  | stripIndexMethods
  | plainKeys
  deriving DecidableEq, Repr

namespace Rule

/-- All rules, in the order in which they run. -/
def all : List Rule := [
  .commentSecondaryKeys, .commentIdentityModifications, .stripNameQuotes, .normalizeEscapes,
  .nullZeroDates, .commentConditionalBlocks, .renameTimeZone, .commentSessionStatements,
  .stripTableOptions, .stripColumnComments, .stripCollation, .stripCharset, .mapTypes,
  .booleanDefaults, .stripOnUpdate, .currentTimestampCalls, .stripAutoIncrement,
  .stripIndexMethods, .plainKeys]

/-- Which lines a rule is for. -/
inductive Scope where
  /-- Every line, row data included. -/
  | all
  /-- Lines that are neither row data nor comments. -/
  | schema
  deriving DecidableEq, Repr

/-- What can switch a rule off. -/
inductive Toggle where
  | always
  | secondaryIndexes
  deriving DecidableEq, Repr

/-- The lines that a rule is for. -/
def scope : Rule → Scope
  | stripNameQuotes => .all
  | normalizeEscapes => .all
  | nullZeroDates => .all
  | _ => .schema

/-- What can switch a rule off. -/
def toggle : Rule → Toggle
  | commentSecondaryKeys => .secondaryIndexes
  | _ => .always

/-- The name under which a rule is listed. -/
def name : Rule → String
  | commentSecondaryKeys => "comment_secondary_keys"
  | commentIdentityModifications => "comment_identity_modifications"
  | stripNameQuotes => "strip_identifier_quotes"
  | normalizeEscapes => "normalize_escapes"
  | nullZeroDates => "null_zero_dates"
  | commentConditionalBlocks => "comment_conditional_blocks"
  | renameTimeZone => "rename_time_zone"
  | commentSessionStatements => "comment_session_statements"
  | stripTableOptions => "strip_table_options"
  | stripColumnComments => "strip_column_comments"
  | stripCollation => "strip_collation"
  | stripCharset => "strip_charset"
  | mapTypes => "map_types"
  | booleanDefaults => "boolean_defaults"
  | stripOnUpdate => "strip_on_update"
  | currentTimestampCalls => "current_timestamp_calls"
  | stripAutoIncrement => "strip_auto_increment"
  | stripIndexMethods => "strip_index_methods"
  | plainKeys => "rewrite_unique_keys"

/-- The rule listed under a name. -/
def ofName? (name : String) : Option Rule :=
  all.find? (·.name = name)

/-- What a rule makes of a line. -/
def apply : Rule → Text → Text
  | commentSecondaryKeys => Line.commentSecondaryKeys
  | commentIdentityModifications => Line.commentIdentityModifications
  | stripNameQuotes => Line.stripNameQuotes
  | normalizeEscapes => Line.normalizeEscapes
  | nullZeroDates => Line.nullZeroDates
  | commentConditionalBlocks => Line.commentConditionalBlocks
  | renameTimeZone => Line.renameTimeZone
  | commentSessionStatements => Line.commentSessionStatements
  | stripTableOptions => Line.stripTableOptions
  | stripColumnComments => Line.stripColumnComments
  | stripCollation => Line.stripCollation
  | stripCharset => Line.stripCharset
  | mapTypes => Line.mapTypes
  | booleanDefaults => Line.booleanDefaults
  | stripOnUpdate => Line.stripOnUpdate
  | currentTimestampCalls => Line.currentTimestampCalls
  | stripAutoIncrement => Line.stripAutoIncrement
  | stripIndexMethods => Line.stripIndexMethods
  | plainKeys => Line.plainKeys

/-- Whether the options leave a rule switched on. -/
def isEnabled (options : Options) (rule : Rule) : Bool :=
  match rule.toggle with
  | .always => true
  | .secondaryIndexes => options.commentSecondaryIndexes

/-- The rules that the options leave switched on, in order. -/
def enabled (options : Options) : List Rule :=
  all.filter (isEnabled options)

/-- What a rule makes of a line, which it may have to pass over.  Whether the line is row data was
settled before any rule ran. -/
def step (data : Bool) (line : Text) (rule : Rule) : Text :=
  if rule.scope = .schema && (data || Line.isComment line) then line else rule.apply line

end Rule

/-- The line of the script that a line of the dump becomes. -/
def Line.convert (options : Options) (line : Text) : Text :=
  (Rule.enabled options).foldl (Rule.step (Line.isData line)) line

end DumpBridge
