import DumpBridge.Text.Basic

/-!
# Options of a conversion

Four settings with a default each.
-/

namespace DumpBridge

/-- What a conversion may be told to do otherwise. -/
structure Options where
  /-- How the names of enum types start. -/
  enumPrefix : Text := "enum_type_".toList
  /-- Whether each table is dropped before it is created. -/
  dropTables : Bool := true
  /-- Whether the script sets up the session and restores it. -/
  sessionPreamble : Bool := true
  /-- Whether keys that are neither primary nor unique become comments. -/
  commentSecondaryIndexes : Bool := true
  deriving DecidableEq, Repr

end DumpBridge
