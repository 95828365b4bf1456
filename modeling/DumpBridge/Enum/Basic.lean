import DumpBridge.Literal.Call
import DumpBridge.Literal.Quoted
import DumpBridge.Text.Digest

/-!
# Enum types

The dump writes an enumeration where a column is declared; the script needs a type with a name.  The
name is made from the values alone, so one list of values has one type wherever it is written.
-/

namespace DumpBridge

/-- An enumeration: its values in order, and the name of its type. -/
structure EnumType where
  name : Text
  values : List Text
  deriving DecidableEq, Repr

namespace EnumType

open Text (Pattern)
open Literal (Quoting Piece)

/-- What separates the values of a key. -/
def keySeparator : Char := '\x1f'

/-- The key of a list of values: two lists with one key count as one. -/
def key (values : List Text) : Text :=
  Text.join [keySeparator] values

/-- The name of the type with given values: a prefix and the start of a digest of their key. -/
def nameOf (start : Text) (values : List Text) : Text :=
  start ++ (Text.Digest.hex (Text.Digest.sha256 (key values).toBytes)).take 8

/-- The type with given values. -/
def ofValues (start : Text) (values : List Text) : EnumType :=
  { name := nameOf start values, values := values }

/-- The values as literals, with commas between. -/
def valueText (type : EnumType) : Text :=
  Text.join ", ".toList (type.values.map Literal.quote)

/-- The statement that drops the type. -/
def dropStatement (type : EnumType) : Text :=
  "DROP TYPE IF EXISTS ".toList ++ type.name ++ " CASCADE;".toList

/-- The statement that creates the type. -/
def createStatement (type : EnumType) : Text :=
  "CREATE TYPE ".toList ++ type.name ++ " AS ENUM (".toList ++ type.valueText ++ ");".toList

/-- The start of an enumeration on a line. -/
def opener : Pattern :=
  Literal.callOpener "enum"

/-- The values of an enumeration, if the piece is one. -/
def pieceValues? (q : Quoting) : Piece → Option (List Text)
  | .call _ inside => Literal.valueList? q inside
  | .plain _ => none

/-- The value lists of the enumerations on a line, in order. -/
def valueLists (q : Quoting) (line : Text) : List (List Text) :=
  (Literal.pieces q opener line).filterMap (pieceValues? q)

end EnumType
end DumpBridge
