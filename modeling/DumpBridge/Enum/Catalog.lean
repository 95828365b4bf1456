import DumpBridge.Enum.Basic
import DumpBridge.Line.Kind

/-!
# The enum types of a dump

A catalog holds the types of a dump in the order in which their values first occur.  It is read from
the raw lines, and its names then take the place of the enumerations in the converted lines.
-/

namespace DumpBridge

/-- Enum types with different keys, in the order of their first occurrence. -/
structure EnumCatalog where
  types : List EnumType
  deriving DecidableEq, Repr

namespace EnumCatalog

open Literal (Piece)

/-- The catalog without types. -/
def empty : EnumCatalog := ⟨[]⟩

/-- The type whose values have the key of the given ones. -/
def get? (catalog : EnumCatalog) (values : List Text) : Option EnumType :=
  let key := EnumType.key values
  catalog.types.find? fun type => EnumType.key type.values = key

/-- Adds the type with the given values, unless one with their key is there. -/
def insert (start : Text) (catalog : EnumCatalog) (values : List Text) : EnumCatalog :=
  match catalog.get? values with
  | some _ => catalog
  | none => ⟨catalog.types ++ [.ofValues start values]⟩

/-- The enumerations that a line of the dump declares. -/
def declared (line : Text) : List (List Text) :=
  if Line.isComment line || Line.isData line then [] else EnumType.valueLists .mysql line

/-- The catalog of a dump, with `start` at the start of every name. -/
def ofLines (start : Text) (lines : List Text) : EnumCatalog :=
  (lines.flatMap declared).foldl (insert start) empty

/-- Whether a name is that of a type, in any case of the letters `A` to `Z`. -/
def hasName (catalog : EnumCatalog) (name : Text) : Bool :=
  catalog.types.any fun type => Text.sameAsciiLetters type.name name

/-- The statements that declare the types. -/
def declarations (catalog : EnumCatalog) : List Text :=
  catalog.types.flatMap fun type => [type.dropStatement, type.createStatement]

/-- The name that takes the place of a piece, if it is an enumeration of the catalog. -/
def replacement? (catalog : EnumCatalog) (piece : Piece) : Option Text := do
  let values ← EnumType.pieceValues? .standard piece
  let type ← catalog.get? values
  return type.name

/-- The line with names in place of the catalog's enumerations, if it has any. -/
def substitute? (catalog : EnumCatalog) (line : Text) : Option Text :=
  if Line.isComment line || Line.isData line then none
  else
    let pieces := Literal.pieces .standard EnumType.opener line
    if pieces.any fun piece => (catalog.replacement? piece).isSome then
      some (pieces.flatMap fun piece => (catalog.replacement? piece).getD piece.text)
    else none

/-- The line with names in place of the catalog's enumerations. -/
def substitute (catalog : EnumCatalog) (line : Text) : Text :=
  (catalog.substitute? line).getD line

end EnumCatalog
end DumpBridge
