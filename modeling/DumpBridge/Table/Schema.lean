import DumpBridge.Enum.Catalog
import DumpBridge.Text.Lower

/-!
# The tables of a script

What the rows of a table may need is read off the converted lines: the columns of each table
in order, and which of them hold truth values or values of an enum type.  A table without such
columns is not kept.  Names are kept in lower case, and a table's last definition counts.
-/

namespace DumpBridge

/-- What a column holds, as far as it matters to rows. -/
inductive ColumnKind where
  | boolean
  | enumerated
  | other
  deriving DecidableEq, Repr

/-- A column, with its name in lower case. -/
structure Column where
  name : Text
  kind : ColumnKind
  deriving DecidableEq, Repr

/-- A table, with its name in lower case and its columns in order. -/
structure Table where
  name : Text
  columns : List Column
  deriving DecidableEq, Repr

namespace Table

/-- Whether some column of the table is of a kind. -/
def hasKind (table : Table) (kind : ColumnKind) : Bool :=
  table.columns.any (·.kind = kind)

/-- Whether the table has columns that matter to rows. -/
def isRelevant (table : Table) : Bool :=
  table.hasKind .boolean || table.hasKind .enumerated

/-- Whether a column of the given name, in any case, is of a kind. -/
def columnHasKind (table : Table) (column : Text) (kind : ColumnKind) : Bool :=
  let name := Text.lower column
  table.columns.any fun c => c.name = name && c.kind = kind

end Table

/-- The tables that matter to rows. -/
structure Schema where
  tables : List Table
  deriving DecidableEq, Repr

namespace Schema

open Text (Pattern isBlank isNameStart isWord)

/-- The schema without tables. -/
def empty : Schema := ⟨[]⟩

/-- The table of a name, in any case. -/
def table? (schema : Schema) (name : Text) : Option Table :=
  let name := Text.lower name
  schema.tables.find? (·.name = name)

/-- The names of a table's columns, in order. -/
def layout? (schema : Schema) (name : Text) : Option (List Text) :=
  (schema.table? name).map fun table => table.columns.map (·.name)

/-- Whether a table has columns of a kind. -/
def tableHasKind (schema : Schema) (name : Text) (kind : ColumnKind) : Bool :=
  (schema.table? name).any (·.hasKind kind)

/-- Whether a column of a table is of a kind. -/
def columnHasKind (schema : Schema) (name column : Text) (kind : ColumnKind) : Bool :=
  (schema.table? name).any (·.columnHasKind column kind)

/-- How many tables have columns of a kind. -/
def countKind (schema : Schema) (kind : ColumnKind) : Nat :=
  schema.tables.countP (·.hasKind kind)

/-- Takes in the definition of a table, which replaces an earlier one. -/
def put (schema : Schema) (table : Table) : Schema :=
  let others := schema.tables.filter (·.name != table.name)
  ⟨if table.isRelevant then others ++ [table] else others⟩

/-- The definition of a column; slot 1 is its name and slot 2 its type, up to a blank. -/
def columnDefinition : Pattern :=
  .optional (.char '"')
    ++ .capture 1 (.one isNameStart ++ .run (fun c => isWord c || c = '$'))
    ++ .optional (.char '"') ++ .gap ++ .capture 2 (.someOf (!isBlank ·))

/-- A type without what stands in parentheses, and without commas at the end. -/
def baseType (type : Text) : Text :=
  (Text.dropEndWhile (· = ',') type).takeWhile (· != '(')

/-- The kind of a column with a given type. -/
def kindOf (catalog : EnumCatalog) (type : Text) : ColumnKind :=
  if Text.sameAsciiLetters (baseType type) "BOOLEAN".toList then .boolean
  else if catalog.hasName (baseType type) then .enumerated
  else .other

/-- The column that a line of a table definition, without blanks around it, declares. -/
def column? (catalog : EnumCatalog) (line : Text) : Option Column :=
  if line.isEmpty || Line.isComment line || Line.isKeyClause line then none
  else
    (columnDefinition.matchStart line).map fun found =>
      { name := Text.lower (found.captured 1), kind := kindOf catalog (found.captured 2) }

/-- Takes in a table definition that may be open. -/
def close (schema : Schema) : Option Table → Schema
  | some table => schema.put table
  | none => schema

/-- The table whose definition a line begins, without columns yet. -/
def opened? (line : Text) : Option Table :=
  (Line.tableName? line).map fun name =>
    { name := Text.lower (Text.dropEndWhile (· = '(') name), columns := [] }

/-- Reads one line.  The state holds the schema so far and the table whose definition is open. -/
def step (catalog : EnumCatalog) (state : Schema × Option Table) (line : Text) :
    Schema × Option Table :=
  let line := Text.trim line
  match opened? line with
  | some table =>
    let schema := state.1.close state.2
    if Text.endsWith ';' line then (schema.put table, none) else (schema, some table)
  | none =>
    match state.2 with
    | none => state
    | some table =>
      if Text.startsWith ')' line then (state.1.put table, none)
      else
        match column? catalog line with
        | some column => (state.1, some { table with columns := table.columns ++ [column] })
        | none => state

/-- The schema of converted lines. -/
def ofLines (catalog : EnumCatalog) (lines : List Text) : Schema :=
  let (schema, opened) := lines.foldl (step catalog) (empty, none)
  schema.close opened

/-- Whether no table matters to rows. -/
def isEmpty (schema : Schema) : Bool :=
  schema.tables.isEmpty

end Schema
end DumpBridge
