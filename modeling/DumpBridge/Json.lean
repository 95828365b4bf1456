import DumpBridge.Text.Digest

/-!
# JSON on the standard output

Figures are written as JSON with two spaces for each level.
-/

namespace DumpBridge

/-- A JSON value with the parts that are written here. -/
inductive Json where
  | number (n : Nat)
  | string (t : Text)
  | array (items : List Json)
  | object (fields : List (String × Json))

namespace Json

/-- A character between quotes. -/
def escaped (c : Char) : Text :=
  if c = '"' || c = '\\' then ['\\', c]
  else if c = '\n' then ['\\', 'n']
  else if c = '\r' then ['\\', 'r']
  else if c = '\t' then ['\\', 't']
  else if c = '\x08' then ['\\', 'b']
  else if c = '\x0c' then ['\\', 'f']
  else if c.toNat < 0x20 then "\\u00".toList ++ Text.Digest.hex [UInt8.ofNat c.toNat]
  else [c]

/-- A text between quotes. -/
def quoted (t : Text) : Text :=
  '"' :: t.flatMap escaped ++ ['"']

/-- A line break and the spaces of a level. -/
def newLine (level : Nat) : Text :=
  '\n' :: List.replicate (2 * level) ' '

/-- Values between brackets, each on a line of its own. -/
def bracketed (left right : Char) (level : Nat) (values : List Text) : Text :=
  if values.isEmpty then [left, right]
  else
    let separated := values.map fun value => newLine (level + 1) ++ value
    left :: Text.join [','] separated ++ newLine level ++ [right]

mutual

/-- The value, written at a level. -/
def render (level : Nat) : Json → Text
  | .number n => (toString n).toList
  | .string t => quoted t
  | .array items => bracketed '[' ']' level (renderItems (level + 1) items)
  | .object fields => bracketed '\x7b' '\x7d' level (renderFields (level + 1) fields)

/-- The values of an array. -/
def renderItems (level : Nat) : List Json → List Text
  | [] => []
  | item :: rest => render level item :: renderItems level rest

/-- The fields of an object. -/
def renderFields (level : Nat) : List (String × Json) → List Text
  | [] => []
  | (name, value) :: rest =>
    (quoted name.toList ++ ": ".toList ++ render level value) :: renderFields level rest

end

/-- The value as a text of several lines. -/
def pretty (value : Json) : Text :=
  render 0 value

end Json
end DumpBridge
