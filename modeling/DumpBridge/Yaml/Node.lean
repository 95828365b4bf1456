import DumpBridge.Yaml.Token

/-!
# YAML documents

A document is a scalar, a sequence or a mapping of such.  `parse?` reads the only document of
a text.

A node may have an anchor, and an alias stands for the node of an anchor, which may be the
node that the alias is in.  So an alias stays in the document as a number, and
`Document.follow?` gives its node.  Anchors are numbered by the names known so far, whatever
their own name is.  A name that is used again therefore shares its number with the next new
name, and the number stands for the later node.
-/

namespace DumpBridge.Yaml

/-- A part of a document. -/
inductive Node where
  | scalar (style : Style) (tag : Option Text) (text : Text)
  | sequence (items : List Node)
  | mapping (entries : List (Node × Node))
  /-- The node that a number stands for. -/
  | alias (number : Nat)

/-- What is written where nothing stands. -/
def Node.absent : Node :=
  .scalar .plain none []

/-- A document: its content, and the nodes that numbers stand for. -/
structure Document where
  root : Node
  targets : List (Nat × Node) := []

/-- The node itself, or the one that an alias stands for. -/
def Document.follow? (document : Document) : Node → Option Node
  | .alias number => document.targets.lookup number
  | node => some node

/-- What is left to read, and what is known so far. -/
structure Input where
  tokens : List Token
  /-- What the handles of tags stand for. -/
  handles : Handles
  /-- The numbers of the anchors. -/
  anchors : List (Text × Nat) := []
  /-- The nodes of the numbers, as far as they are complete. -/
  targets : List (Nat × Node) := []

/-- What may stand before a node. -/
structure Properties where
  anchor : Option Text := none
  tag : Option Text := none

namespace Input

/-- Whether the next token is one of the given ones. -/
def isAt (i : Input) (tokens : List Token) : Bool :=
  i.tokens.head?.any (· ∈ tokens)

/-- The input after the next token. -/
def skip (i : Input) : Input :=
  { i with tokens := i.tokens.drop 1 }

/-- Numbers an anchor whose node starts here.  The number no longer stands for an earlier node. -/
def openAnchor (i : Input) (name : Text) : Nat × Input :=
  let number := i.anchors.length
  (number, { i with
    anchors := (name, number) :: i.anchors.filter (·.1 != name)
    targets := i.targets.filter (·.1 != number) })

/-- Takes in the node of a number, unless the number stands for a node that started later. -/
def closeAnchor (i : Input) (number : Nat) (node : Node) : Input :=
  if i.targets.any (·.1 = number) then i else { i with targets := (number, node) :: i.targets }

/-- An anchor and a tag before a node, in either order, and the input after them. -/
def properties? (i : Input) : Option (Properties × Input) :=
  match i.tokens with
  | .anchor name :: .tag content :: rest | .tag content :: .anchor name :: rest => do
    let tag ← content.resolve? i.handles
    return ({ anchor := some name, tag := some tag }, { i with tokens := rest })
  | .anchor name :: rest => some ({ anchor := some name }, { i with tokens := rest })
  | .tag content :: rest => do
    return ({ tag := some (← content.resolve? i.handles) }, { i with tokens := rest })
  | _ => some ({}, i)

end Input

mutual

/-- Reads a node.  Blocks may start here if `inBlock` holds, and a sequence whose dashes are not
indented if `bare` holds. -/
def node (inBlock bare : Bool) : Nat → Input → Option (Node × Input)
  | 0, _ => none
  | fuel + 1, i =>
    match i.tokens with
    | .alias name :: rest =>
      (i.anchors.lookup name).map fun number => (.alias number, { i with tokens := rest })
    | _ => do
      let (properties, i) ← i.properties?
      match properties.anchor with
      | none => content inBlock bare properties fuel i
      | some name =>
        let (number, i) := i.openAnchor name
        let (result, i) ← content inBlock bare properties fuel i
        return (result, i.closeAnchor number result)

/-- Reads a node after what may stand before it.  A node may be absent only after such. -/
def content (inBlock bare : Bool) (properties : Properties) : Nat → Input → Option (Node × Input)
  | 0, _ => none
  | fuel + 1, i =>
    let absent : Option (Node × Input) :=
      if properties.anchor.isSome || properties.tag.isSome then
        some (.scalar .plain properties.tag [], i)
      else none
    match i.tokens with
    | .scalar style text :: _ => some (.scalar style properties.tag text, i.skip)
    | .flowSequenceStart :: _ =>
      (flowItems true fuel i.skip).map fun (items, i) => (.sequence items, i)
    | .flowMappingStart :: _ =>
      (flowEntries true fuel i.skip).map fun (entries, i) => (.mapping entries, i)
    | .blockEntry :: _ =>
      if bare then (bareItems fuel i).map fun (items, i) => (.sequence items, i) else absent
    | .blockSequenceStart :: _ =>
      if inBlock then
        (blockItems fuel i.skip).map fun (items, i) => (.sequence items, i)
      else absent
    | .blockMappingStart :: _ =>
      if inBlock then (blockEntries fuel i.skip).map fun (entries, i) => (.mapping entries, i)
      else absent
    | _ => absent

/-- Reads a node unless one of the given tokens, which end it, comes next. -/
def nodeUnless (stops : List Token) (inBlock bare : Bool) : Nat → Input → Option (Node × Input)
  | 0, _ => none
  | fuel + 1, i => if i.isAt stops then some (.absent, i) else node inBlock bare fuel i

/-- Reads the entries of a sequence whose dashes are indented. -/
def blockItems : Nat → Input → Option (List Node × Input)
  | 0, _ => none
  | fuel + 1, i =>
    if i.isAt [.blockEnd] then some ([], i.skip)
    else if i.isAt [.blockEntry] then do
      let (item, i) ← nodeUnless [.blockEntry, .blockEnd] true false fuel i.skip
      let (items, i) ← blockItems fuel i
      return (item :: items, i)
    else none

/-- Reads the entries of a sequence whose dashes are not indented. -/
def bareItems : Nat → Input → Option (List Node × Input)
  | 0, _ => none
  | fuel + 1, i =>
    if i.isAt [.blockEntry] then do
      let (item, i) ← nodeUnless [.blockEntry, .key, .value, .blockEnd] true false fuel i.skip
      let (items, i) ← bareItems fuel i
      return (item :: items, i)
    else some ([], i)

/-- Reads the entries of a mapping outside brackets. -/
def blockEntries : Nat → Input → Option (List (Node × Node) × Input)
  | 0, _ => none
  | fuel + 1, i =>
    if i.isAt [.blockEnd] then some ([], i.skip)
    else if i.isAt [.key] then do
      let stops := [.key, .value, .blockEnd]
      let (key, i) ← nodeUnless stops true true fuel i.skip
      let (value, i) ←
        if i.isAt [.value] then nodeUnless stops true true fuel i.skip else some (.absent, i)
      let (entries, i) ← blockEntries fuel i
      return ((key, value) :: entries, i)
    else none

/-- Reads a key and its value between brackets that `stop` closes.  In a sequence, an absent
key takes the token in its place away. -/
def flowPair (stop : Token) : Nat → Input → Option ((Node × Node) × Input)
  | 0, _ => none
  | fuel + 1, i => do
    let (key, i) ←
      if !i.isAt [.value, .flowEntry, stop] then node false false fuel i
      else some (.absent, if stop = .flowSequenceEnd then i.skip else i)
    let (value, i) ←
      if i.isAt [.value] then nodeUnless [.flowEntry, stop] false false fuel i.skip
      else some (.absent, i)
    return ((key, value), i)

/-- Reads the entries of a sequence in brackets. -/
def flowItems (first : Bool) : Nat → Input → Option (List Node × Input)
  | 0, _ => none
  | fuel + 1, i =>
    if i.isAt [.flowSequenceEnd] then some ([], i.skip)
    else do
      let i ← if first then some i else if i.isAt [.flowEntry] then some i.skip else none
      if i.isAt [.flowSequenceEnd] then return ([], i.skip)
      let (item, i) ←
        if i.isAt [.key] then
          (flowPair .flowSequenceEnd fuel i.skip).map fun (entry, i) => (Node.mapping [entry], i)
        else node false false fuel i
      let (items, i) ← flowItems false fuel i
      return (item :: items, i)

/-- Reads the entries of a mapping in braces. -/
def flowEntries (first : Bool) : Nat → Input → Option (List (Node × Node) × Input)
  | 0, _ => none
  | fuel + 1, i =>
    if i.isAt [.flowMappingEnd] then some ([], i.skip)
    else do
      let i ← if first then some i else if i.isAt [.flowEntry] then some i.skip else none
      if i.isAt [.flowMappingEnd] then return ([], i.skip)
      let (entry, i) ←
        if i.isAt [.key] then flowPair .flowMappingEnd fuel i.skip
        else (node false false fuel i).map fun (key, i) => ((key, Node.absent), i)
      let (entries, i) ← flowEntries false fuel i
      return (entry :: entries, i)

end

/-- Reads the content of a document, which may be absent after the mark that starts one.  Only marks
that end it may follow. -/
def content? (marked : Bool) (handles : Handles) (tokens : List Token) : Option Document := do
  let i : Input := { tokens := tokens ++ [.documentEnd], handles := handles }
  let fuel := 5 * tokens.length + 5
  let startsNext := tokens.head?.any fun
    | .directive _ | .documentStart => true
    | _ => false
  if marked && startsNext then none
  else
    let (root, i) ←
      if marked then nodeUnless [.documentEnd] true false fuel i else node true false fuel i
    if i.tokens.all (· = .documentEnd) then some { root := root, targets := i.targets } else none

/-- The directives before a document, and the tokens after them. -/
def directives : List Token → List Directive × List Token
  | .directive content :: rest =>
    let (more, rest) := directives rest
    (content :: more, rest)
  | tokens => ([], tokens)

/-- Reads the only document of some tokens; without any there is an absent node.  Directives
need the mark that starts a document after them. -/
def document? (tokens : List Token) : Option Document := do
  let (directives, rest) := directives tokens
  let handles ← Handles.ofDirectives? directives
  match rest with
  | .documentStart :: rest => content? true handles rest
  | [] => if directives.isEmpty then some { root := .absent } else none
  | _ => if directives.isEmpty then content? false handles rest else none

/-- The only document of a text. -/
def parse? (text : Text) : Option Document := do
  document? (← tokens? text)

end DumpBridge.Yaml
