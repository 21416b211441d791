import StagePlanner.Yaml.Node
import StagePlanner.Yaml.Token.Reading

/-!
# Reading nodes

The node of a document out of its tokens. A text holds at most one document. Where a
token that ends something stands in the place of a node, the node is empty.
-/

namespace StagePlanner.Yaml

/-- What remains to be read, and the anchors so far. -/
structure TokenReader where
  tokens : List Token
  /-- The numbers of the anchors; the last one of a name comes first. -/
  anchors : List (String × Nat) := []
  /-- What the handles of tags stand for. -/
  handles : List (String × Tag) := []

/-- A step of reading. -/
abbrev Reading (α : Type) := StateT TokenReader Option α

namespace Reading

/-- The next token, if there is one. -/
def peek : Reading (Option Token) := do
  return (← get).tokens.head?

/-- Passes a token. -/
def skip : Reading Unit := modify fun reader => { reader with tokens := reader.tokens.drop 1 }

/-- Whether the next token is a given one; passes it in that case. -/
def accept (token : Token) : Reading Bool := do
  if (← peek) == some token then
    skip
    return true
  else return false

/-- Passes a token that has to come next. -/
def expect (token : Token) : Reading Unit := do
  if !(← accept token) then failure

/-- Whether the next token is one of some. -/
def isAtAny (tokens : List Token) : Reading Bool := do
  return (← peek).any tokens.contains

/-- The number of the anchor that an alias names. -/
def numberOf (name : String) : Reading Nat := do
  match (← get).anchors.lookup name with
  | some number => return number
  | none => failure

/-- Gives an anchor its number: how many names were there before it. -/
def register (name : String) : Reading Nat := do
  let reader ← get
  let number := (reader.anchors.map Prod.fst).eraseDups.length
  set { reader with anchors := (name, number) :: reader.anchors }
  return number

/-- The tag that a written one stands for. -/
def resolve (name : TagName) : Reading Tag := do
  if name.handle.isEmpty then return name.suffix
  match (← get).handles.lookup name.handle with
  | some meaning => return name.suffix.after meaning
  | none => failure

/-- Reads an anchor, if there is one. -/
def anchor? : Reading (Option String) := do
  match ← peek with
  | some (.anchor name) =>
    skip
    return some name
  | _ => return none

/-- Reads a tag, if there is one. -/
def tag? : Reading (Option TagName) := do
  match ← peek with
  | some (.tag name) =>
    skip
    return some name
  | _ => return none

/-- Reads the anchor and the tag of a node, in either order; gives the number and the meaning. -/
def properties : Reading (Option Nat × Option Tag) := do
  let early ← anchor?
  let tag ← tag?
  let late ← if early.isNone && tag.isSome then anchor? else pure none
  let tag ← match tag with
    | some name => (resolve name).map some
    | none => pure none
  match early <|> late with
  | some name => return (some (← register name), tag)
  | none => return (none, tag)

/-- Reads a node unless one of some tokens stands in its place. -/
def unlessAt (ends : List Token) (read : Reading Node) : Reading Node := do
  if ← isAtAny ends then return .empty else read

/-- Reads a value if it is indicated, unless one of some tokens stands in its place. -/
def indicated (ends : List Token) (read : Reading Node) : Reading Node := do
  if ← accept .value then unlessAt ends read else return .empty

mutual

/-- Reads a node. Blocks cannot be in flow collections; the value of a key may be a sequence that is
not indented. -/
def node (inBlock afterKey : Bool) : Nat → Reading Node
  | 0 => failure
  | fuel + 1 => do
    if let some (.reference name) ← peek then
      skip
      return .reference (← numberOf name)
    let (anchor, tag) ← properties
    match ← peek with
    | some (.scalar style text) =>
      skip
      return .scalar anchor tag style text
    | some .flowSequenceStart =>
      skip
      return .sequence anchor tag (← flowItems true fuel)
    | some .flowMappingStart =>
      skip
      return .mapping anchor tag (← flowEntries true fuel)
    | token =>
      if afterKey && token == some .item then
        return .sequence anchor tag (← levelItems fuel)
      else if inBlock && token == some .blockSequenceStart then
        skip
        return .sequence anchor tag (← blockItems fuel)
      else if inBlock && token == some .blockMappingStart then
        skip
        return .mapping anchor tag (← blockEntries fuel)
      else if anchor.isSome || tag.isSome then return .scalar anchor tag .plain ""
      else failure

/-- Reads the items of a block up to its end. -/
def blockItems : Nat → Reading (List Node)
  | 0 => failure
  | fuel + 1 => do
    if ← accept .blockEnd then return []
    expect .item
    let item ← unlessAt [.item, .blockEnd] (node true false fuel)
    return item :: (← blockItems fuel)

/-- Reads the items of a sequence that is not indented; something else ends it. -/
def levelItems : Nat → Reading (List Node)
  | 0 => failure
  | fuel + 1 => do
    if !(← accept .item) then return []
    let item ← unlessAt [.item, .key, .value, .blockEnd] (node true false fuel)
    return item :: (← levelItems fuel)

/-- Reads the entries of a block up to its end. -/
def blockEntries : Nat → Reading (List (Node × Node))
  | 0 => failure
  | fuel + 1 => do
    if ← accept .blockEnd then return []
    expect .key
    let key ← unlessAt [.key, .value, .blockEnd] (node true true fuel)
    let value ← indicated [.key, .value, .blockEnd] (node true true fuel)
    return (key, value) :: (← blockEntries fuel)

/-- Reads the items of a flow sequence up to its end; a separator comes before all but the first. -/
def flowItems (isFirst : Bool) : Nat → Reading (List Node)
  | 0 => failure
  | fuel + 1 => do
    if ← accept .flowSequenceEnd then return []
    if !isFirst then expect .separator
    if ← accept .key then
      let entry ← flowPair fuel
      return .mapping none none [entry] :: (← flowItems false fuel)
    else if ← accept .flowSequenceEnd then return []
    else
      let item ← node false false fuel
      return item :: (← flowItems false fuel)

/-- Reads the only entry of a mapping that stands as an item in a flow sequence. If its key is
missing, the token in the place of the key is passed. -/
def flowPair : Nat → Reading (Node × Node)
  | 0 => failure
  | fuel + 1 => do
    let isMissing ← isAtAny [.value, .separator, .flowSequenceEnd]
    if isMissing then skip
    let key ← if isMissing then pure .empty else node false false fuel
    let value ← indicated [.separator, .flowSequenceEnd] (node false false fuel)
    return (key, value)

/-- Reads the entries of a flow mapping up to its end; a separator comes before each further one. -/
def flowEntries (isFirst : Bool) : Nat → Reading (List (Node × Node))
  | 0 => failure
  | fuel + 1 => do
    if ← accept .flowMappingEnd then return []
    if !isFirst then expect .separator
    if ← accept .key then
      let key ← unlessAt [.value, .separator, .flowMappingEnd] (node false false fuel)
      let value ← indicated [.separator, .flowMappingEnd] (node false false fuel)
      return (key, value) :: (← flowEntries false fuel)
    else if ← accept .flowMappingEnd then return []
    else
      let key ← node false false fuel
      return (key, .empty) :: (← flowEntries false fuel)

end

/-- Reads the directives of a document: at most one version, which has to be 1.1 or 1.2, and one
meaning of each handle. -/
def directives (hasVersion : Bool) : Nat → Reading Unit
  | 0 => failure
  | fuel + 1 => do
    match ← peek with
    | some (.version major minor) =>
      if hasVersion || major ≠ 1 || !(minor = 1 || minor = 2) then failure
      skip
      directives true fuel
    | some (.handleMeaning handle meaning) =>
      if ((← get).handles.lookup handle).isSome then failure
      skip
      modify fun reader => { reader with handles := (handle, meaning) :: reader.handles }
      directives hasVersion fuel
    | _ => return ()

/-- What handles stand for that no directive explains. -/
def standardHandles : List (String × Tag) := [("!", .ofText "!"), ("!!", .core "")]

/-- Whether the next token starts a document, and is none of its node. -/
def isAtDocumentStart : Reading Bool := do
  match ← peek with
  | some (.version ..) | some (.handleMeaning ..) | some .documentStart => return true
  | _ => return false

/-- Passes marks of the end of a document. -/
def documentEnds : Nat → Reading Unit
  | 0 => return ()
  | fuel + 1 => do
    if ← accept .documentEnd then documentEnds fuel

/-- Reads the only document. Without any token it is empty, and after its start it may be. -/
def document (fuel : Nat) : Reading Node := do
  if (← get).tokens.isEmpty then return .empty
  let isExplicit ← isAtDocumentStart
  if isExplicit then
    directives false fuel
    expect .documentStart
  modify fun reader => { reader with handles := reader.handles ++ standardHandles }
  let isEmpty := (← peek).all (· == .documentEnd) || (← isAtDocumentStart)
  let root ← if isExplicit && isEmpty then pure .empty else node true false fuel
  documentEnds fuel
  if (← get).tokens.isEmpty then return root else failure

end Reading

/-- The node of the only document in a text; nothing if the text is malformed. -/
def node? (text : String) : Option Node := do
  let tokens ← tokens? text
  (Reading.document (2 * tokens.length + 2)).run' { tokens }

end StagePlanner.Yaml
