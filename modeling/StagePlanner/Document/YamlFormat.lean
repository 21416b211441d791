import StagePlanner.Document.Decoding
import StagePlanner.Yaml.Node.Reading
import StagePlanner.Yaml.Resolution

/-!
# Documents in YAML

Nodes do not say of which kind a plain scalar is, so what is expected decides. A text
is any scalar as it is written; numbers and truth values have no quotes. Where several
kinds are possible a plain scalar is null, a truth value or a number if it can be,
unless a tag says otherwise.

Lists and maps must not be nested too deeply, and the number of aliases that are
followed is limited by the size of the document.
-/

namespace StagePlanner.Yaml

/-- A node of a document where something is expected. -/
structure View where
  node : Node
  /-- What aliases stand for, by their numbers. -/
  anchored : List (Nat × Node)
  /-- How many lists or maps may be nested here. -/
  depth : Nat

/-- Whether nothing is written where a scalar stands. -/
def isEmptyPlain (style : ScalarStyle) (text : String) : Bool := style = .plain && text.isEmpty

/-- Follows an alias, as long as that is allowed. -/
def target (anchored : List (Nat × Node)) : Node → Decoding Node
  | .reference number => do
    match ← get, anchored.lookup number with
    | left + 1, some node =>
      set left
      return node
    | _, _ => failure
  | node => return node

/-- An integer of 64 bits; with a minus it is a negative one, whatever its value. -/
def integerContent? (integer : Integer) : Option Content :=
  if !integer.fits 64 then none
  else if integer.isNegative then some (.negative integer.value)
  else some (.natural integer.magnitude)

/-- What a scalar means that has no quotes. Integers beyond 64 bits are refused as long as 128 bits
are enough for them. -/
def plainContent? (text : String) : Option Content :=
  if text.isEmpty || isNull text then some .null
  else match boolean? text with
    | some value => some (.boolean value)
    | none =>
      match (integer? text).filter (Integer.fits · 128) with
      | some integer => integerContent? integer
      | none => some (if isFraction text then .float else .text text)

/-- What a scalar means by its tag and style. -/
def scalarContent? (tag : Option Tag) (style : ScalarStyle) (text : String) : Option Content :=
  if (tag.bind Tag.localName?).isSome then none
  else if tag = some (.core "bool") then (boolean? text).map .boolean
  else if tag = some (.core "int") then (integer? text).bind integerContent?
  else if tag = some (.core "float") then (number? text).map fun _ => .float
  else if tag = some (.core "null") then if isNull text then some .null else none
  else if tag.all Tag.isLocal && style = .plain then plainContent? text
  else some (.text text)

/-- What a node means; the number bounds how deeply lists and maps are nested. -/
def content? (anchored : List (Nat × Node)) : Nat → Node → Decoding Content
  | depth, node => do
    match ← target anchored node, depth with
    | .scalar _ tag style text, _ => return ← scalarContent? tag style text
    | .sequence _ tag items, depth + 1 =>
      if (tag.bind Tag.localName?).isSome then failure
      return .list (← items.mapM fun item => content? anchored depth item)
    | .mapping _ tag entries, depth + 1 =>
      if (tag.bind Tag.localName?).isSome then failure
      return .map (← entries.mapM fun (key, value) => do
        return (← content? anchored depth key, ← content? anchored depth value))
    | _, _ => failure

namespace View

/-- A view of a node below. -/
def below (view : View) (node : Node) : View := { view with node, depth := view.depth - 1 }

/-- The node itself, where there is an alias. -/
def resolved (view : View) : Decoding Node := target view.anchored view.node

/-- The text of a scalar. -/
def text? (view : View) : Decoding String := do
  match ← view.resolved with
  | .scalar _ _ _ text => return text
  | _ => failure

/-- The value of a scalar without quotes; a literal one needs the tag of its kind. -/
def unquoted? {α : Type} (kind : String) (read? : String → Option α)
    (view : View) : Decoding α := do
  match ← view.resolved with
  | .scalar _ tag style text =>
    if style = .plain || (style = .literal && tag = some (.core kind)) then return ← read? text
    else failure
  | _ => failure

/-- The view of a value that is not null. -/
def present? (view : View) : Decoding (Option View) := do
  let node ← view.resolved
  match node with
  | .scalar _ tag .plain text =>
    if tag = some (.core "null") then
      if isNull text then return none else failure
    else if tag.isNone && (text.isEmpty || isNull text) then return none
    else return some { view with node }
  | _ => return some { view with node }

/-- The items of a list; nothing written is an empty list. -/
def items? (view : View) : Decoding (List View) := do
  match ← view.resolved with
  | .sequence _ _ items => if view.depth = 0 then failure else return items.map view.below
  | .scalar _ _ style text => if isEmptyPlain style text then return [] else failure
  | _ => failure

/-- The entries of a map, whose keys are texts; nothing written is an empty map. -/
def entries? (view : View) : Decoding (List (String × View)) := do
  match ← view.resolved with
  | .mapping _ _ entries =>
    if view.depth = 0 then failure
    else entries.mapM fun (key, value) => do return (← (view.below key).text?, view.below value)
  | .scalar _ _ style text => if isEmptyPlain style text then return [] else failure
  | _ => failure

/-- The values of the fields of a map. -/
def fields? (names : List String) (view : View) : Decoding (List (Option View)) := do
  return ← arrangeFields (fun name => some (fieldPosition names name)) names.length (← view.entries?)

/-- The name that a scalar gives: its text, or its own tag if nothing else is written. -/
def choice? (view : View) : Decoding String := do
  match ← view.resolved with
  | .scalar _ tag style text =>
    match tag.bind Tag.localName? with
    | none => return text
    | some name => if style = .plain && (text.isEmpty || isNull text) then return name else failure
  | _ => failure

instance : DocumentFormat View where
  text? := text?
  boolean? := unquoted? "bool" boolean?
  natural? := unquoted? "int" natural?
  number? := unquoted? "float" number?
  present? := present?
  items? := items?
  entries? := entries?
  fields? := fields?
  choice? := choice?
  content? view := content? view.anchored view.depth view.node

end View

/-- The document that a text describes. -/
def document? (text : String) : Option Document := do
  let root ← node? text
  (DocumentFormat.document? { node := root, anchored := root.anchored, depth := 128 : View }).run'
    (100 * root.size)

end StagePlanner.Yaml
