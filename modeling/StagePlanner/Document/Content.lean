import StagePlanner.Document

/-!
# Content of unknown kind

Where a document may hold values of several kinds, the kind of a value decides what
is meant. The values here know their kind; texts are never taken for numbers nor
numbers for texts.
-/

namespace StagePlanner

/-- A value that knows its kind. -/
inductive Content where
  | null
  | boolean (value : Bool)
  /-- An integer without a minus. -/
  | natural (value : Nat)
  /-- An integer with a minus. -/
  | negative (value : Int)
  /-- A number that is not an integer; no document needs its value. -/
  | float
  | text (value : String)
  | list (items : List Content)
  | map (entries : List (Content × Content))
  deriving Repr

/-- The values of known fields among entries, each at the position of its field; nothing if a key is
refused or a field is there twice. The position of an unknown field is beyond the last one. -/
def arrangeFields {κ υ : Type} (position? : κ → Option Nat) (count : Nat) :
    List (κ × υ) → Option (List (Option υ))
  | [] => some (List.replicate count none)
  | (key, value) :: rest => do
    let fields ← arrangeFields position? count rest
    let position ← position? key
    match fields[position]? with
    | none => return fields
    | some none => return fields.set position (some value)
    | some (some _) => none

/-- The position of a name among field names; beyond the last one if it is not there. -/
def fieldPosition (names : List String) (name : String) : Nat :=
  names.findIdx fun other => other == name

/-- Values given by position; missing ones at the end are absent. -/
def positionalFields {υ : Type} (count : Nat) (values : List υ) : Option (List (Option υ)) :=
  if values.length ≤ count then
    some (values.map some ++ List.replicate (count - values.length) none)
  else none

namespace Content

/-- The position of the field that a key names or numbers; a number has no minus. -/
def position? (names : List String) : Content → Option Nat
  | .text name => some (fieldPosition names name)
  | .natural position => some position
  | _ => none

/-- The text that a value is. -/
def text? : Content → Option String
  | .text value => some value
  | _ => none

/-- The truth value that a value is. -/
def boolean? : Content → Option Bool
  | .boolean value => some value
  | _ => none

/-- The items that a value consists of. -/
def items? : Content → Option (List Content)
  | .list items => some items
  | _ => none

/-- The fields of a value with named entries. -/
def named? (names : List String) : Content → Option (List (Option Content))
  | .map entries => arrangeFields (position? names) names.length entries
  | _ => none

/-- The fields of a value with named entries or with items in their order. -/
def fields? (names : List String) : Content → Option (List (Option Content))
  | .list items => positionalFields names.length items
  | content => content.named? names

/-- The field of a record type that a value describes. -/
def fieldDefinition? (content : Content) : Option FieldDefinition := do
  match ← content.fields? ["name", "type", "nullable"] with
  | [name, type, nullable] =>
    return {
      name := ← (← name).text?
      type := ← (← type).text?
      nullable := ← match nullable with
        | some value => value.boolean?
        | none => some false }
  | _ => none

/-- The type that a value describes: a name, or a record with a name and fields. -/
def type? : Content → Option TypeDefinition
  | .text name => some (.named name)
  | content => do
    match ← content.named? ["name", "fields"] with
    | [name, fields] =>
      let name ← (← name).text?
      match fields with
      | none => return .record name []
      | some fields => return .record name (← (← fields.items?).mapM fieldDefinition?)
    | _ => none

/-- The condition of iteration that a value describes: a flag or a list of parameters. -/
def iteration? : Content → Option IterationDefinition
  | .boolean value => some (.flag value)
  | .list items => (items.mapM text?).map .parameters
  | _ => none

/-- The argument that is an integer of 64 bits with a sign. -/
def integerArgument? (value : Int) : Option ArgumentValue :=
  let limit : Int := Nat.pow 2 63
  if -limit ≤ value && value < limit then some (.integer value) else none

/-- The argument that a value describes: a truth value, an integer, or a text. -/
def argument? : Content → Option ArgumentValue
  | .boolean value => some (.boolean value)
  | .natural value => integerArgument? value
  | .negative value => integerArgument? value
  | .text value => some (.text value)
  | _ => none

end Content

end StagePlanner
