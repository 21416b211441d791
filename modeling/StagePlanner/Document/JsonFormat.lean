import StagePlanner.Document.Decoding
import StagePlanner.Json

/-!
# Documents in JSON

JSON values say of which kind they are, so only numbers leave a choice: an integer
may stand where any number is expected. Records may also be written as arrays.
-/

namespace StagePlanner.Json

mutual

/-- A value as content. -/
def content : Json → Content
  | .null => .null
  | .boolean value => .boolean value
  | .integer (.ofNat value) => .natural value
  | .integer value => .negative value
  | .float _ => .float
  | .text value => .text value
  | .array items => .list (contentItems items)
  | .object members => .map (contentMembers members)

/-- The items of an array as content. -/
def contentItems : List Json → List Content
  | [] => []
  | item :: rest => content item :: contentItems rest

/-- The members of an object as content. -/
def contentMembers : List (String × Json) → List (Content × Content)
  | [] => []
  | (name, value) :: rest => (.text name, content value) :: contentMembers rest

end

/-- The number that a value is. -/
def number? : Json → Option Float
  | .integer value => some (Binary64.ofRatio (value < 0) value.natAbs 1)
  | .float value => some value
  | _ => none

/-- A value that is something else than null. -/
def present? : Json → Option Json
  | .null => none
  | value => some value

/-- The values of the fields of an object or an array. -/
def fields? (names : List String) : Json → Option (List (Option Json))
  | .object members =>
    arrangeFields (fun name => some (fieldPosition names name)) names.length members
  | .array items => positionalFields names.length items
  | _ => none

/-- The name that a value gives: a text, or the only member of an object, which has to be null. -/
def choice? : Json → Option String
  | .text name => some name
  | .object [(name, .null)] => some name
  | _ => none

instance : DocumentFormat Json where
  text? value := liftM value.text?
  boolean? value := liftM value.boolean?
  natural? value := liftM value.natural?
  number? value := liftM value.number?
  present? value := return value.present?
  items? value := liftM value.items?
  entries? value := liftM value.members?
  fields? names value := liftM (value.fields? names)
  choice? value := liftM value.choice?
  content? value := return value.content

/-- The document that a value describes. -/
def document? (value : Json) : Option Document := (DocumentFormat.document? value).run' 0

/-- The settings that a value describes. -/
def settings? (value : Json) : Option Settings := (DocumentFormat.settings? value).run' 0

end StagePlanner.Json
