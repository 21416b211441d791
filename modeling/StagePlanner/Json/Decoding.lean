import StagePlanner.Document.JsonFormat
import StagePlanner.Operator.Blueprint

/-!
# Operators from JSON

Types, groupings, conditions of iteration and blueprints of operators out of JSON
values. A record is an object, whose unknown members are ignored, or the array of its
parts; a part without default has to be there. A value of another form gives nothing.
-/

namespace StagePlanner

namespace Json

variable {α : Type}

/-- The text of a member. -/
def textAt? (value : Json) (name : String) : Option String := (value.member? name).bind text?

/-- The name that a member gives. -/
def choiceAt? (value : Json) (name : String) : Option String := (value.member? name).bind choice?

/-- The truth value of a member, false if it is absent. -/
def flagAt (value : Json) (name : String) : Bool := ((value.member? name).bind boolean?).getD false

/-- A value that may be absent or null. -/
def optionalOf? (decode : Json → Option α) : Option Json → Option (Option α)
  | none | some .null => some none
  | some found => (decode found).map some

/-- A member that may be absent or null. -/
def optionalAt? (decode : Json → Option α) (value : Json) (name : String) : Option (Option α) :=
  optionalOf? decode (value.member? name)

/-- A list of decoded items. -/
def listOf? (decode : Json → Option α) (value : Json) : Option (List α) := do
  (← value.items?).mapM decode

/-- A list that may be absent, which stands for the empty list; null does not. -/
def presentList? (decode : Json → Option α) : Option Json → Option (List α)
  | none => some []
  | some found => listOf? decode found

/-- A list that may be absent or null, which both stand for the empty list. -/
def listAt? (decode : Json → Option α) (value : Json) (name : String) : Option (List α) := do
  return (← optionalAt? (listOf? decode) value name).getD []

/-- An identifier from its number. -/
def id? {kind : IdKind} (value : Json) : Option (Id kind) := value.natural?.map fun index => ⟨index⟩

/-- A field type by its name. -/
def fieldType? (value : Json) : Option FieldType := value.choice?.bind FieldType.ofSymbol?

/-- A field of a record type. -/
def field? (value : Json) : Option Field := do
  match ← value.fields? ["name", "field_type", "nullable"] with
  | [some name, some type, some nullable] =>
    return { name := ← name.text?, type := ← type.fieldType?, nullable := ← nullable.boolean? }
  | _ => none

/-- A record type. -/
def dataType? (value : Json) : Option DataType := do
  match ← value.fields? ["name", "fields"] with
  | [some name, fields] => return { name := ← name.text?, fields := ← presentList? field? fields }
  | _ => none

/-- The type of a port: a record type, or a name alone. -/
def portType? : Json → Option DataType
  | .text name => some (.named name)
  | value => value.dataType?

/-- A key of an order. -/
def sortKey? (value : Json) : Option SortKey := do
  match ← value.fields? ["field", "ascending"] with
  | [some field, some ascending] =>
    return { field := ← field.text?, ascending := ← ascending.boolean? }
  | _ => none

/-- A grouping. -/
def group? (value : Json) : Option Group := do
  match ← value.fields? ["keys", "ordering"] with
  | [some keys, ordering] =>
    return { keys := ← listOf? text? keys, ordering := ← presentList? sortKey? ordering }
  | _ => none

/-- A condition of iteration: a name, or the parameters as the only member of an object. -/
def iteration? : Json → Option Iteration
  | .object [("parameters", names)] => (listOf? text? names).map .onChangeOf
  | value =>
    match value.choice? with
    | some "never" => some .never
    | some "always" => some .always
    | _ => none

/-- An input unit. -/
def unit? (value : Json) : Option InputUnit := value.choice?.bind InputUnit.ofSymbol?

/-- The parts of a record; an array has to give all of them. -/
def parts? (names : List String) : Json → Option (List (Option Json))
  | .array items => if items.length = names.length then some (items.map some) else none
  | value => value.fields? names

/-- The identity of crossing data. -/
def crossing? (value : Json) : Option Crossing := do
  match ← value.parts? ["data_type", "group", "aggregation"] with
  | [some dataType, group, aggregation] =>
    return {
      dataType := ← dataType.dataType?
      group := ← optionalOf? group? group
      aggregation := ← optionalOf? id? aggregation }
  | _ => none

/-- A port of a blueprint. -/
def portShape? (value : Json) : Option PortShape := do
  return {
    name := ← value.textAt? "name"
    dataType := ← (← value.member? "type").portType?
    group := ← optionalAt? group? value "group"
    unit := ← optionalAt? unit? value "unit" }

/-- An argument as a pair of name and value. -/
def argument? (value : Json) : Option (String × ArgumentValue) := do
  match ← value.items? with
  | [name, argument] => return (← name.text?, ← argument.content.argument?)
  | _ => none

/-- The blueprint of a kind of operator with its default ports. -/
def plainBlueprint? (value : Json) : Option Blueprint := do
  let name := value.textAt? "name"
  let kind := value.choiceAt? "kind"
  let dataType := (value.member? "type").bind portType?
  match ← value.textAt? "ctor" with
  | "user" => return .user (← name) (← UserKind.ofSymbol? (← kind))
  | "core" => return .core (← CoreKind.ofSymbol? (← kind)) (← dataType)
  | "input" => return .externalInput (← name) (← dataType)
  | "output" => return .externalOutput (← name) (← dataType)
  | "marker" => return .marker (← Marker.ofSymbol? (← kind)) (← dataType)
  | _ => none

/-- Applies a change that needs a value, if there is one. -/
def changeBy (change : Blueprint → α → Blueprint) (blueprint : Blueprint)
    (value : Option α) : Blueprint :=
  match value with
  | some value => change blueprint value
  | none => blueprint

/-- The blueprint of an operator: its kind and whatever is added to the default. -/
def blueprint? (value : Json) : Option Blueprint := do
  let plain ← plainBlueprint? value
  let withInputs := (← listAt? portShape? value "inputs").foldl Blueprint.withInput plain
  let withPorts := (← listAt? portShape? value "outputs").foldl Blueprint.withOutput withInputs
  let withArguments := (← listAt? argument? value "arguments").foldl (fun blueprint (name, value) =>
    blueprint.withArgument name value) withPorts
  let placed := changeBy Blueprint.withPath withArguments (← optionalAt? text? value "path")
  let sized := changeBy Blueprint.withDeclaredSize placed (← optionalAt? natural? value "size")
  let reduced :=
    changeBy Blueprint.withPartialAggregation sized (← optionalAt? boolean? value "partial")
  let numbered := changeBy Blueprint.withSerial reduced (← optionalAt? id? value "serial")
  let iterated :=
    changeBy Blueprint.withIteration numbered (← optionalAt? iteration? value "iterative")
  return changeBy Blueprint.withCrossing iterated (← optionalAt? crossing? value "edge")

end Json

end StagePlanner
