import StagePlanner.Document.Content

/-!
# Decoding of documents

How a document is made out of the values of a written format. A format answers
what a value is when something particular is expected; all formats share the rest.
Unknown fields are ignored, absent fields take their defaults, and an explicit
null is only accepted for optional fields.
-/

namespace StagePlanner

/-- A step of decoding: it may fail, and it may follow a limited number of references. -/
abbrev Decoding (α : Type) := StateT Nat Option α

/-- The values of a written format; every question fails when the value is of another kind. -/
class DocumentFormat (υ : Type) where
  /-- A value where a text is expected. -/
  text? : υ → Decoding String
  /-- A value where a truth value is expected. -/
  boolean? : υ → Decoding Bool
  /-- A value where a natural number of 64 bits is expected. -/
  natural? : υ → Decoding Nat
  /-- A value where a number is expected. -/
  number? : υ → Decoding Float
  /-- An optional value, if it is there. -/
  present? : υ → Decoding (Option υ)
  /-- A value where a list is expected. -/
  items? : υ → Decoding (List υ)
  /-- A value where a map with texts as keys is expected. -/
  entries? : υ → Decoding (List (String × υ))
  /-- The values of the fields of a given list. -/
  fields? : List String → υ → Decoding (List (Option υ))
  /-- A value where one of some names is expected. -/
  choice? : υ → Decoding String
  /-- A value where several kinds are possible. -/
  content? : υ → Decoding Content

namespace DocumentFormat

variable {υ α : Type}

/-- A field that has to be there. -/
def required (decode : υ → Decoding α) : Option υ → Decoding α
  | none => failure
  | some value => decode value

/-- A field that has a default. -/
def defaulted (decode : υ → Decoding α) (default : α) : Option υ → Decoding α
  | none => return default
  | some value => decode value

/-- A field that may be absent or null. -/
def optional [DocumentFormat υ] (decode : υ → Decoding α) : Option υ → Decoding (Option α)
  | none => return none
  | some value => do
    match ← present? value with
    | none => return none
    | some value => return some (← decode value)

/-- A list of values of one kind. -/
def list? [DocumentFormat υ] (decode : υ → Decoding α) (value : υ) : Decoding (List α) := do
  (← items? value).mapM decode

/-- Puts an entry at the place of its key among ascending keys, in place of an earlier one. -/
def putEntry (entry : String × α) : List (String × α) → List (String × α)
  | [] => [entry]
  | head :: tail =>
    match compare entry.1 head.1 with
    | .lt => entry :: head :: tail
    | .eq => entry :: tail
    | .gt => head :: putEntry entry tail

/-- A map with values of one kind, by ascending keys; of equal keys the last one counts. -/
def map? [DocumentFormat υ] (decode : υ → Decoding α)
    (value : υ) : Decoding (List (String × α)) := do
  let entries ← (← entries? value).mapM fun (key, value) => do return (key, ← decode value)
  return entries.foldl (fun map entry => putEntry entry map) []

variable [DocumentFormat υ]

/-- A value whose kind decides what is meant. -/
def meaning? (interpret : Content → Option α) (value : υ) : Decoding α := do
  return ← interpret (← content? value)

/-- The settings that a value describes. -/
def settings? (value : υ) : Decoding Settings := do
  match ← fields? ["options", "broadcast_limit", "partition_limits", "partition_sizes"] value with
  | [options, broadcastLimit, partitionLimits, partitionSizes] =>
    return {
      options := ← defaulted (map? boolean?) [] options
      broadcastLimit := ← optional number? broadcastLimit
      partitionLimits := ← defaulted (map? number?) [] partitionLimits
      partitionSizes := ← defaulted (map? text?) [] partitionSizes }
  | _ => failure

/-- The type that a value describes. -/
def type? (value : υ) : Decoding TypeDefinition := meaning? Content.type? value

/-- The input unit that a value names. -/
def unit? (value : υ) : Decoding InputUnit := do
  return ← InputUnit.ofSymbol? (← choice? value)

/-- The port that a value describes. -/
def port? (value : υ) : Decoding PortDefinition := do
  match ← fields? ["name", "type", "group", "order", "unit"] value with
  | [name, type, group, order, unit] =>
    return {
      name := ← required text? name
      type := ← required type? type
      group := ← defaulted (list? text?) [] group
      order := ← defaulted (list? text?) [] order
      unit := ← optional unit? unit }
  | _ => failure

/-- The operator that a value describes. -/
def operator? (value : υ) : Decoding OperatorDefinition := do
  match ← fields? ["id", "op", "name", "type", "inputs", "outputs", "arguments", "partial", "path",
    "size", "iterative"] value with
  | [id, kind, name, type, inputs, outputs, arguments, partialAggregation, path, size, iteration] =>
    return {
      id := ← required text? id
      kind := ← required text? kind
      name := ← optional text? name
      type := ← optional type? type
      inputs := ← defaulted (list? port?) [] inputs
      outputs := ← defaulted (list? port?) [] outputs
      arguments := ← defaulted (map? (meaning? Content.argument?)) [] arguments
      partialAggregation := ← defaulted boolean? false partialAggregation
      path := ← optional text? path
      size := ← optional natural? size
      iteration := ← optional (meaning? Content.iteration?) iteration }
  | _ => failure

/-- The edge that a value describes. -/
def edge? (value : υ) : Decoding EdgeDefinition := do
  match ← fields? ["from", "to"] value with
  | [source, target] =>
    return { source := ← required text? source, target := ← required text? target }
  | _ => failure

/-- The document that a value describes. -/
def document? (value : υ) : Decoding Document := do
  match ← fields? ["config", "operators", "edges"] value with
  | [settings, operators, edges] =>
    return {
      settings := ← defaulted settings? {} settings
      operators := ← defaulted (list? operator?) [] operators
      edges := ← defaulted (list? edge?) [] edges }
  | _ => failure

end DocumentFormat

end StagePlanner
