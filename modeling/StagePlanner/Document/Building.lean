import StagePlanner.Document
import StagePlanner.Graph.Edit

/-!
# Building graphs from documents

Operators are added in the order of the document, then edges. An endpoint is the
name of an operator, which stands for its first port, or the name of an operator
followed by a point and the name of a port.
-/

namespace StagePlanner

/-- The field type that a document means; unknown names mean text. -/
def FieldType.ofDocument (name : String) : FieldType :=
  match name with
  | "bool" => .boolean
  | "i32" => .int32
  | "i64" => .int64
  | "f32" => .float32
  | "f64" => .float64
  | "bytes" => .binary
  | "date" => .date64
  | "decimal" => .decimal128
  | _ => (FieldType.ofSymbol? name).getD .utf8

/-- The field that a definition describes. -/
def FieldDefinition.field (definition : FieldDefinition) : Field where
  name := definition.name
  type := .ofDocument definition.type
  nullable := definition.nullable

/-- The type that a definition describes. -/
def TypeDefinition.dataType : TypeDefinition → DataType
  | .named name => .named name
  | .record name fields => { name, fields := fields.map FieldDefinition.field }

namespace PortDefinition

/-- The sort key that a text describes: a sign for the direction and the field. -/
def sortKey (text : String) : SortKey :=
  match Text.after? "-" text with
  | some field => { field, ascending := false }
  | none => { field := String.ofList (text.toList.dropWhile (· = '+')), ascending := true }

/-- The grouping that a port asks for, if there is a key or an order. -/
def grouping (definition : PortDefinition) : Option Group :=
  if definition.group.isEmpty && definition.order.isEmpty then none
  else some { keys := definition.group, ordering := definition.order.map sortKey }

/-- The input that a definition describes. -/
def input (definition : PortDefinition) : PortShape where
  name := definition.name
  dataType := definition.type.dataType
  group := definition.grouping
  unit := definition.unit

/-- The output that a definition describes. -/
def output (definition : PortDefinition) : PortShape where
  name := definition.name
  dataType := definition.type.dataType

end PortDefinition

/-- The condition of iteration that a definition describes. -/
def IterationDefinition.iteration? : IterationDefinition → Option Iteration
  | .flag true => some .always
  | .flag false => none
  | .parameters names => some (.onChangeOf names)

namespace OperatorDefinition

/-- The declared type, which some kinds need. -/
def requiredType (definition : OperatorDefinition) : Except GraphFault DataType :=
  match definition.type with
  | some type => .ok type.dataType
  | none => .error (.missingType definition.id definition.kind)

/-- The operator that a kind describes, without what all kinds have in common. -/
def kindBlueprint (definition : OperatorDefinition) : Except GraphFault Blueprint := do
  let name := definition.name.getD definition.id
  if definition.kind = "input" then
    let blueprint := Blueprint.externalInput name (← definition.requiredType)
    match definition.size with
    | some bytes => return blueprint.withDeclaredSize bytes
    | none => return blueprint
  else if definition.kind = "output" then
    return .externalOutput name (← definition.requiredType)
  else match CoreKind.ofSymbol? definition.kind, UserKind.ofSymbol? definition.kind with
    | some kind, _ => return .core kind (← definition.requiredType)
    | none, some kind =>
      let withInputs :=
        definition.inputs.foldl (fun blueprint port => blueprint.withInput port.input)
        (Blueprint.user name kind)
      let withPorts :=
        definition.outputs.foldl (fun blueprint port => blueprint.withOutput port.output)
        withInputs
      return withPorts.withPartialAggregation definition.partialAggregation
    | none, none => throw (.unknownKind definition.id definition.kind)

/-- The operator that a definition describes. -/
def blueprint (definition : OperatorDefinition) : Except GraphFault Blueprint := do
  let blueprint ← definition.kindBlueprint
  let placed := match definition.path with
    | some path => blueprint.withPath path
    | none => blueprint
  let withArguments := definition.arguments.foldl (fun blueprint (name, value) =>
    blueprint.withArgument name value) placed
  match definition.iteration.bind IterationDefinition.iteration? with
  | some iteration => return withArguments.withIteration iteration
  | none => return withArguments

end OperatorDefinition

/-- A graph with the names that a document gives to its operators. -/
structure NamedGraph where
  graph : Graph := {}
  names : List (String × OperatorId) := []
  deriving DecidableEq, Repr

namespace NamedGraph

/-- The operator with a given name. -/
def operator? (named : NamedGraph) (name : String) : Option OperatorId := named.names.lookup name

/-- Adds the operator that a definition describes. -/
def addOperator (named : NamedGraph) (definition : OperatorDefinition) : Except Fault NamedGraph :=
  if (named.operator? definition.id).isSome then .error (.graph (.duplicateOperator definition.id))
  else match definition.blueprint with
    | .error cause => .error (.graph cause)
    | .ok blueprint =>
      let (id, graph) := named.graph.add blueprint
      .ok { graph, names := named.names ++ [(definition.id, id)] }

/-- Splits a text at its last point. -/
def splitLastPoint (text : String) : Option (String × String) :=
  let reversed := text.toList.reverse
  match reversed.dropWhile (· ≠ '.') with
  | [] => none
  | _ :: before =>
    some (String.ofList before.reverse, String.ofList (reversed.takeWhile (· ≠ '.')).reverse)

/-- The operator and the port name that an endpoint means: the part behind the last point is a port
only if the part before it is an operator. -/
def endpoint (named : NamedGraph)
    (text : String) : Except GraphFault (OperatorId × Option String) :=
  let whole : Except GraphFault (OperatorId × Option String) :=
    match named.operator? text with
    | some id => .ok (id, none)
    | none => .error (.unknownEndpoint text)
  match splitLastPoint text with
  | none => whole
  | some (name, port) =>
    match named.operator? name with
    | some id => .ok (id, some port)
    | none => whole

/-- The output that an endpoint means. -/
def outputAt (named : NamedGraph) (text : String) : Except GraphFault PortId := do
  match ← named.endpoint text with
  | (id, some port) => named.graph.outputNamed id port
  | (id, none) => named.graph.outputAt id 0

/-- The input that an endpoint means. -/
def inputAt (named : NamedGraph) (text : String) : Except GraphFault PortId := do
  match ← named.endpoint text with
  | (id, some port) => named.graph.inputNamed id port
  | (id, none) => named.graph.inputAt id 0

/-- Adds the edge that a definition describes. -/
def addEdge (named : NamedGraph) (definition : EdgeDefinition) : Except Fault NamedGraph := do
  let edit : Edit Unit := do
    let source ← Edit.look fun _ => named.outputAt definition.source
    let target ← Edit.look fun _ => named.inputAt definition.target
    Edit.connect source target
  match edit.apply named.graph with
  | (.ok (), graph) => return { named with graph }
  | (.error fault, _) => throw fault

end NamedGraph

/-- The graph that a document describes. -/
def Document.build (document : Document) : Except Fault NamedGraph := do
  let withOperators ← document.operators.foldlM NamedGraph.addOperator {}
  document.edges.foldlM NamedGraph.addEdge withOperators

end StagePlanner
