import StagePlanner.Annotation
import StagePlanner.Classification
import StagePlanner.Json
import StagePlanner.Plan.Equivalence
import StagePlanner.Plan.Grouping
import StagePlanner.Preparation

/-!
# JSON forms for inspection

Everything that can be asked of graphs and plans, written as JSON. Identifiers are
written as their numbers; how volumes are written is up to the caller.
-/

namespace StagePlanner

/-- An identifier as its number. -/
def Id.json {kind : IdKind} (id : Id kind) : Json := .natural id.index

namespace Json

/-- Identifiers as their numbers. -/
def ids {kind : IdKind} (ids : List (Id kind)) : Json := .list Id.json ids

/-- Two values. -/
def pair (left right : Json) : Json := .array [left, right]

/-- A member that is left out when there is no value. -/
def memberOf {α : Type} (name : String) (encode : α → Json)
    (value : Option α) : List (String × Json) :=
  (value.map fun value => (name, encode value)).toList

end Json

/-- A field of a record type. -/
def Field.json (field : Field) : Json :=
  .object [("name", .text field.name), ("field_type", .text field.type.symbol),
    ("nullable", .boolean field.nullable)]

/-- A record type with its fields. -/
def DataType.json (type : DataType) : Json :=
  .object [("name", .text type.name), ("fields", .list Field.json type.fields)]

/-- A key of an order. -/
def SortKey.json (key : SortKey) : Json :=
  .object [("field", .text key.field), ("ascending", .boolean key.ascending)]

/-- A grouping. -/
def Group.json (group : Group) : Json :=
  .object [("keys", .texts group.keys), ("ordering", .list SortKey.json group.ordering)]

/-- A condition of iteration. -/
def Iteration.json : Iteration → Json
  | .never => .text "never"
  | .always => .text "always"
  | .parameters names => .object [("parameters", .texts names.toList)]

/-- The identity of crossing data. -/
def Crossing.json (crossing : Crossing) : Json :=
  .object [("data_type", crossing.dataType.json), ("group", .optional Group.json crossing.group),
    ("aggregation", .optional Id.json crossing.aggregation)]

/-- The shape of a dependency graph. -/
def GraphStatistics.json (figures : GraphStatistics) : Json :=
  .object [("vertices", .natural figures.vertices), ("edges", .natural figures.edges),
    ("sources", .natural figures.sources), ("sinks", .natural figures.sinks),
    ("max_fan_in", .natural figures.maxFanIn), ("max_fan_out", .natural figures.maxFanOut),
    ("critical_path", .natural figures.criticalPath)]

/-- The shape of a plan. -/
def PlanStatistics.json (figures : PlanStatistics) : Json :=
  .object [("stages", .natural figures.stages), ("operators", .natural figures.operators),
    ("inputs", .natural figures.inputs), ("outputs", .natural figures.outputs),
    ("connections", .natural figures.connections),
    ("max_stage_operators", .natural figures.maxStageOperators)]

/-- The value of an argument. -/
def ArgumentValue.json : ArgumentValue → Json
  | .boolean value => .boolean value
  | .integer value => .integer value
  | .text value => .text value

/-- An argument with its name. -/
def Argument.json (argument : Argument) : Json :=
  .object [("name", .text argument.name), ("value", argument.value.json)]

/-- A port with what it declares. -/
def Port.json (port : Port) : Json :=
  .object ([("id", port.id.json), ("name", .text port.name), ("type", port.dataType.json)] ++
    Json.memberOf "group" Group.json port.group ++
    Json.memberOf "unit" (fun unit : InputUnit => .text unit.symbol) port.unit)

/-- What an operator does, under the name of its kind. -/
def OperatorKind.jsonMember : OperatorKind → String × Json
  | .user definition =>
    ("user", .object [("name", .text definition.name), ("kind", .text definition.kind.symbol),
      ("partial_aggregation", .boolean definition.partialAggregation)])
  | .core kind => ("core", .text kind.symbol)
  | .input dataset =>
    ("input", .object [("name", .text dataset.name), ("path", .optional .text dataset.path),
      ("estimated_size", .optional .natural dataset.declaredSize)])
  | .output dataset =>
    ("output", .object [("name", .text dataset.name), ("path", .optional .text dataset.path)])
  | .marker boundary => ("marker", .text boundary.symbol)

/-- An operator with all that belongs to it. -/
def Operator.json (operator : Operator) : Json :=
  let arguments := if operator.arguments.isEmpty then none else some operator.arguments
  .object ([("id", operator.id.json), ("serial", operator.serial.json),
      ("label", .text operator.label), ("in", .list Port.json operator.inputs),
      ("out", .list Port.json operator.outputs), operator.kind.jsonMember] ++
    Json.memberOf "arguments" (Json.list Argument.json) arguments ++
    Json.memberOf "iter" Iteration.json operator.traits.iteration ++
    Json.memberOf "edge" Crossing.json operator.traits.crossing)

/-- Edges in ascending order. -/
def Json.edges (edges : OrderedSet Edge) : Json :=
  .list (fun edge => .pair edge.source.json edge.target.json) edges.toList

/-- The operators of a graph by label, and its edges. -/
def Graph.json (graph : Graph) : Json :=
  .object [("ops", .list (fun operator : Operator => .pair operator.id.json (.text operator.label))
    graph.operators), ("edges", .edges graph.edges)]

/-- How a bounded loop ended. -/
def LoopOutcome.json (outcome : LoopOutcome) : Json :=
  .object [("steps", .natural outcome.steps), ("converged", .boolean outcome.converged)]

/-- What preparation did. -/
def PreparationReport.json (report : PreparationReport) : Json :=
  .object [("optimization", report.optimization.json), ("rebuilt", .natural report.rebuilt),
    ("broadcast_cycles", .optional LoopOutcome.json report.broadcasts)]

/-- The name of a use of primary inputs. -/
def PrimaryUse.title : PrimaryUse → String
  | .record => "Record"
  | .group => "Group"
  | .nothing => "Nothing"

/-- How an operator consumes its inputs. -/
def OperatorClass.json (entry : OperatorClass) : Json :=
  .object [("operator", entry.operator.json), ("type", .text entry.primaryUse.title),
    ("primary", .ids entry.primary), ("secondary", .ids entry.secondary),
    ("partial", .ids (if entry.partialReduction then entry.primary else []))]

/-- The configuration, with volumes written as the caller likes. -/
def Config.json {ν : Type} (encode : ν → Json) (config : Config ν) : Json :=
  .object [("options", .texts (config.options.enabled.map PlanningOption.symbol)),
    ("broadcast_limit", .optional encode config.broadcastLimit),
    ("limits", .list encode
      [config.limits.tiny, config.limits.small, config.limits.regular, config.limits.large]),
    ("explicit", .object (config.explicitSizes.map fun (label, size) => (label, .text size.symbol)))]

/-- Circuits as lists of identifiers. -/
def Json.circuits {kind : IdKind} (circuits : List (OrderedSet (Id kind))) : Json :=
  .list (fun circuit => .ids circuit.toList) circuits

/-- A group of stages. -/
def StageGroup.json (group : StageGroup) : Json :=
  .object [("sources", .ids group.sources.toList), ("elements", .ids group.elements)]

/-- The key of a marker. -/
def EquivalenceKey.json : EquivalenceKey → Json
  | .serial number => .object [("serial", number.json)]
  | .dataType type => .object [("type", type.json)]
  | .crossing marker content => .object [("edge", .pair (.text marker.symbol) content.json)]
  | .missing id => .object [("missing", id.json)]

/-- The address of a stage port. -/
def PortAddress.json (address : PortAddress) : Json := .pair address.stage.json address.port.json

/-- The connections of a plan in ascending order. -/
def Plan.connectionsJson (plan : Plan) : Json :=
  .list (fun connection : Connection => .array [connection.source.stage.json,
    connection.source.port.json, connection.target.stage.json, connection.target.port.json])
    plan.connections.toList

/-- The role of a stage input. -/
def InputRole.json (role : InputRole) : Json :=
  .object [("input_type", .text role.distribution.symbol), ("data_type", role.dataType.json),
    ("partition", .optional Group.json role.partition)]

/-- The role of a stage output. -/
def OutputRole.json (role : OutputRole) : Json :=
  .object [("output_type", .text role.distribution.symbol), ("data_type", role.dataType.json),
    ("partition", .optional Group.json role.partition),
    ("aggregation", .optional Id.json role.aggregation)]

/-- The table of a broadcast. -/
def BroadcastTable.json (table : BroadcastTable) : Json :=
  .object [("label", .text table.label), ("data_type", table.dataType.json),
    ("format", .optional Group.json table.format)]

/-- The role of a stage. -/
def StageRole.json (role : StageRole) : Json :=
  .object [("driver_type", .text role.driver.symbol),
    ("primary_operator", .optional Id.json role.primary),
    ("broadcast_join", .boolean role.joinsBroadcast), ("label", .text role.label)]

variable {ν : Type}

/-- The notes about a port that are attached. -/
def PortNotes.jsonMembers (encode : ν → Json) (notes : PortNotes ν) : List (String × Json) :=
  Json.memberOf "name" .text notes.name ++ Json.memberOf "core" InputRole.json notes.inputRole ++
    Json.memberOf "core" OutputRole.json notes.outputRole ++
    Json.memberOf "broadcast" BroadcastTable.json notes.broadcast ++
    Json.memberOf "size" (fun size => .array [.optional encode size]) notes.size ++
    Json.memberOf "partition" (fun size : SizeClass => .text size.symbol) notes.partitionSize ++
    Json.memberOf "iter" Iteration.json notes.iteration

/-- A port of a stage with its notes. -/
def Stage.portJson (encode : ν → Json) (notes : Notes ν) (stage : Stage)
    (port : StagePort) : Json :=
  .object ([("id", port.id.json), ("marker", port.marker.json),
      ("kind", .optional (fun marker : Marker => .text marker.symbol) (stage.marker? port)),
      ("origins", .ids port.origins.toList)] ++
    (notes.port port.id).jsonMembers encode)

/-- A stage with its notes and with the operators of which its operators are copies. -/
def Stage.json (encode : ν → Json) (notes : Notes ν) (stage : Stage) : Json :=
  let noted := notes.stage stage.id
  let operator (operator : Operator) : Json := .array [operator.id.json, .text operator.label,
    .optional Id.json (stage.source? operator.id)]
  .object ([("id", stage.id.json), ("ops", .list operator stage.graph.operators),
      ("edges", .edges stage.graph.edges), ("in", .list (stage.portJson encode notes) stage.inputs),
      ("out", .list (stage.portJson encode notes) stage.outputs)] ++
    Json.memberOf "name" .text noted.name ++ Json.memberOf "info" StageRole.json noted.role ++
    Json.memberOf "iter" Iteration.json noted.iteration ++
    Json.memberOf "graph_stats" GraphStatistics.json noted.statistics)

/-- A plan with all of its notes. -/
def AnnotatedPlan.json (encode : ν → Json) (annotated : AnnotatedPlan ν) : Json :=
  let noted := annotated.notes.plan
  .object ([("stages", .list (Stage.json encode annotated.notes) annotated.plan.stages),
      ("connections", annotated.plan.connectionsJson)] ++
    Json.memberOf "iter" Iteration.json noted.iteration ++
    Json.memberOf "parameters" (fun names : OrderedSet String => .texts names.toList) noted.parameters ++
    Json.memberOf "graph_stats" GraphStatistics.json noted.graphStatistics ++
    Json.memberOf "plan_stats" PlanStatistics.json noted.planStatistics)

end StagePlanner
