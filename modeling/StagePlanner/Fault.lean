import StagePlanner.Identifier

/-!
# Faults

Every cause for which an operation of the planner fails, by area, and the text
in which each cause is reported.
-/

namespace StagePlanner

/-- Why a configuration is refused. -/
inductive ConfigFault where
  | unknownOption (key : String)
  | notBoolean (key value : String)
  | notByteCount (key value : String)
  | unknownSizeClass (text : String)
  | unlimitedSizeClass
  deriving DecidableEq, Repr

/-- Why an operation on an operator graph is refused. -/
inductive GraphFault where
  | unknownOperator (id : OperatorId)
  | unknownPort (id : PortId)
  | noInputAt (id : OperatorId) (index : Nat)
  | noOutputAt (id : OperatorId) (index : Nat)
  | noInputNamed (label name : String)
  | noOutputNamed (label name : String)
  | wrongDirection (source target : PortId)
  | notPassThrough (kind : String)
  | notInput (id : PortId)
  | notOutput (id : PortId)
  | cannotBypass (label : String)
  | layoutChanged (label : String)
  | duplicateOperator (name : String)
  | missingType (name kind : String)
  | unknownKind (name kind : String)
  | unknownEndpoint (endpoint : String)
  | nothingToPerturb
  deriving DecidableEq, Repr

/-- Why an operation on a plan is refused. -/
inductive PlanFault where
  | unknownStage (id : StageId)
  | noStageInput (stage : StageId) (port : StagePortId)
  | noStageOutput (stage : StageId) (port : StagePortId)
  | noStagePort (stage : StageId) (port : StagePortId)
  | notMemberMarker (id : OperatorId)
  | unnamedStage (stage : StageId)
  | unnamedPort (stage : StageId) (port : StagePortId)
  deriving DecidableEq, Repr

/-- Why a graph or a plan is not of the shape that a pass relies on. -/
inductive InvariantFault where
  | bothEnds (label : String)
  | cyclicDependencies (circuits : List (List String))
  | cyclicPlan (circuits : List (List StageId))
  | orderLength
  | orderStage (id : StageId)
  | nothingToGroupBy (stage : StageId)
  | nothingToCheckpoint (label : String)
  | portNotMarker (stage : StageId) (port : StagePortId)
  | readsEnd (stage : StageId)
  | writesBegin (stage : StageId)
  deriving DecidableEq, Repr

/-- Why an operation of the planner fails. -/
inductive Fault where
  | config (cause : ConfigFault)
  | graph (cause : GraphFault)
  | plan (cause : PlanFault)
  | invariant (cause : InvariantFault)
  /-- Findings about a graph, one message each. -/
  | diagnostics (findings : List String)
  deriving DecidableEq, Repr

/-- The text of a cause in the configuration. -/
def ConfigFault.text : ConfigFault → String
  | .unknownOption key => "unknown planning option: " ++ key
  | .notBoolean key value => key ++ " must be true or false: " ++ value
  | .notByteCount key value => key ++ " must be a number of bytes: " ++ value
  | .unknownSizeClass text => "unknown data size: " ++ text
  | .unlimitedSizeClass => "huge partitions have no upper limit"

/-- The text of a cause in an operator graph. -/
def GraphFault.text : GraphFault → String
  | .unknownOperator id => "unknown operator " ++ id.text
  | .unknownPort id => "unknown port " ++ id.text
  | .noInputAt id index => id.text ++ " has no input #" ++ toString index
  | .noOutputAt id index => id.text ++ " has no output #" ++ toString index
  | .noInputNamed label name => label ++ " has no input named " ++ name
  | .noOutputNamed label name => label ++ " has no output named " ++ name
  | .wrongDirection source target =>
    "edge must run from an output to an input: " ++ source.text ++ " -> " ++ target.text
  | .notPassThrough kind =>
    kind ++ " must have exactly one input and one output to be inserted on an edge"
  | .notInput id => id.text ++ " is not an input port"
  | .notOutput id => id.text ++ " is not an output port"
  | .cannotBypass label => "cannot bypass " ++ label ++ ": not a pass-through operator"
  | .layoutChanged label => "rebuilding " ++ label ++ " must keep its port layout"
  | .duplicateOperator name => "duplicate operator id: " ++ name
  | .missingType name kind => "operator " ++ name ++ " (" ++ kind ++ ") needs a type"
  | .unknownKind name kind => "operator " ++ name ++ " has unknown kind: " ++ kind
  | .unknownEndpoint endpoint => "edge refers to unknown operator: " ++ endpoint
  | .nothingToPerturb => "no input"

/-- The text of a cause in a plan. -/
def PlanFault.text : PlanFault → String
  | .unknownStage id => "unknown sub-plan " ++ id.text
  | .noStageInput stage port => stage.text ++ " has no input " ++ port.text
  | .noStageOutput stage port => stage.text ++ " has no output " ++ port.text
  | .noStagePort stage port => stage.text ++ " has no port " ++ port.text
  | .notMemberMarker id => "stage boundary " ++ id.text ++ " must be a member marker"
  | .unnamedStage stage => stage.text ++ " has no name"
  | .unnamedPort stage port => stage.text ++ " port " ++ port.text ++ " has no name"

/-- Circuits as a list of sets of vertices. -/
def circuitsText (circuits : List (List String)) : String :=
  "[" ++ String.intercalate ", "
    (circuits.map fun circuit => "\x7b" ++ String.intercalate ", " circuit ++ "\x7d") ++ "]"

/-- The text of a broken invariant. -/
def InvariantFault.text : InvariantFault → String
  | .bothEnds label => label ++ " would be both input and output of one stage"
  | .cyclicDependencies circuits => "dependency graph is cyclic: " ++ circuitsText circuits
  | .cyclicPlan circuits =>
    "assembled plan is cyclic: " ++ circuitsText (circuits.map fun circuit => circuit.map Id.text)
  | .orderLength => "stage order is not a permutation"
  | .orderStage id => "stage order names unknown " ++ id.text
  | .nothingToGroupBy stage => stage.text ++ " has no non-broadcast input to group by"
  | .nothingToCheckpoint label => "cyclic broadcast " ++ label ++ " has no input to checkpoint"
  | .portNotMarker stage port => stage.text ++ " port " ++ port.text ++ " is not a marker"
  | .readsEnd stage => stage.text ++ " reads from an END marker"
  | .writesBegin stage => stage.text ++ " writes into a BEGIN marker"

/-- The full message of a fault. -/
def Fault.message : Fault → String
  | .config cause => "Invalid configuration: " ++ cause.text
  | .graph cause => "Graph error: " ++ cause.text
  | .plan cause => "Planning error: " ++ cause.text
  | .invariant cause => "Internal invariant failed: " ++ cause.text
  | .diagnostics findings =>
    "Diagnostics (" ++ toString findings.length ++ "): " ++
      String.intercalate "; " (findings.map fun finding => "[Error] " ++ finding)

end StagePlanner
