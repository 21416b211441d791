import StagePlanner.Operator

/-!
# Blueprints

Operators before they enter a graph. Each kind starts with its default ports:
external operators have an activation port beside their data port, core
operators and markers one input and one output of a single type.
-/

namespace StagePlanner

/-- An operator that has no identifiers yet. -/
structure Blueprint where
  kind : OperatorKind
  inputs : List PortShape := []
  outputs : List PortShape := []
  arguments : List Argument := []
  traits : Traits := {}
  /-- Kept as it is when present; otherwise the graph assigns a fresh one. -/
  serial : Option SerialNumber := none
  deriving DecidableEq, Repr

namespace Blueprint

/-- The type that activation ports carry. -/
def activationType : DataType := .named "activation"

/-- A user operator without ports. -/
def user (name : String) (kind : UserKind) : Blueprint := { kind := .user { name, kind } }

/-- A core operator that passes one type through. -/
def core (kind : CoreKind) (dataType : DataType) : Blueprint where
  kind := .core kind
  inputs := [{ name := "in", dataType }]
  outputs := [{ name := "out", dataType }]

/-- An operator that reads a dataset. -/
def externalInput (name : String) (dataType : DataType) : Blueprint where
  kind := .input { name }
  inputs := [{ name := "activation", dataType := activationType }]
  outputs := [{ name := "port", dataType }]

/-- An operator that writes a dataset. -/
def externalOutput (name : String) (dataType : DataType) : Blueprint where
  kind := .output { name }
  inputs := [{ name := "port", dataType }]
  outputs := [{ name := "activation", dataType := activationType }]

/-- A marker that passes one type through. -/
def marker (marker : Marker) (dataType : DataType) : Blueprint where
  kind := .marker marker
  inputs := [{ name := "in", dataType }]
  outputs := [{ name := "out", dataType }]

/-- Adds an input after the ones that are there. -/
def withInput (blueprint : Blueprint) (port : PortShape) : Blueprint :=
  { blueprint with inputs := blueprint.inputs ++ [port] }

/-- Adds an output after the ones that are there. -/
def withOutput (blueprint : Blueprint) (port : PortShape) : Blueprint :=
  { blueprint with outputs := blueprint.outputs ++ [port] }

/-- Adds an argument after the ones that are there. -/
def withArgument (blueprint : Blueprint) (name : String) (value : ArgumentValue) : Blueprint :=
  { blueprint with arguments := blueprint.arguments ++ [{ name, value }] }

/-- Attaches a condition of iteration. -/
def withIteration (blueprint : Blueprint) (iteration : Iteration) : Blueprint :=
  { blueprint with traits := { blueprint.traits with iteration := some iteration } }

/-- Attaches the identity of the data that cross the operator. -/
def withCrossing (blueprint : Blueprint) (crossing : Crossing) : Blueprint :=
  { blueprint with traits := { blueprint.traits with crossing := some crossing } }

/-- Fixes the serial number. -/
def withSerial (blueprint : Blueprint) (serial : SerialNumber) : Blueprint :=
  { blueprint with serial := some serial }

/-- Sets partial aggregation of a user operator; other kinds have none. -/
def withPartialAggregation (blueprint : Blueprint) (enabled : Bool) : Blueprint :=
  match blueprint.kind with
  | .user operator =>
    { blueprint with kind := .user { operator with partialAggregation := enabled } }
  | _ => blueprint

/-- Sets where the dataset of an external operator lies; other kinds have none. -/
def withPath (blueprint : Blueprint) (path : String) : Blueprint :=
  match blueprint.kind with
  | .input input => { blueprint with kind := .input { input with path := some path } }
  | .output output => { blueprint with kind := .output { output with path := some path } }
  | _ => blueprint

/-- Declares the size of a dataset that is read; other kinds have none. -/
def withDeclaredSize (blueprint : Blueprint) (bytes : Nat) : Blueprint :=
  match blueprint.kind with
  | .input input => { blueprint with kind := .input { input with declaredSize := some bytes } }
  | _ => blueprint

/-- Whether the operator has exactly one input and one output. -/
def isPassThrough (blueprint : Blueprint) : Bool :=
  blueprint.inputs.length = 1 && blueprint.outputs.length = 1

end Blueprint

/-- The blueprint of an operator, with its serial number. -/
def Operator.blueprint (operator : Operator) : Blueprint where
  kind := operator.kind
  inputs := operator.inputs.map (·.toPortShape)
  outputs := operator.outputs.map (·.toPortShape)
  arguments := operator.arguments
  traits := operator.traits
  serial := some operator.serial

end StagePlanner
