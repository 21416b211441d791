import StagePlanner.Dependency.Circuit
import StagePlanner.Stage

/-!
# Roles of stages and ports

What drives a stage, which operator is typical of it, and how the data of each of
its ports are distributed. All of this is read off the markers of the stage and
the prepared graph of which it is a copy.
-/

namespace StagePlanner

/-- What drives the execution of a stage. -/
inductive Driver where
  /-- Reads external inputs. -/
  | input
  /-- Only writes external outputs. -/
  | output
  /-- Processes its inputs record by record. -/
  | extract
  /-- Groups shuffled inputs. -/
  | coGroup
  /-- Groups inputs that are partially aggregated. -/
  | aggregate
  deriving DecidableEq, Repr

/-- The word with which labels of stages begin. -/
def Driver.word : Driver → String
  | .input => "input"
  | .output => "output"
  | .extract => "extract"
  | .coGroup => "cogroup"
  | .aggregate => "aggregate"

/-- The written name of a driver. -/
def Driver.symbol : Driver → String
  | .input => "input"
  | .output => "output"
  | .extract => "extract"
  | .coGroup => "co_group"
  | .aggregate => "aggregate"

/-- The role of a stage. -/
structure StageRole where
  driver : Driver
  /-- The serial number of the operator that is typical of the stage. -/
  primary : Option SerialNumber
  /-- Whether a broadcast is read. -/
  joinsBroadcast : Bool
  label : String
  deriving DecidableEq, Repr

/-- How the data of a stage input are distributed. -/
inductive InputDistribution where
  /-- Nothing is read. -/
  | void
  | dontCare
  /-- Shuffled by key. -/
  | partitioned
  /-- Delivered to every task. -/
  | broadcast
  deriving DecidableEq, Repr

/-- Every distribution of an input. -/
def InputDistribution.all : List InputDistribution := [.void, .dontCare, .partitioned, .broadcast]

/-- The written name of a distribution. -/
def InputDistribution.symbol : InputDistribution → String
  | .void => "void"
  | .dontCare => "dont_care"
  | .partitioned => "partitioned"
  | .broadcast => "broadcast"

/-- How the data of a stage output are distributed. -/
inductive OutputDistribution where
  /-- Nobody reads the data. -/
  | discard
  | dontCare
  | partitioned
  /-- Partially aggregated and then shuffled. -/
  | aggregated
  | broadcast
  deriving DecidableEq, Repr

/-- Every distribution of an output. -/
def OutputDistribution.all : List OutputDistribution :=
  [.discard, .dontCare, .partitioned, .aggregated, .broadcast]

/-- The written name of a distribution. -/
def OutputDistribution.symbol : OutputDistribution → String
  | .discard => "discard"
  | .dontCare => "dont_care"
  | .partitioned => "partitioned"
  | .aggregated => "aggregated"
  | .broadcast => "broadcast"

/-- The role of a stage input. -/
structure InputRole where
  distribution : InputDistribution
  dataType : DataType
  partition : Option Group
  deriving DecidableEq, Repr

/-- The role of a stage output. -/
structure OutputRole where
  distribution : OutputDistribution
  dataType : DataType
  partition : Option Group
  aggregation : Option SerialNumber
  deriving DecidableEq, Repr

/-- The table that a broadcast delivers. -/
structure BroadcastTable where
  label : String
  dataType : DataType
  /-- The key by which the table is looked up. -/
  format : Option Group
  deriving DecidableEq, Repr

namespace Stage

/-- The kind of marker that a port is, or the fault that it is none. -/
def requireMarker (stage : Stage) (port : StagePort) : Except Fault Marker :=
  match stage.marker? port with
  | some marker => .ok marker
  | none => .error (.invariant (.portNotMarker stage.id port.id))

/-- The data that cross a port. -/
def crossing? (stage : Stage) (port : StagePort) : Option Crossing :=
  (stage.operator? port).bind fun operator => operator.traits.crossing

/-- The type of the data that cross a port. -/
def dataType (stage : Stage) (port : StagePort) : DataType :=
  match (stage.operator? port).bind fun operator => operator.outputs.head? with
  | some output => output.dataType
  | none => .named "unknown"

/-- The operators of the prepared graph that have a copy in the stage. -/
def sourceOperators (stage : Stage) (prepared : Graph) : List Operator :=
  stage.sources.toList.filterMap prepared.operator?

/-- The oldest operator of the stage that reads a port. -/
def consumer? (stage : Stage) (prepared : Graph) (port : StagePort) : Option Operator :=
  let members := (stage.sourceOperators prepared).map Operator.id
  let consumers := port.origins.toList.flatMap fun origin => (prepared.successors origin).toList
  DependencyGraph.least? (fun left right => left.serial.index < right.serial.index)
    ((consumers.filter fun consumer => consumer ∈ members).filterMap prepared.operator?)

/-- The driver and the typical operator of a shuffle that the stage reads and a member consumes. -/
def gathered? (stage : Stage) (prepared : Graph) (port : StagePort) : Option (Driver × Operator) :=
  if stage.marker? port ≠ some .gather then none
  else (stage.consumer? prepared port).map fun consumer =>
    let aggregated := (stage.crossing? port).any fun crossing => crossing.aggregation.isSome
    (if aggregated then .aggregate else .coGroup, consumer)

/-- The driver and the typical operator of a stage without shuffles, from its operators that are no
markers. -/
def plainDriver (operators : List Operator) : Driver × Option Operator :=
  match operators.find? fun operator => operator.kind.isInput with
  | some input => (.input, some input)
  | none =>
    if !operators.isEmpty && operators.all fun operator => operator.kind.isOutput then
      (.output, operators.head?)
    else
      match operators.find? fun operator => operator.kind.user?.isSome with
      | some user => (.extract, some user)
      | none => (.extract, operators.head?)

/-- The driver and the typical operator of a stage. -/
def driver (stage : Stage) (prepared : Graph) : Driver × Option Operator :=
  match stage.inputs.findSome? (stage.gathered? prepared) with
  | some (driver, operator) => (driver, some operator)
  | none => plainDriver ((stage.sourceOperators prepared).filter fun operator => !operator.isMarker)

/-- The label of a stage with a given driver and typical operator. -/
def roleLabel (driver : Driver) (primary : Option Operator) : String :=
  match primary.map Operator.kind with
  | some (.user definition) => driver.word ++ ":" ++ definition.name
  | some (.input dataset) => driver.word ++ ":" ++ dataset.name
  | some (.output dataset) => driver.word ++ ":" ++ dataset.name
  | _ => driver.word

/-- The role of a stage. -/
def role (stage : Stage) (prepared : Graph) : Except Fault StageRole := do
  let markers ← stage.inputs.mapM stage.requireMarker
  let (driver, primary) := stage.driver prepared
  return {
    driver
    primary := primary.map Operator.serial
    joinsBroadcast := .broadcast ∈ markers
    label := roleLabel driver primary }

/-- The distribution of an input that is a given marker. -/
def inputDistribution (stage : Stage) : Marker → Except Fault InputDistribution
  | .begin => .ok .void
  | .checkpoint => .ok .dontCare
  | .gather => .ok .partitioned
  | .broadcast => .ok .broadcast
  | .finish => .error (.invariant (.readsEnd stage.id))

/-- The distribution of an output that is a given marker. -/
def outputDistribution (stage : Stage) (aggregated : Bool) :
    Marker → Except Fault OutputDistribution
  | .finish => .ok .discard
  | .checkpoint => .ok .dontCare
  | .gather => .ok (if aggregated then .aggregated else .partitioned)
  | .broadcast => .ok .broadcast
  | .begin => .error (.invariant (.writesBegin stage.id))

/-- The role of an input. -/
def inputRole (stage : Stage) (port : StagePort) : Except Fault InputRole := do
  let distribution ← stage.inputDistribution (← stage.requireMarker port)
  return {
    distribution
    dataType := stage.dataType port
    partition := (stage.crossing? port).bind Crossing.group }

/-- The role of an output. -/
def outputRole (stage : Stage) (port : StagePort) : Except Fault OutputRole := do
  let aggregation := (stage.crossing? port).bind Crossing.aggregation
  let distribution ← stage.outputDistribution aggregation.isSome (← stage.requireMarker port)
  return {
    distribution
    dataType := stage.dataType port
    partition := (stage.crossing? port).bind Crossing.group
    aggregation }

/-- The table that a port delivers or reads, if it is a broadcast. -/
def broadcastTable? (stage : Stage) (port : StagePort) : Option BroadcastTable :=
  match stage.operator? port with
  | none => none
  | some operator =>
    if operator.isMarkerOf .broadcast then
      some {
        label := "broadcast#" ++ toString operator.serial.index
        dataType := stage.dataType port
        format := operator.traits.crossing.bind Crossing.group }
    else none

end Stage

end StagePlanner
