import StagePlanner.Graph.Flow
import StagePlanner.Volume

/-!
# Size estimates

How much data is expected at every output. Sizes start at external inputs and
flow along the dependencies; an unknown size makes everything computed from it
unknown.
-/

namespace StagePlanner

/-- How sizes are estimated. -/
inductive Estimator where
  /-- Nothing is known. -/
  | unknown
  /-- Sizes flow from external inputs; hints give the bytes of inputs that declare none. -/
  | flowing (hints : List (String × Nat))
  deriving DecidableEq, Repr

/-- The estimated volume at outputs; an output without entry is unknown. -/
structure Estimates (ν : Type) where
  outputs : List (PortId × ν) := []

namespace Estimates

variable {ν : Type}

/-- The estimate at an output. -/
def output? (estimates : Estimates ν) (port : PortId) : Option ν := estimates.outputs.lookup port

/-- Records the estimate at an output, in place of an earlier one. -/
def setOutput (estimates : Estimates ν) (port : PortId) (volume : ν) : Estimates ν where
  outputs := (estimates.outputs.filter fun entry => entry.1 ≠ port) ++ [(port, volume)]

/-- The sum over all that feeds an input; unknown if nothing does. -/
def input? [Volume ν] (estimates : Estimates ν) (graph : Graph) (port : PortId) : Option ν :=
  match graph.producers port with
  | [] => none
  | producers => Volume.sum? (producers.map estimates.output?)

/-- The sum over all inputs of an operator. -/
def total? [Volume ν] (estimates : Estimates ν) (graph : Graph) (operator : Operator) : Option ν :=
  Volume.sum? (operator.inputs.map fun port => estimates.input? graph port.id)

end Estimates

/-- What an aggregation leaves of its input: one record without keys, else a share that grows with
the number of keys, but never less than one record as long as there is so much. -/
def aggregateVolume {ν : Type} [Volume ν] (input : ν) (keys : Nat) (recordWidth : ν) : ν :=
  let record := Volume.lesser recordWidth input
  match keys with
  | 0 => record
  | 1 => Volume.greater (Volume.share .tenth input) record
  | 2 => Volume.greater (Volume.share .quarter input) record
  | 3 => Volume.greater (Volume.share .twoFifths input) record
  | _ => Volume.greater (Volume.share .half input) record

namespace Estimator

variable {ν : Type} [Volume ν]

/-- The known bytes of an external input: declared, or else from the first hint for its name. -/
def externalBytes? (hints : List (String × Nat)) (input : ExternalInput) : Option Nat :=
  match input.declaredSize with
  | some bytes => some bytes
  | none => hints.lookup input.name

/-- The volume of an aggregation. -/
def aggregate? (graph : Graph) (estimates : Estimates ν) (operator : Operator) : Option ν :=
  let keys := match operator.inputs.head?.bind fun port => port.group with
    | some group => group.keys.length
    | none => 0
  let width := match operator.outputs.head? with
    | some port => port.dataType.recordWidth
    | none => 1
  (estimates.total? graph operator).map fun total => aggregateVolume total keys (Volume.ofBytes width)

/-- The volume at every output of an operator, from what is known about its inputs. -/
def outputVolume? (hints : List (String × Nat)) (graph : Graph) (estimates : Estimates ν)
    (operator : Operator) : Option ν :=
  match operator.kind with
  | .marker .begin => some (Volume.ofBytes 0)
  | .marker _ | .core _ => estimates.total? graph operator
  | .input input => (externalBytes? hints input).map Volume.ofBytes
  | .output _ => some (Volume.ofBytes 0)
  | .user definition =>
    if definition.kind.supportsPartialReduction then aggregate? graph estimates operator
    else if definition.kind.isMasterJoin then
      match operator.inputs[1]?.bind fun port => estimates.input? graph port.id with
      | some volume => some volume
      | none => estimates.total? graph operator
    else estimates.total? graph operator

/-- Adds the estimates of one operator. -/
def visit (hints : List (String × Nat)) (graph : Graph) (estimates : Estimates ν)
    (operator : Operator) : Estimates ν :=
  match outputVolume? hints graph estimates operator with
  | none => estimates
  | some volume =>
    operator.outputs.foldl (fun estimates port => estimates.setOutput port.id volume) estimates

/-- The operators in the order in which they are estimated; without an order of dependencies, by
identifier. -/
def visitOrder (graph : Graph) : List Operator :=
  let ids := match graph.dependencies.order with
    | .ok order => order
    | .error _ => graph.operatorIds
  ids.filterMap graph.operator?

/-- The estimates of a graph. -/
def estimate (estimator : Estimator) (graph : Graph) : Estimates ν :=
  match estimator with
  | .unknown => {}
  | .flowing hints => (visitOrder graph).foldl (visit hints graph) {}

end Estimator

end StagePlanner
