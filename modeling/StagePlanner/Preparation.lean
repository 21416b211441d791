import StagePlanner.Config
import StagePlanner.Preparation.Marking
import StagePlanner.Preparation.Units

/-!
# Preparation of graphs

The passes that turn an operator graph into one that can be cut into stages:
close it, optimise it, fix the units of its inputs, and mark its boundaries.
-/

namespace StagePlanner

/-- All that a planning run needs besides the graph. -/
structure Planner (ν : Type) where
  config : Config ν
  estimator : Estimator := .flowing []
  simplifier : Simplifier := Simplifier.standard
  /-- The largest number of rounds of a loop. -/
  stepLimit : Nat := 1000

/-- What preparation did to a graph. -/
structure PreparationReport where
  optimization : LoopOutcome
  /-- The operators that got other input units. -/
  rebuilt : Nat
  /-- How cyclic broadcasts were broken; absent when this is switched off. -/
  broadcasts : Option LoopOutcome
  deriving DecidableEq, Repr

namespace Planner

variable {ν : Type} [Volume ν]

omit [Volume ν] in
/-- Whether an option is on. -/
def isEnabled (planner : Planner ν) (option : PlanningOption) : Bool :=
  planner.config.options.isEnabled option

/-- The classes of the operators of a graph. -/
def classes (planner : Planner ν) (graph : Graph) : List OperatorClass :=
  classesOf planner.estimator planner.config.broadcastLimit graph

omit [Volume ν] in
/-- Repeats the simplifier until the graph stops changing. -/
def optimize (planner : Planner ν) : Edit LoopOutcome := planner.simplifier.optimize planner.stepLimit

/-- Aligns the units of all inputs with their use. -/
def fixUnits (planner : Planner ν) : Edit Nat :=
  Edit.fixAllUnits planner.estimator planner.config.broadcastLimit

/-- Inserts every marker that the graph needs, then breaks cyclic broadcasts if that is switched
on. -/
def insertMarkers (planner : Planner ν) : Edit (Option LoopOutcome) := do
  Edit.markCheckpoints
  (planner.classes (← get)).forM Edit.boundInputs
  if planner.isEnabled .checkpointAfterExternalInputs then Edit.checkpointExternalInputs
  if planner.isEnabled .checkpointBeforeExternalOutputs then Edit.checkpointExternalOutputs
  if planner.isEnabled .removeCyclicBroadcasts then
    return some (← Edit.removeCyclicBroadcasts planner.stepLimit)
  else return none

/-- Prepares a graph for being cut into stages. -/
def prepare (planner : Planner ν) : Edit PreparationReport := do
  Edit.attachTerminators
  let optimization ← planner.optimize
  Edit.validateAcyclic
  let rebuilt ← planner.fixUnits
  let broadcasts ← planner.insertMarkers
  let _ ← Edit.simplifyTerminators
  Edit.validateAcyclic
  return { optimization, rebuilt, broadcasts }

end Planner

end StagePlanner
