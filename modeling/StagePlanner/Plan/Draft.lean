import StagePlanner.Graph.Arena
import StagePlanner.Plan.Cutting

/-!
# Drafts of plans

The tables that a plan is put together in: its stages in order, and apart from them the originals of
their operators. Stages and ports get their identifiers one by one, so that an addition that gave some
out before it failed would show.
-/

namespace StagePlanner

open Std (ExtTreeMap)

/-- Whether the operator is a marker. -/
def OperatorRecord.isMarker (record : OperatorRecord) : Bool := record.kind.marker?.isSome

/-- The copy of each copied operator. -/
def ArenaCopy.copies (copied : ArenaCopy) : ExtTreeMap OperatorId OperatorId :=
  .ofList (copied.origins.toList.map fun (copy, original) => (original, copy))

/-- A stage without the originals of its operators. -/
structure StageRecord where
  id : StageId
  arena : Arena
  inputs : List StagePort
  outputs : List StagePort

/-- A plan that is put together. -/
structure Draft where
  /-- The stages in plan order. -/
  stages : List StageRecord := []
  nextStage : StageId := ⟨0⟩
  nextPort : StagePortId := ⟨0⟩
  /-- The original of every operator of every stage. -/
  sources : ExtTreeMap StageId (ExtTreeMap OperatorId OperatorId) := ∅

/-- A change of a draft that gives a result or fails; either way the draft it leaves is known. -/
abbrev Drafting (α : Type) := ExceptT Fault (StateM Draft) α

namespace Drafting

/-- The result of a change and the draft that it leaves. -/
def apply {α : Type} (drafting : Drafting α) (draft : Draft) : Except Fault α × Draft :=
  drafting.run.run draft

/-- The answer to a question about a graph. -/
def demand {α : Type} : Except GraphFault α → Drafting α
  | .ok answer => return answer
  | .error cause => throw (.graph cause)

/-- Refuses a port that is no marker among the members. -/
def checkPort (arena : Arena) (cut : StageCut) (port : OperatorId) : Drafting Unit := do
  if port ∉ cut.members then throw (.plan (.notMemberMarker port))
  let record ← demand (arena.operator port)
  if !record.isMarker then throw (.plan (.notMemberMarker port))

/-- Refuses ports that are no markers among the members, and ports on both sides. -/
def check (arena : Arena) (cut : StageCut) : Drafting Unit := do
  (cut.inputs.toList ++ cut.outputs.toList).forM (checkPort arena cut)
  match (cut.inputs.filter fun port => port ∈ cut.outputs).min? with
  | none => return ()
  | some both =>
    let record ← demand (arena.operator both)
    throw (.invariant (.bothEnds record.label))

/-- Adds a port under a new identifier. -/
def port (marker : OperatorId × OrderedSet OperatorId) : Drafting StagePort :=
  modifyGet fun draft =>
    ({ id := draft.nextPort, marker := marker.1, origins := marker.2 },
      { draft with nextPort := draft.nextPort.next })

/-- Adds a stage under a new identifier, with ports that are given by their markers and origins. -/
def push (arena : Arena)
    (inputs outputs : List (OperatorId × OrderedSet OperatorId)) : Drafting StageId := do
  let id ← modifyGet fun draft => (draft.nextStage, { draft with nextStage := draft.nextStage.next })
  let inputs ← inputs.mapM port
  let outputs ← outputs.mapM port
  modify fun draft => { draft with stages := draft.stages ++ [{ id, arena, inputs, outputs }] }
  return id

/-- The copies of some markers, each with its original as its only origin. -/
def stagePorts (copies : ExtTreeMap OperatorId OperatorId)
    (markers : OrderedSet OperatorId) : List (OperatorId × OrderedSet OperatorId) :=
  markers.toList.filterMap fun marker => copies[marker]?.map fun copy => (copy, .singleton marker)

/-- Adds a copy of a part of a graph as the last stage. -/
def addStage (arena : Arena) (cut : StageCut) : Drafting StageId := do
  check arena cut
  let copied ← demand (arena.copyOf cut.members cut.keeps)
  let id ← push copied.arena (stagePorts copied.copies cut.inputs) (stagePorts copied.copies cut.outputs)
  modify fun draft => { draft with sources := draft.sources.insert id copied.origins }
  return id

end Drafting

end StagePlanner
