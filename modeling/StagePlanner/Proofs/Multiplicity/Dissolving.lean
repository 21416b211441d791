import StagePlanner.Proofs.Multiplicity.Folding

/-!
# Ways upstream when an output is dissolved

A way that went to an output that forwards an input, through both and on to an output that feeds the
input, goes straight to that output once the first one is dissolved. Every way of the plan without
the output comes from one of the plan with it in this manner, so there are no more of them; there
are fewer where the straight way was there before.
-/

namespace StagePlanner

open Relation

/-- The spots on a way that no longer goes through an output: neither the output is left nor the three
spots from there to the next output. -/
def Spot.straightened (exit : Spot) (trace : List Spot) : List Spot :=
  trace.foldr (fun spot onward => if spot = exit then onward.drop 3 else spot :: onward) []

theorem Spot.straightened_cons {exit spot : Spot} (differ : spot ≠ exit) (trace : List Spot) :
    exit.straightened (spot :: trace) = spot :: exit.straightened trace :=
  if_neg differ

theorem Spot.straightened_exit {exit : Spot} (trace : List Spot) :
    exit.straightened (exit :: trace) = (exit.straightened trace).drop 3 :=
  if_pos rfl

namespace Stage.TakesOver

variable {result stage found : Stage} {output input : StagePort}
  (takesOver : result.TakesOver stage found output input)

include takesOver

theorem derives : result.Derives stage :=
  .of_provenance_eq takesOver.id
    (fun operator member => ((takesOver.graph.operators operator).1 member).1) takesOver.provenance

end Stage.TakesOver

namespace Plan

variable {plan result : Plan}

section Dissolved

variable {found : Stage} {output input : StagePort} (sound : plan.Sound)
  (isFound : found ∈ plan.stages) (isOutput : output ∈ found.outputs)
  (isInput : input ∈ found.inputs) (forwards : found.Forwards input output)

include sound isFound isOutput isInput forwards

/-- The way from an output that forwards an input to what feeds the input. -/
theorem exists_detour {goal : Spot → Prop} {reader producer : Stage} {read former : StagePort}
    {index other : Nat} (isReader : reader ∈ plan.stages) (isRead : read ∈ reader.inputs)
    (reads : output.Meets read) (isProducer : producer ∈ plan.stages)
    (isFormer : former ∈ producer.outputs) (feeds : former.Meets input)
    (isPort : producer.graph.HasPort .output ⟨former.marker, other⟩)
    (rest : Route plan.Upstream goal ⟨producer.id, .output, ⟨former.marker, other⟩⟩) :
    ∃ way : Route plan.Upstream goal ⟨reader.id, .input, ⟨read.marker, index⟩⟩,
      Spot.straightened ⟨found.id, .output, ⟨output.marker, 0⟩⟩ way.trace =
        ⟨reader.id, .input, ⟨read.marker, index⟩⟩ ::
          Spot.straightened ⟨found.id, .output, ⟨output.marker, 0⟩⟩ rest.trace := by
  have foundSound := sound.stages found isFound
  have outputPort : output ∈ found.ports := List.mem_append_right _ isOutput
  have inputPort : input ∈ found.ports := List.mem_append_left _ isInput
  obtain ⟨_, exitAt⟩ := foundSound.exists_portAt outputPort .output
  obtain ⟨_, entryAt⟩ := foundSound.exists_portAt outputPort .input
  obtain ⟨_, sourceAt⟩ := foundSound.exists_portAt inputPort .input
  refine ⟨.go (.connection isReader isRead isFound isOutput reads exitAt.hasPort)
    (.go (.marker isFound (foundSound.proper.isMarker_port outputPort) entryAt.hasPort)
      (.go (.wire isFound ((forwards ⟨input.marker, 0⟩).2 rfl))
        (.go (.marker isFound (foundSound.proper.isMarker_port inputPort) sourceAt.hasPort)
          (.go (.connection isFound isInput isProducer isFormer feeds isPort) rest)))), ?_⟩
  have apart := foundSound.proper.input_ne_output isInput isOutput
  simp only [Route.trace]
  rw [Spot.straightened_cons (by simp), Spot.straightened_exit, Spot.straightened_cons (by simp),
    Spot.straightened_cons (by simp [apart]), Spot.straightened_cons (by simp)]
  rfl

variable (changes : List.Forall₂ (fun old new => new.TakesOver old found output input) plan.stages
    result.stages)

include changes

omit isOutput isInput forwards in
/-- Markers that are left are not the one of the output that was dissolved. -/
theorem spot_ne_dissolved {new : Stage} (isNew : new ∈ result.stages) {side : PortSide}
    {id : OperatorId} {index : Nat} (isThere : id ∈ new.graph.operatorIds) :
    (⟨new.id, side, ⟨id, index⟩⟩ : Spot) ≠ ⟨found.id, .output, ⟨output.marker, 0⟩⟩ := by
  intro same
  obtain ⟨old, isOld, takesOver⟩ := exists_partner changes isNew
  obtain ⟨operator, member, isOperator⟩ := Graph.mem_operatorIds.1 isThere
  have here : old = found := stage_unique sound.distinct isOld isFound
    (takesOver.id.symm.trans (congrArg Spot.stage same))
  have atOutput : id = output.marker := congrArg (fun spot => spot.terminal.operator) same
  exact ((takesOver.graph.operators operator).1 member).2 here (isOperator.trans atOutput)

/-- A step upstream in the plan without the output comes from a step in the plan with it or from the
way through the output. -/
theorem exists_way_of_step {goal : Spot → Prop} {spot next : Spot} (step : result.Upstream spot next)
    (onward : Route plan.Upstream goal next) : ∃ lifted : Route plan.Upstream goal spot,
      Spot.straightened ⟨found.id, .output, ⟨output.marker, 0⟩⟩ lifted.trace =
        spot :: Spot.straightened ⟨found.id, .output, ⟨output.marker, 0⟩⟩ onward.trace := by
  cases step with
  | @wire new exit entry isNew wired =>
    obtain ⟨old, isOld, takesOver⟩ := exists_partner changes isNew
    have before : plan.Upstream ⟨new.id, .input, entry⟩ ⟨new.id, .output, exit⟩ := by
      rw [takesOver.id]
      exact .wire isOld ((takesOver.graph.wired _ _).1 wired).1
    exact ⟨.go before onward, Spot.straightened_cons (by simp) _⟩
  | @marker new id exit entry isNew isMarker isPort =>
    obtain ⟨old, isOld, takesOver⟩ := exists_partner changes isNew
    have before : plan.Upstream ⟨new.id, .output, ⟨id, exit⟩⟩ ⟨new.id, .input, ⟨id, entry⟩⟩ := by
      rw [takesOver.id]
      exact .marker isOld
        (takesOver.derives.isMarker takesOver.sound (sound.stages old isOld) isPort isMarker)
        (takesOver.derives.hasPort isPort)
    exact ⟨.go before onward, Spot.straightened_cons
      (spot_ne_dissolved sound isFound changes isNew isPort.mem_operatorIds) _⟩
  | @connection new producer read port index other isNew isRead isProducer isThere meets isPort =>
    obtain ⟨reader, isReader, readerTakes⟩ := exists_partner changes isNew
    obtain ⟨old, isOld, takesOver⟩ := exists_partner changes isProducer
    obtain ⟨former, isFormer, -, rfl⟩ := (takesOver.outputs port).1 isThere
    have wasRead := (readerTakes.inputs read).1 isRead
    have samePlace : (former.takingOver output input).marker = former.marker :=
      congrArg Prod.snd (former.place_takingOver output input)
    have wasPort := takesOver.derives.hasPort isPort
    revert onward
    rw [samePlace, takesOver.id, readerTakes.id]
    rw [samePlace] at wasPort
    intro onward
    obtain ⟨origin, inPort, inRead⟩ := meets
    rcases StagePort.mem_origins_takingOver.1 inPort with inFormer | ⟨feeds, inOutput⟩
    · exact ⟨.go (.connection isReader wasRead isOld isFormer ⟨origin, inFormer, inRead⟩ wasPort) onward,
        Spot.straightened_cons (by simp) _⟩
    · exact exists_detour sound isFound isOutput isInput forwards isReader wasRead
        ⟨origin, inOutput, inRead⟩ isOld isFormer feeds wasPort onward

/-- A way through the plan without the output is a straightened way through the plan with it. -/
theorem exists_way_of_dissolved {graph : Graph} (faithful : plan.Faithful graph) {source : Terminal}
    (noMarker : graph.isMarker source.operator = false) {spot : Spot} (way : result.Way source spot) :
    ∃ lifted : plan.Way source spot,
      Spot.straightened ⟨found.id, .output, ⟨output.marker, 0⟩⟩ lifted.trace = way.trace := by
  have derives : ∀ new ∈ result.stages, ∃ old ∈ plan.stages, new.Derives old := fun new isNew =>
    let ⟨old, isOld, takesOver⟩ := exists_partner changes isNew
    ⟨old, isOld, takesOver.derives⟩
  induction way with
  | @stop spot reached =>
    have isCopy := reached.of_derives derives
    have differ : spot ≠ ⟨found.id, .output, ⟨output.marker, 0⟩⟩ := fun same =>
      faithful.not_copyOf_port sound noMarker isFound (List.mem_append_right _ isOutput) (same ▸ isCopy)
    exact ⟨.stop isCopy, Spot.straightened_cons differ []⟩
  | go first rest ih =>
    obtain ⟨onward, isOnward⟩ := ih
    rw [Route.trace, ← isOnward]
    exact exists_way_of_step sound isFound isOutput isInput forwards changes first onward

end Dissolved

end Plan

end StagePlanner
