import StagePlanner.Proofs.Flow.Faithful
import StagePlanner.Proofs.Flow.Stages
import StagePlanner.Proofs.Multiplicity.Upstream
import StagePlanner.Proofs.Route

/-!
# Ways upstream when ports are merged

When a port of a stage is merged into another one, the spots at the one become spots at the other
one (`Spot.folded`). Every way upstream in the plan after the merge is the image of a way before
it, so there are no more of them; there may be fewer, since ways that differed only in the port
through which they went fall together.
-/

namespace StagePlanner

open Relation

/-- The place of a spot after a marker of a stage was merged into another one. -/
def Spot.folded (stage : StageId) (kept absorbed : OperatorId) (spot : Spot) : Spot :=
  if spot.stage = stage ∧ spot.terminal.operator = absorbed then
    ⟨stage, spot.side, ⟨kept, spot.terminal.index⟩⟩
  else spot

namespace Spot

variable {stage : StageId} {kept absorbed : OperatorId} {spot : Spot}

theorem folded_absorbed {side : PortSide} {index : Nat} :
    folded stage kept absorbed ⟨stage, side, ⟨absorbed, index⟩⟩ = ⟨stage, side, ⟨kept, index⟩⟩ :=
  if_pos ⟨rfl, rfl⟩

theorem folded_of_ne (differ : spot.stage = stage → spot.terminal.operator ≠ absorbed) :
    spot.folded stage kept absorbed = spot :=
  if_neg fun both => differ both.1 both.2

/-- A spot keeps its place, or it was at the marker that was merged and is at the other one now. -/
theorem folded_eq_or (stage : StageId) (kept absorbed : OperatorId) (spot : Spot) :
    spot.folded stage kept absorbed = spot ∨
    ∃ side index, spot = ⟨stage, side, ⟨absorbed, index⟩⟩ ∧
      spot.folded stage kept absorbed = ⟨stage, side, ⟨kept, index⟩⟩ := by
  by_cases both : spot.stage = stage ∧ spot.terminal.operator = absorbed
  · obtain ⟨_, side, operator, index⟩ := spot
    obtain ⟨rfl, rfl⟩ := both
    exact .inr ⟨side, index, rfl, folded_absorbed⟩
  · exact .inl (if_neg both)

theorem eq_or_of_folded_eq {id : StageId} {side : PortSide} {terminal : Terminal}
    (same : spot.folded stage kept absorbed = ⟨id, side, terminal⟩) :
    spot = ⟨id, side, terminal⟩ ∨ id = stage ∧ terminal.operator = kept ∧
      spot = ⟨stage, side, ⟨absorbed, terminal.index⟩⟩ := by
  rcases folded_eq_or stage kept absorbed spot with unmoved | ⟨_, _, wasAt, isAt⟩
  · exact .inl (unmoved.symm.trans same)
  · cases isAt.symm.trans same
    exact .inr ⟨rfl, rfl, wasAt⟩

/-- A spot that is folded to a place at another operator was there. -/
theorem eq_of_folded_eq {id : StageId} {side : PortSide} {terminal : Terminal}
    (same : spot.folded stage kept absorbed = ⟨id, side, terminal⟩)
    (notKept : id = stage → terminal.operator ≠ kept) : spot = ⟨id, side, terminal⟩ :=
  (eq_or_of_folded_eq same).resolve_right fun ⟨here, atKept, _⟩ => notKept here atKept

end Spot

theorem Graph.HasPort.exists_portAt {graph : Graph} {side : PortSide} {terminal : Terminal}
    (hasPort : graph.HasPort side terminal) : ∃ port, graph.PortAt side terminal port := by
  obtain ⟨operator, member, same, bound⟩ := hasPort
  exact ⟨_, operator, member, same, List.getElem?_eq_getElem (by simpa using bound)⟩

theorem Graph.HasPort.mem_operatorIds {graph : Graph} {side : PortSide} {terminal : Terminal}
    (hasPort : graph.HasPort side terminal) : terminal.operator ∈ graph.operatorIds := by
  obtain ⟨operator, member, same, -⟩ := hasPort
  exact Graph.mem_operatorIds.2 ⟨operator, member, same⟩

/-- The first stage is what steps of assembly make of the second one: no operator is new, and those
that are left keep their provenance. -/
structure Stage.Derives (result stage : Stage) : Prop where
  id : result.id = stage.id
  operators : ∀ operator ∈ result.graph.operators, operator ∈ stage.graph.operators
  provenance : ∀ pair ∈ result.provenance, pair ∈ stage.provenance
  keeps : ∀ pair ∈ stage.provenance, pair.copy ∈ result.graph.operatorIds → pair ∈ result.provenance

namespace Stage.Derives

theorem refl (stage : Stage) : stage.Derives stage :=
  ⟨rfl, fun _ member => member, fun _ isPair => isPair, fun _ isPair _ => isPair⟩

variable {result stage : Stage}

theorem of_provenance_eq (id : result.id = stage.id)
    (operators : ∀ operator ∈ result.graph.operators, operator ∈ stage.graph.operators)
    (provenance : result.provenance = stage.provenance) : result.Derives stage :=
  ⟨id, operators, fun _ isPair => provenance ▸ isPair, fun _ isPair _ => provenance ▸ isPair⟩

variable (derives : result.Derives stage)

include derives

theorem trans {last : Stage} (later : last.Derives result) : last.Derives stage where
  id := later.id.trans derives.id
  operators operator member := derives.operators operator (later.operators operator member)
  provenance pair isPair := derives.provenance pair (later.provenance pair isPair)
  keeps pair isPair isThere := by
    obtain ⟨operator, member, same⟩ := Graph.mem_operatorIds.1 isThere
    exact later.keeps pair (derives.keeps pair isPair
      (Graph.mem_operatorIds.2 ⟨operator, later.operators operator member, same⟩)) isThere

theorem hasPort {side : PortSide} {terminal : Terminal} (isPort : result.graph.HasPort side terminal) :
    stage.graph.HasPort side terminal := by
  obtain ⟨operator, member, rest⟩ := isPort
  exact ⟨operator, derives.operators operator member, rest⟩

theorem isMarker (resultSound : result.Sound) (sound : stage.Sound) {side : PortSide}
    {terminal : Terminal} (isPort : result.graph.HasPort side terminal)
    (isMarker : result.graph.isMarker terminal.operator = true) :
    stage.graph.isMarker terminal.operator = true := by
  obtain ⟨operator, member, same, -⟩ := isPort
  rw [← same, Graph.isMarker, Graph.holds_id resultSound.wellFormed member] at isMarker
  rw [← same, Graph.isMarker, Graph.holds_id sound.wellFormed (derives.operators operator member),
    isMarker]

end Stage.Derives

/-- The first plan is what merging a port of a stage into another one makes of the second one. -/
structure Plan.Folds (result plan : Plan) (stage : Stage) (kept absorbed : StagePort) : Prop where
  sound : plan.Sound
  resultSound : result.Sound
  isStage : stage ∈ plan.stages
  isKept : kept ∈ stage.ports
  isAbsorbed : absorbed ∈ stage.ports
  stages : ∀ new ∈ result.stages, ∃ old ∈ plan.stages, new.Derives old ∧
    (old = stage → ∀ operator ∈ new.graph.operators, operator.id ≠ absorbed.marker)

namespace Plan

variable {result plan : Plan} {source : Terminal} {spot : Spot}

theorem CopyOf.of_derives (isCopy : result.CopyOf source spot)
    (derives : ∀ new ∈ result.stages, ∃ old ∈ plan.stages, new.Derives old) :
    plan.CopyOf source spot := by
  obtain ⟨isOutput, sameIndex, new, isNew, here, isPair⟩ := isCopy
  obtain ⟨old, isOld, derived⟩ := derives new isNew
  exact ⟨isOutput, sameIndex, old, isOld, derived.id.symm.trans here, derived.provenance _ isPair⟩

/-- No port of a stage is a copy of an operator that is no marker. -/
theorem Faithful.not_copyOf_port {graph : Graph} (faithful : plan.Faithful graph) (sound : plan.Sound)
    (noMarker : graph.isMarker source.operator = false) {stage : Stage} (isStage : stage ∈ plan.stages)
    {port : StagePort} (isPort : port ∈ stage.ports) {side : PortSide} {index : Nat} :
    ¬ plan.CopyOf source ⟨stage.id, side, ⟨port.marker, index⟩⟩ := by
  rintro ⟨-, -, other, isOther, here, isPair⟩
  obtain rfl := stage_unique sound.distinct isOther isStage here
  obtain ⟨operator, member, same, isMarker⟩ := (sound.stages other isStage).marker port isPort
  have kinds := faithful.kinds other isStage operator member source.operator (same ▸ isPair)
  rw [isMarker, noMarker] at kinds
  cases kinds

end Plan

namespace Plan.Folds

variable {result plan : Plan} {stage : Stage} {kept absorbed : StagePort}
  (folds : result.Folds plan stage kept absorbed)

include folds

theorem derives : ∀ new ∈ result.stages, ∃ old ∈ plan.stages, new.Derives old := fun new isNew =>
  let ⟨old, isOld, derived, _⟩ := folds.stages new isNew
  ⟨old, isOld, derived⟩

/-- Spots at operators that are still there keep their places. -/
theorem folded_eq {new : Stage} (isNew : new ∈ result.stages) {side : PortSide} {terminal : Terminal}
    (isThere : terminal.operator ∈ new.graph.operatorIds) :
    Spot.folded stage.id kept.marker absorbed.marker ⟨new.id, side, terminal⟩ =
      ⟨new.id, side, terminal⟩ := by
  refine Spot.folded_of_ne fun here same => ?_
  obtain ⟨old, isOld, derives, gone⟩ := folds.stages new isNew
  obtain ⟨operator, member, isOperator⟩ := Graph.mem_operatorIds.1 isThere
  have isStage := stage_unique folds.sound.distinct isOld folds.isStage (derives.id.symm.trans here)
  exact gone isStage operator member (isOperator.trans same)

/-- Where the port that was kept has ports, the other one had them. -/
theorem hasPort_absorbed {new : Stage} (isNew : new ∈ result.stages) (here : new.id = stage.id)
    {side : PortSide} {index : Nat} (isPort : new.graph.HasPort side ⟨kept.marker, index⟩) :
    stage.graph.HasPort side ⟨absorbed.marker, index⟩ := by
  obtain ⟨old, isOld, derives, -⟩ := folds.stages new isNew
  obtain rfl := stage_unique folds.sound.distinct isOld folds.isStage (derives.id.symm.trans here)
  have stageSound := folds.sound.stages old isOld
  obtain ⟨port, isAt⟩ := (derives.hasPort isPort).exists_portAt
  obtain rfl : index = 0 := stageSound.index_eq_zero folds.isKept isAt rfl
  obtain ⟨other, isOther⟩ := stageSound.exists_portAt folds.isAbsorbed side
  exact isOther.hasPort

theorem upstream_absorbed {new : Stage} (isNew : new ∈ result.stages) (here : new.id = stage.id)
    {output input : Nat} (isPort : new.graph.HasPort .input ⟨kept.marker, input⟩) :
    plan.Upstream ⟨stage.id, .output, ⟨absorbed.marker, output⟩⟩
      ⟨stage.id, .input, ⟨absorbed.marker, input⟩⟩ :=
  .marker folds.isStage
    ((folds.sound.stages stage folds.isStage).proper.isMarker_port folds.isAbsorbed)
    (folds.hasPort_absorbed isNew here isPort)

theorem upstream_marker {new : Stage} (isNew : new ∈ result.stages) {id : OperatorId}
    {output input : Nat} (isMarker : new.graph.isMarker id = true)
    (isPort : new.graph.HasPort .input ⟨id, input⟩) :
    plan.Upstream ⟨new.id, .output, ⟨id, output⟩⟩ ⟨new.id, .input, ⟨id, input⟩⟩ := by
  obtain ⟨old, isOld, derives, -⟩ := folds.stages new isNew
  rw [derives.id]
  exact .marker isOld (derives.isMarker (folds.resultSound.stages new isNew)
    (folds.sound.stages old isOld) isPort isMarker) (derives.hasPort isPort)

/-- A step through a marker is the image of one that starts at a given spot. -/
theorem exists_marker_from {new : Stage} (isNew : new ∈ result.stages) {id : OperatorId}
    {output input : Nat} (isMarker : new.graph.isMarker id = true)
    (isPort : new.graph.HasPort .input ⟨id, input⟩) {spot : Spot}
    (same : spot.folded stage.id kept.marker absorbed.marker = ⟨new.id, .output, ⟨id, output⟩⟩) :
    ∃ onward, onward.folded stage.id kept.marker absorbed.marker = ⟨new.id, .input, ⟨id, input⟩⟩ ∧
      plan.Upstream spot onward := by
  rcases Spot.eq_or_of_folded_eq same with rfl | ⟨here, rfl, rfl⟩
  · exact ⟨_, folds.folded_eq isNew isPort.mem_operatorIds, folds.upstream_marker isNew isMarker isPort⟩
  · exact ⟨_, Spot.folded_absorbed.trans (by rw [here]), folds.upstream_absorbed isNew here isPort⟩

/-- A step through a marker is the image of one that leads to a given spot. -/
theorem exists_marker_to {new : Stage} (isNew : new ∈ result.stages) {id : OperatorId}
    {output input : Nat} (isMarker : new.graph.isMarker id = true)
    (isPort : new.graph.HasPort .input ⟨id, input⟩) {spot : Spot}
    (same : spot.folded stage.id kept.marker absorbed.marker = ⟨new.id, .input, ⟨id, input⟩⟩) :
    ∃ before, before.folded stage.id kept.marker absorbed.marker = ⟨new.id, .output, ⟨id, output⟩⟩ ∧
      plan.Upstream before spot := by
  rcases Spot.eq_or_of_folded_eq same with rfl | ⟨here, rfl, rfl⟩
  · exact ⟨_, folds.folded_eq isNew isPort.mem_operatorIds, folds.upstream_marker isNew isMarker isPort⟩
  · exact ⟨_, Spot.folded_absorbed.trans (by rw [here]), folds.upstream_absorbed isNew here isPort⟩

/-! ### Lifting ways -/

section Lifting

variable {graph : Graph} {source : Terminal} (faithful : plan.Faithful graph)
  (circuitless : Circuitless plan.dependencies.Depends)
  (noMarker : graph.isMarker source.operator = false)

include faithful noMarker

/-- A spot at a port is no copy of an output of an operator that is no marker. -/
theorem not_copyOf_kept {side : PortSide} {index : Nat} :
    ¬ result.CopyOf source ⟨stage.id, side, ⟨kept.marker, index⟩⟩ := fun isCopy =>
  faithful.not_copyOf_port folds.sound noMarker folds.isStage folds.isKept
    (isCopy.of_derives folds.derives)

theorem copyOf_of_folded {spot : Spot}
    (isCopy : result.CopyOf source (spot.folded stage.id kept.marker absorbed.marker)) :
    plan.CopyOf source spot := by
  rcases Spot.folded_eq_or stage.id kept.marker absorbed.marker spot with unmoved | ⟨_, _, -, isAt⟩
  · exact (unmoved ▸ isCopy).of_derives folds.derives
  · exact absurd (isAt ▸ isCopy) (folds.not_copyOf_kept faithful noMarker)

theorem exists_folded_copyOf {spot : Spot} (isCopy : result.CopyOf source spot) :
    ∃ before, before.folded stage.id kept.marker absorbed.marker = spot ∧
      plan.CopyOf source before := by
  have wasCopy := isCopy.of_derives folds.derives
  rcases Spot.folded_eq_or stage.id kept.marker absorbed.marker spot with unmoved | ⟨_, _, wasAt, -⟩
  · exact ⟨spot, unmoved, wasCopy⟩
  · exact absurd (wasAt ▸ wasCopy)
      (faithful.not_copyOf_port folds.sound noMarker folds.isStage folds.isAbsorbed)

variable {new : Stage} (isNew : new ∈ result.stages) {operator : Operator}
  (member : operator ∈ new.graph.operators)

include circuitless isNew member

/-- Where ways can be lifted from their start, no operator gets more than it got. -/
theorem card_le_of_forward
    (steps : ∀ spot next, result.Upstream (spot.folded stage.id kept.marker absorbed.marker) next →
      ∃ onward, onward.folded stage.id kept.marker absorbed.marker = next ∧ plan.Upstream spot onward)
    (index : Nat) : Nat.card (result.Way source ⟨new.id, .input, ⟨operator.id, index⟩⟩) ≤
      Nat.card (plan.Way source ⟨new.id, .input, ⟨operator.id, index⟩⟩) := by
  let start : Spot := ⟨new.id, .input, ⟨operator.id, index⟩⟩
  have place : start.folded stage.id kept.marker absorbed.marker = start :=
    folds.folded_eq isNew (Graph.mem_operatorIds.2 ⟨operator, member, rfl⟩)
  have fewer := Route.card_le_of_forward (folds.sound.finitary_upstream circuitless)
    (Spot.folded stage.id kept.marker absorbed.marker) (fun _ => True)
    (fun spot _ next taken =>
      let ⟨onward, isNext, step⟩ := steps spot next taken
      ⟨onward, isNext, trivial, step⟩)
    (fun spot _ => folds.copyOf_of_folded faithful noMarker) start trivial
  rwa [place] at fewer

/-- Where ways can be lifted from their end, no operator that is no marker gets more than it got. -/
theorem card_le_of_backward (isOperator : operator.isMarker = false)
    (steps : ∀ spot onward,
      result.Upstream spot (onward.folded stage.id kept.marker absorbed.marker) →
      ∃ before, before.folded stage.id kept.marker absorbed.marker = spot ∧ plan.Upstream before onward)
    (index : Nat) : Nat.card (result.Way source ⟨new.id, .input, ⟨operator.id, index⟩⟩) ≤
      Nat.card (plan.Way source ⟨new.id, .input, ⟨operator.id, index⟩⟩) := by
  let start : Spot := ⟨new.id, .input, ⟨operator.id, index⟩⟩
  have place : start.folded stage.id kept.marker absorbed.marker = start :=
    folds.folded_eq isNew (Graph.mem_operatorIds.2 ⟨operator, member, rfl⟩)
  have fewer := Route.card_le_of_backward (folds.sound.finitary_upstream circuitless)
    (Spot.folded stage.id kept.marker absorbed.marker) steps
    (fun spot => folds.exists_folded_copyOf faithful noMarker) start ?_
  · rwa [place] at fewer
  · intro other same
    rcases Spot.eq_or_of_folded_eq (same.trans place) with equal | ⟨here, atKept, -⟩
    · exact equal
    · obtain ⟨old, isOld, derives, -⟩ := folds.stages new isNew
      obtain rfl := stage_unique folds.sound.distinct isOld folds.isStage
        (derives.id.symm.trans here)
      exact absurd atKept ((folds.sound.stages old isOld).proper.id_ne_marker
        (derives.operators operator member) isOperator folds.isKept)

end Lifting

end Plan.Folds

end StagePlanner
