import StagePlanner.Proofs.Assembly.Settlement
import StagePlanner.Proofs.Multiplicity.Unification

/-!
# Plans that retain ways

Pruning, forgetting the provenance of what is gone and reordering stages take no way away from an
operator that is left: whatever is upstream of it is left as well (`Plan.Retains`). So a plan that
assembly leaves without optional passes has, for every operator in it, all ways of the merged plan.
-/

namespace StagePlanner

open Relation

theorem Stage.Restricts.hasPort {result stage : Stage} {stays : OperatorId → Prop}
    (restricts : result.Restricts stage stays) {side : PortSide} {terminal : Terminal}
    (stay : stays terminal.operator) (isPort : stage.graph.HasPort side terminal) :
    result.graph.HasPort side terminal := by
  obtain ⟨operator, member, same, bound⟩ := isPort
  exact ⟨operator, (restricts.graph.operators operator).2 ⟨member, same ▸ stay⟩, same, bound⟩

namespace Plan

variable {plan result : Plan}

/-- An operator is in a stage of the plan. -/
def Holds (plan : Plan) (spot : Spot) : Prop :=
  ∃ stage ∈ plan.stages, stage.id = spot.stage ∧ spot.terminal.operator ∈ stage.graph.operatorIds

theorem Upstream.holds {source target : Spot} (step : plan.Upstream source target) :
    plan.Holds target := by
  cases step with
  | wire isStage wired => exact ⟨_, isStage, rfl, wired.hasPort_source.mem_operatorIds⟩
  | marker isStage _ isPort => exact ⟨_, isStage, rfl, isPort.mem_operatorIds⟩
  | connection _ _ isProducer _ _ isPort => exact ⟨_, isProducer, rfl, isPort.mem_operatorIds⟩

/-- What is upstream of operators of the first plan in the second plan is upstream of them in the first
plan. -/
structure Retains (result plan : Plan) : Prop where
  holds : ∀ spot, result.Holds spot → plan.Holds spot
  upstream : ∀ source target, result.Holds source → plan.Upstream source target →
    result.Holds target ∧ result.Upstream source target
  copyOf : ∀ source spot, result.Holds spot → plan.CopyOf source spot → result.CopyOf source spot

namespace Retains

theorem refl (plan : Plan) : plan.Retains plan :=
  ⟨fun _ isThere => isThere, fun _ _ _ step => ⟨step.holds, step⟩, fun _ _ _ isCopy => isCopy⟩

theorem trans {middle : Plan} (later : result.Retains middle) (earlier : middle.Retains plan) :
    result.Retains plan where
  holds spot isThere := earlier.holds spot (later.holds spot isThere)
  upstream source target isThere step :=
    have between := earlier.upstream source target (later.holds source isThere) step
    later.upstream source target isThere between.2
  copyOf source spot isThere isCopy :=
    later.copyOf source spot isThere (earlier.copyOf source spot (later.holds spot isThere) isCopy)

/-- Nothing that is left is delivered less often. -/
theorem card_le (retains : result.Retains plan) (sound : result.Sound)
    (circuitless : Circuitless result.dependencies.Depends) {source : Terminal} {spot : Spot}
    (isThere : result.Holds spot) :
    Nat.card (plan.Way source spot) ≤ Nat.card (result.Way source spot) :=
  Route.card_le_of_forward (sound.finitary_upstream circuitless) id result.Holds
    (fun spot isThere next taken =>
      have ⟨stillThere, step⟩ := retains.upstream spot next isThere taken
      ⟨next, rfl, stillThere, step⟩)
    (fun spot => retains.copyOf source spot) spot isThere

end Retains

/-! ### Trimming -/

/-- The stage that holds what is left of another one is that stage, restricted to operators with all
that feeds them. -/
theorem Trims.exists_restricted {needed : Stage → StagePort → Prop} (trims : result.Trims plan needed)
    (distinct : plan.stageIds.Nodup) {old : Stage} (isOld : old ∈ plan.stages) {side : PortSide}
    {terminal : Terminal} (isThere : result.Holds ⟨old.id, side, terminal⟩) :
    ∃ new ∈ result.stages, ∃ stays, new.Restricts old stays ∧ stays terminal.operator ∧
      ∀ source target, old.graph.Feeds source target → stays target → stays source := by
  obtain ⟨new, isNew, here, listed⟩ := isThere
  obtain ⟨former, isFormer, stays, restricts, closed⟩ := trims.stages new isNew
  obtain rfl := stage_unique distinct isFormer isOld (restricts.id.symm.trans here)
  obtain ⟨operator, member, same⟩ := Graph.mem_operatorIds.1 listed
  exact ⟨new, isNew, stays, restricts, same ▸ ((restricts.graph.operators operator).1 member).2,
    closed⟩

/-- A plan that is trimmed with all its outputs retains the ways of what is left. -/
theorem Trims.retains (trims : result.Trims plan fun _ _ => True) (sound : plan.Sound) :
    result.Retains plan := by
  refine ⟨?_, ?_, ?_⟩
  · rintro spot ⟨new, isNew, here, isThere⟩
    obtain ⟨old, isOld, _, restricts, -⟩ := trims.stages new isNew
    obtain ⟨operator, member, same⟩ := Graph.mem_operatorIds.1 isThere
    exact ⟨old, isOld, restricts.id.symm.trans here, Graph.mem_operatorIds.2
      ⟨operator, ((restricts.graph.operators operator).1 member).1, same⟩⟩
  · intro source target isThere step
    suffices step : result.Upstream source target from ⟨step.holds, step⟩
    cases step with
    | wire isOld wired =>
      obtain ⟨new, isNew, stays, restricts, targetStays, closed⟩ :=
        trims.exists_restricted sound.distinct isOld isThere
      rw [← restricts.id]
      exact .wire isNew ((restricts.graph.wired _ _).2
        ⟨wired, closed _ _ wired.feeds targetStays, targetStays⟩)
    | marker isOld isMarker isPort =>
      obtain ⟨new, isNew, stays, restricts, markerStays, -⟩ :=
        trims.exists_restricted sound.distinct isOld isThere
      rw [← restricts.id]
      refine .marker isNew ?_ (restricts.hasPort markerStays isPort)
      rwa [Graph.isMarker_congr
        (Stage.operator?_of_restricts (sound.stages _ isOld) restricts.graph markerStays)]
    | connection isOld isInput isProducer isOutput meets isPort =>
      obtain ⟨new, isNew, stays, restricts, inputStays, -⟩ :=
        trims.exists_restricted sound.distinct isOld isThere
      obtain ⟨producer, isNewProducer, ⟨_, producerRestricts, -⟩, stillOutput⟩ :=
        trims.exists_trimmed sound.proper isProducer isOutput trivial
      have outputStays := ((producerRestricts.mem_outputs _).1 stillOutput).2
      rw [← restricts.id, ← producerRestricts.id]
      exact .connection isNew ((restricts.mem_inputs _).2 ⟨isInput, inputStays⟩) isNewProducer
        stillOutput meets (producerRestricts.hasPort outputStays isPort)
  · rintro source ⟨_, side, terminal⟩ isThere ⟨isOutput, sameIndex, old, isOld, rfl, isPair⟩
    obtain ⟨new, isNew, stays, restricts, -⟩ := trims.exists_restricted sound.distinct isOld isThere
    exact ⟨isOutput, sameIndex, new, isNew, restricts.id, restricts.provenance ▸ isPair⟩

/-! ### Finishing -/

theorem upstream_tidied {source target : Spot} :
    plan.tidied.Upstream source target ↔ plan.Upstream source target := by
  simp only [upstream_iff, tidied, List.mem_map, exists_exists_and_eq_and]
  rfl

theorem holds_tidied {spot : Spot} : plan.tidied.Holds spot ↔ plan.Holds spot := by
  simp only [Holds, tidied, List.mem_map, exists_exists_and_eq_and]
  rfl

theorem derives_pruneProvenance {stage : Stage} (sound : stage.Sound) :
    stage.pruneProvenance.Derives stage where
  id := rfl
  operators _ member := member
  provenance _ isPair := ((mem_pruneProvenance sound).1 isPair).1
  keeps _ isPair isThere := (mem_pruneProvenance sound).2 ⟨isPair, isThere⟩

theorem derives_tidied (sound : plan.Sound) :
    ∀ new ∈ plan.tidied.stages, ∃ old ∈ plan.stages, new.Derives old := by
  intro new isNew
  obtain ⟨old, isOld, rfl⟩ := List.mem_map.1 isNew
  exact ⟨old, isOld, derives_pruneProvenance (sound.stages old isOld)⟩

theorem tidied_retains (sound : plan.Sound) : plan.tidied.Retains plan where
  holds _ := holds_tidied.1
  upstream _ _ _ step := ⟨holds_tidied.2 step.holds, upstream_tidied.2 step⟩
  copyOf source spot isThere isCopy := by
    obtain ⟨stage, isStage, here, isOperator⟩ := holds_tidied.1 isThere
    obtain ⟨isOutput, sameIndex, other, isOther, alsoHere, isPair⟩ := isCopy
    obtain rfl := stage_unique sound.distinct isOther isStage (alsoHere.trans here.symm)
    exact ⟨isOutput, sameIndex, _, List.mem_map_of_mem isOther, alsoHere,
      (mem_pruneProvenance (sound.stages other isOther)).2 ⟨isPair, isOperator⟩⟩

theorem upstream_of_perm (same : result.stages.Perm plan.stages) {source target : Spot} :
    result.Upstream source target ↔ plan.Upstream source target := by
  simp only [upstream_iff, same.mem_iff]

theorem retains_of_perm (same : result.stages.Perm plan.stages) : result.Retains plan where
  holds _ := by simp only [Holds, same.mem_iff, imp_self]
  upstream _ _ _ step :=
    have step := (upstream_of_perm same).2 step
    ⟨step.holds, step⟩
  copyOf _ _ _ := by simp only [CopyOf, same.mem_iff, imp_self]

end Plan

end StagePlanner
