import StagePlanner.Plan.Assembly
import StagePlanner.Proofs.Fallible
import StagePlanner.Proofs.Keyed

/-!
# Ports keep their order

Assembly takes ports away and lets others stand for further origins. It adds none and moves none, so
the ports of a stage are always some of those that the stage had before, in the same order
(`Stage.Thins`). Every pass that succeeds keeps this (`Plan.Thinning`), and so does a whole round
(`Plan.thinning_assemblyRound`).
-/

namespace StagePlanner

namespace Stage

/-- The ports of the first stage are some of those of the second one, in the same order. -/
structure Thins (result stage : Stage) : Prop where
  id : result.id = stage.id
  inputs : (result.inputs.map StagePort.marker).Sublist (stage.inputs.map StagePort.marker)
  outputs : (result.outputs.map StagePort.marker).Sublist (stage.outputs.map StagePort.marker)

variable {stage result : Stage}

theorem Thins.refl (stage : Stage) : stage.Thins stage := ⟨rfl, .refl _, .refl _⟩

theorem Thins.trans {middle : Stage} (later : result.Thins middle) (earlier : middle.Thins stage) :
    result.Thins stage :=
  ⟨later.id.trans earlier.id, later.inputs.trans earlier.inputs, later.outputs.trans earlier.outputs⟩

/-! ### Edits of stages -/

theorem thins_rewired (stage : Stage) (graph : Graph) : { stage with graph }.Thins stage :=
  ⟨rfl, .refl _, .refl _⟩

theorem thins_widenInput (stage : Stage) (id : StagePortId) (origins : OrderedSet OperatorId) :
    (stage.widenInput id origins).Thins stage := by
  refine ⟨rfl, ?_, .refl _⟩
  rw [widenInput, List.map_map, List.map_congr_left fun port _ => ?_]
  simp only [Function.comp_apply]
  split <;> rfl

theorem thins_widenOutput (stage : Stage) (id : StagePortId) (origins : OrderedSet OperatorId) :
    (stage.widenOutput id origins).Thins stage := by
  refine ⟨rfl, .refl _, ?_⟩
  rw [widenOutput, List.map_map, List.map_congr_left fun port _ => ?_]
  simp only [Function.comp_apply]
  split <;> rfl

theorem thins_removeInput {id : StagePortId} (succeeds : stage.removeInput id = .ok result) :
    result.Thins stage := by
  rw [removeInput] at succeeds
  split at succeeds
  · cases succeeds
  · obtain ⟨graph, -, rest⟩ := bind_eq_ok_iff.1 succeeds
    cases rest
    exact ⟨rfl, List.filter_sublist.map _, .refl _⟩

theorem thins_removeOutput {id : StagePortId} (succeeds : stage.removeOutput id = .ok result) :
    result.Thins stage := by
  rw [removeOutput] at succeeds
  split at succeeds
  · cases succeeds
  · obtain ⟨graph, -, rest⟩ := bind_eq_ok_iff.1 succeeds
    cases rest
    exact ⟨rfl, .refl _, List.filter_sublist.map _⟩

theorem thins_mergeOutputs {kept absorbed : StagePort}
    (succeeds : stage.mergeOutputs kept absorbed = .ok result) : result.Thins stage := by
  obtain ⟨graph, -, removed⟩ := bind_eq_ok_iff.1 succeeds
  exact ((thins_removeOutput removed).trans (thins_widenOutput _ _ _)).trans (thins_rewired stage graph)

theorem thins_mergeInputs {kept absorbed : StagePort}
    (succeeds : stage.mergeInputs kept absorbed = .ok result) : result.Thins stage := by
  obtain ⟨graph, -, removed⟩ := bind_eq_ok_iff.1 succeeds
  exact ((thins_removeInput removed).trans (thins_widenInput _ _ _)).trans (thins_rewired stage graph)

theorem thins_removeOutputs {outputs : List StagePort}
    (succeeds : stage.removeOutputs outputs = .ok result) : result.Thins stage :=
  of_foldlM (fun _ _ _ removed thins => (thins_removeOutput removed).trans thins) succeeds
    (.refl stage)

theorem thins_removeInputs {inputs : List StagePort}
    (succeeds : stage.removeInputs inputs = .ok result) : result.Thins stage :=
  of_foldlM (fun _ _ _ removed thins => (thins_removeInput removed).trans thins) succeeds
    (.refl stage)

theorem thins_prune? (succeeds : stage.prune? = .ok (some result)) : result.Thins stage := by
  rw [prune?] at succeeds
  split at succeeds
  · cases succeeds
  · obtain ⟨alive, removed, same⟩ := map_eq_ok_iff.1 succeeds
    exact Option.some.inj same ▸ (thins_removeInputs removed).trans (thins_rewired stage _)

end Stage

namespace Plan

/-- Every stage of the first plan is one of the second plan, perhaps with fewer ports. -/
def Thins (result plan : Plan) : Prop := ∀ new ∈ result.stages, ∃ old ∈ plan.stages, new.Thins old

variable {plan result middle : Plan} {equivalence : Equivalence}

theorem Thins.refl (plan : Plan) : plan.Thins plan := fun stage isStage => ⟨stage, isStage, .refl stage⟩

theorem Thins.trans (later : result.Thins middle) (earlier : middle.Thins plan) :
    result.Thins plan := by
  intro new isNew
  obtain ⟨between, isBetween, second⟩ := later new isNew
  obtain ⟨old, isOld, first⟩ := earlier between isBetween
  exact ⟨old, isOld, second.trans first⟩

theorem mem_of_stage_eq_ok {id : StageId} {stage : Stage} (found : plan.stage id = .ok stage) :
    stage ∈ plan.stages := by
  rw [Plan.stage] at found
  split at found
  · next isThere =>
    cases found
    exact List.mem_of_find?_eq_some isThere
  · cases found

theorem thins_replace {stage new : Stage} (isStage : stage ∈ plan.stages) (thins : new.Thins stage) :
    (plan.replace new).Thins plan := by
  intro changed isChanged
  obtain ⟨other, isOther, rfl⟩ := List.mem_map.1 isChanged
  split
  · exact ⟨stage, isStage, thins⟩
  · exact ⟨other, isOther, .refl other⟩

theorem thins_widenOutput (plan : Plan) (origins : OrderedSet OperatorId) (address : PortAddress) :
    (plan.widenOutput origins address).Thins plan := by
  rw [widenOutput]
  split
  · next stage found =>
    exact thins_replace (List.mem_of_find?_eq_some found) (Stage.thins_widenOutput stage _ _)
  · exact .refl plan

/-! ### Passes -/

/-- A pass leaves the ports in their order. -/
def Thinning (pass : Plan → Except Fault Plan) : Prop :=
  ∀ plan result : Plan, pass plan = .ok result → result.Thins plan

namespace Thinning

variable {pass next : Plan → Except Fault Plan}

theorem bind (first : Thinning pass) (later : Thinning next) :
    Thinning fun plan => pass plan >>= next := by
  intro plan result succeeds
  obtain ⟨middle, before, after⟩ := bind_eq_ok_iff.1 succeeds
  exact (later middle result after).trans (first plan middle before)

theorem runIf (enabled : Bool) (thinning : Thinning pass) : Thinning (runIf enabled pass) := by
  intro plan result succeeds
  rw [Plan.runIf] at succeeds
  split at succeeds
  · exact thinning plan result succeeds
  · cases succeeds
    exact .refl plan

theorem settle (thinning : Thinning pass) : Thinning (settle pass) := by
  have bounded : ∀ rounds, Thinning (settleFor pass rounds) := by
    intro rounds
    induction rounds with
    | zero =>
      intro plan result succeeds
      cases succeeds
      exact .refl plan
    | succ more ih =>
      intro plan result succeeds
      obtain ⟨middle, before, after⟩ := bind_eq_ok_iff.1 succeeds
      split at after
      · exact (ih middle result after).trans (thinning plan middle before)
      · cases after
        exact thinning plan _ before
  exact fun plan => bounded plan.weight plan

end Thinning

theorem thinning_mergeOutputPair (test : Plan → Stage → StagePort → StagePort → Bool) :
    Thinning (mergeOutputPair equivalence test) := by
  intro plan result succeeds
  rw [mergeOutputPair] at succeeds
  split at succeeds
  · cases succeeds
    exact .refl plan
  · next stage kept absorbed found =>
    obtain ⟨isStage, -⟩ := of_findSome?_labelled found
    obtain ⟨new, merged, rfl⟩ := map_eq_ok_iff.1 succeeds
    exact thins_replace isStage (Stage.thins_mergeOutputs merged)

theorem thinning_mergeInputPair : Thinning (mergeInputPair equivalence) := by
  intro plan result succeeds
  rw [mergeInputPair] at succeeds
  split at succeeds
  · cases succeeds
    exact .refl plan
  · next stage kept absorbed found =>
    obtain ⟨isStage, -⟩ := of_findSome?_labelled found
    obtain ⟨new, merged, rfl⟩ := map_eq_ok_iff.1 succeeds
    exact thins_replace isStage (Stage.thins_mergeInputs merged)

theorem thinning_dissolveForwarded : Thinning dissolveForwarded := by
  intro plan result succeeds
  rw [dissolveForwarded] at succeeds
  split at succeeds
  · cases succeeds
    exact .refl plan
  · next found output producers isForwarded =>
    have widened : (producers.foldl (fun plan producer => plan.widenOutput output.origins producer)
        plan).Thins plan := by
      clear succeeds isForwarded
      induction producers generalizing plan with
      | nil => exact .refl plan
      | cons producer others ih => exact (ih _).trans (thins_widenOutput plan _ producer)
    obtain ⟨stage, isFound, rest⟩ := bind_eq_ok_iff.1 succeeds
    obtain ⟨shortened, removed, rest⟩ := bind_eq_ok_iff.1 rest
    cases rest
    exact (thins_replace (mem_of_stage_eq_ok isFound) (Stage.thins_removeOutput removed)).trans widened

theorem thinning_dropUnread : Thinning dropUnread := by
  intro plan result succeeds
  obtain ⟨stages, removed, rest⟩ := bind_eq_ok_iff.1 succeeds
  cases rest
  intro new isNew
  obtain ⟨old, isOld, isRemoved⟩ := exists_partner (mapM_eq_ok_iff.1 removed) isNew
  exact ⟨old, isOld, Stage.thins_removeOutputs isRemoved⟩

theorem thinning_prune : Thinning prune := by
  intro plan result succeeds
  obtain ⟨stages, pruned, rest⟩ := bind_eq_ok_iff.1 succeeds
  cases rest
  intro new isNew
  obtain ⟨kept, isKept, same⟩ := List.mem_filterMap.1 isNew
  obtain ⟨old, isOld, isPruned⟩ := exists_partner (mapM_eq_ok_iff.1 pruned) isKept
  exact ⟨old, isOld, Stage.thins_prune? (isPruned.trans (congrArg _ same))⟩

/-- A round of assembly leaves the ports in their order, whatever passes it runs. -/
theorem thinning_assemblyRound (passes : AssemblyPasses) (equivalence : Equivalence) :
    Thinning (assemblyRound passes equivalence) :=
  ((thinning_mergeOutputPair _).settle.runIf _).bind
    ((thinning_mergeInputPair.settle.runIf _).bind
      (((thinning_mergeOutputPair _).settle.runIf _).bind
        ((thinning_dissolveForwarded.settle.runIf _).bind
          ((thinning_dropUnread.runIf _).bind thinning_prune))))

end Plan

end StagePlanner
