import StagePlanner.Plan.Assembly
import StagePlanner.Proofs.Assembly.Takeover

/-!
# Passes of assembly

Every pass succeeds on sound plans and is a sequence of steps: `Performs` states this for one kind
of steps, and it carries over to repetition, to passes that may be switched off and to sequences of
passes.

* `performs_assemblyRound`: a round of assembly performs steps, whatever passes it runs.
* `performs_idleRound`: with all passes off it only trims and drops no output.
-/

namespace StagePlanner

open Relation

namespace Plan

variable {plan : Plan}

/-- A pass succeeds on sound plans and performs steps of some kind. -/
def Performs (step : Plan → Plan → Prop) (pass : Plan → Except Fault Plan) : Prop :=
  ∀ plan : Plan, plan.Sound → ∃ result, pass plan = .ok result ∧ ReflTransGen step plan result

/-! ### Sequences of passes -/

section Sequences

variable {step : Plan → Plan → Prop}
  (keeps : ∀ plan result, plan.Sound → step plan result → result.Sound)
  {pass next : Plan → Except Fault Plan}

include keeps

theorem sound_of_steps {result : Plan} (sound : plan.Sound) (steps : ReflTransGen step plan result) :
    result.Sound := by
  induction steps with
  | refl => exact sound
  | tail _ last ih => exact keeps _ _ ih last

theorem Performs.bind (first : Performs step pass) (later : Performs step next) :
    Performs step fun plan => pass plan >>= next := by
  intro plan sound
  obtain ⟨middle, isMiddle, before⟩ := first plan sound
  obtain ⟨result, isResult, after⟩ := later middle (sound_of_steps keeps sound before)
  exact ⟨result, (congrArg (· >>= next) isMiddle).trans isResult, before.trans after⟩

theorem Performs.settle (performs : Performs step pass) : Performs step (settle pass) := by
  have bounded : ∀ rounds, Performs step (settleFor pass rounds) := by
    intro rounds
    induction rounds with
    | zero => exact fun plan _ => ⟨plan, rfl, .refl⟩
    | succ more ih =>
      intro plan sound
      obtain ⟨middle, isMiddle, before⟩ := performs plan sound
      have round : settleFor pass (more + 1) plan =
          if middle.weight < plan.weight then settleFor pass more middle else .ok middle := by
        rw [settleFor, isMiddle]
        rfl
      rw [round]
      split
      · obtain ⟨result, isResult, after⟩ := ih middle (sound_of_steps keeps sound before)
        exact ⟨result, isResult, before.trans after⟩
      · exact ⟨middle, rfl, before⟩
  exact fun plan => bounded plan.weight plan

omit keeps in
theorem Performs.runIf (enabled : Bool) (performs : Performs step pass) :
    Performs step (runIf enabled pass) := by
  intro plan sound
  rw [Plan.runIf]
  split
  · exact performs plan sound
  · exact ⟨plan, rfl, .refl⟩

end Sequences

/-! ### Merging -/

variable {equivalence : Equivalence}

/-- Merging two outputs is a step when the test accepts only outputs that may be merged. -/
theorem performs_mergeOutputPair {test : Plan → Stage → StagePort → StagePort → Bool}
    (mergeable : ∀ plan : Plan, plan.Sound → ∀ stage ∈ plan.stages, ∀ left ∈ stage.outputs,
      ∀ right ∈ stage.outputs, test plan stage left right = true →
        stage.SameFeeders left right ∨ plan.SameConsumers left right) :
    Performs (Step equivalence) (mergeOutputPair equivalence test) := by
  intro plan sound
  rw [mergeOutputPair]
  split
  · exact ⟨plan, rfl, .refl⟩
  · next stage kept absorbed found =>
    obtain ⟨isStage, isKept, isAbsorbed, differ, equivalent, accepted⟩ :=
      sound.proper.outputPair?_spec found
    obtain ⟨merged, isMerged, mergedSound, merges⟩ :=
      (sound.stages stage isStage).exists_mergeOutputs isKept isAbsorbed differ
    refine ⟨plan.replace merged, by rw [isMerged]; rfl, .single ?_⟩
    exact .mergeOutputs isStage isKept isAbsorbed differ equivalent
      (mergeable plan sound stage isStage kept isKept absorbed isAbsorbed accepted)
      (changesOnly_replace sound.distinct isStage merges.id ⟨mergedSound, merges⟩)

theorem performs_mergeInputPair : Performs (Step equivalence) (mergeInputPair equivalence) := by
  intro plan sound
  rw [mergeInputPair]
  split
  · exact ⟨plan, rfl, .refl⟩
  · next stage kept absorbed found =>
    obtain ⟨isStage, isKept, isAbsorbed, differ, equivalent, accepted⟩ :=
      sound.proper.inputPair?_spec found
    obtain ⟨merged, isMerged, mergedSound, merges⟩ :=
      (sound.stages stage isStage).exists_mergeInputs isKept isAbsorbed differ
    refine ⟨plan.replace merged, by rw [isMerged]; rfl, .single ?_⟩
    exact .mergeInputs isStage isKept isAbsorbed differ equivalent
      (sound.proper.sameProducers_iff.1 accepted).2
      (changesOnly_replace sound.distinct isStage merges.id ⟨mergedSound, merges⟩)

theorem performs_dissolveForwarded {equivalence : Equivalence} :
    Performs (Step equivalence) dissolveForwarded := by
  intro plan sound
  rw [dissolveForwarded]
  split
  · exact ⟨plan, rfl, .refl⟩
  · next found output producers isForwarded =>
    obtain ⟨isFound, isOutput, input, forwards, rfl⟩ := sound.proper.forwarded?_spec isForwarded
    obtain ⟨stage, isStage, changes⟩ := sound.exists_dissolved isFound isOutput input
      (foldl_widenOutput_eq sound.distinct output.origins (plan.outputsFrom input.origins))
    refine ⟨_, ?_, .single (.dissolve isFound isOutput forwards.isInput
      ⟨forwards.outputKind, forwards.inputKind⟩
      ((sound.stages found isFound).forwards isOutput forwards) changes)⟩
    rw [← bind_assoc, isStage]
    rfl

/-! ### Rounds -/

theorem performs_prune : Performs (fun plan result => result.Trims plan fun _ _ => True) prune := by
  intro plan sound
  obtain ⟨result, isResult, trims⟩ := sound.proper.exists_prune
  exact ⟨result, isResult, .single trims⟩

section Rounds

variable (equivalence : Equivalence)

theorem step_sound : ∀ plan result : Plan, plan.Sound → Step equivalence plan result → result.Sound :=
  fun _ _ sound step => step.sound sound

theorem performs_unifyOutputs : Performs (Step equivalence) (unifyOutputs equivalence) :=
  .settle (step_sound equivalence) (performs_mergeOutputPair fun _ sound _ isStage _ _ _ _ accepted =>
    .inl ((sound.proper.sameFeeders_iff isStage).1 accepted))

theorem performs_unifyInputs : Performs (Step equivalence) (unifyInputs equivalence) :=
  .settle (step_sound equivalence) performs_mergeInputPair

theorem performs_pushUnions : Performs (Step equivalence) (pushUnions equivalence) :=
  .settle (step_sound equivalence) (performs_mergeOutputPair fun _ sound _ _ _ _ _ _ accepted =>
    .inr (sound.proper.sameConsumers_iff.1 accepted).2)

theorem performs_dissolveCheckpoints : Performs (Step equivalence) dissolveCheckpoints :=
  .settle (step_sound equivalence) performs_dissolveForwarded

theorem performs_dropUnread : Performs (Step equivalence) dropUnread := by
  intro plan sound
  obtain ⟨result, isResult, trims⟩ := sound.proper.exists_dropUnread
  exact ⟨result, isResult, .single (.trim trims)⟩

/-- Whatever is done after the passes of a round, on what they leave, is done after steps. -/
theorem round_of_last (passes : AssemblyPasses) {property : (Plan → Except Fault Plan) → Prop}
    (last : property prune)
    (after : ∀ first next : Plan → Except Fault Plan, Performs (Step equivalence) first →
      property next → property fun plan => first plan >>= next) :
    property (assemblyRound passes equivalence) :=
  after _ _ ((performs_unifyOutputs equivalence).runIf _)
    (after _ _ ((performs_unifyInputs equivalence).runIf _)
      (after _ _ ((performs_pushUnions equivalence).runIf _)
        (after _ _ ((performs_dissolveCheckpoints equivalence).runIf _)
          (after _ _ ((performs_dropUnread equivalence).runIf _) last))))

end Rounds

/-- A round of assembly performs steps, whatever passes it runs. -/
theorem performs_assemblyRound (passes : AssemblyPasses) (equivalence : Equivalence) :
    Performs (Step equivalence) (assemblyRound passes equivalence) := by
  refine round_of_last equivalence passes ?_ fun first next performs later =>
    performs.bind (step_sound equivalence) later
  intro plan sound
  obtain ⟨result, isResult, trims⟩ := sound.proper.exists_prune
  exact ⟨result, isResult, .single (.trim (trims.mono fun _ _ _ => trivial))⟩

/-- With all passes off a round of assembly only prunes. -/
theorem performs_idleRound (sorting : Bool) (equivalence : Equivalence) :
    Performs (fun plan result => result.Trims plan fun _ _ => True)
      (assemblyRound { sorting } equivalence) := by
  intro plan sound
  exact performs_prune plan sound

end Plan

end StagePlanner
