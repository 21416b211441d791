import StagePlanner.Proofs.Assembly.Settlement

/-!
# Assembled plans are schedules

A step of assembly adds no dependency that was not there before, directly or through other stages:
merging ports unites origins within one stage, and where an output is dissolved, the stages behind
it depended on those before it already. So no step closes a circuit, and assembly of a grouped
graph succeeds with a plan that can be put into an order.
-/

namespace StagePlanner

open Relation

/-- The origins of the ports of the first list are origins of ports of the second one. -/
def StagePort.Covered (ports olds : List StagePort) : Prop :=
  ∀ port ∈ ports, ∀ origin ∈ port.origins, ∃ old ∈ olds, origin ∈ old.origins

theorem StagePort.Covered.of_subset {ports olds : List StagePort}
    (subset : ∀ port ∈ ports, port ∈ olds) : StagePort.Covered ports olds :=
  fun port isPort _ isOrigin => ⟨port, subset port isPort, isOrigin⟩

/-- Ports of which one was merged into another one stand for nothing new. -/
theorem StagePort.Covered.of_merged {ports olds : List StagePort} {kept absorbed : StagePort}
    (isKept : kept ∈ olds) (isAbsorbed : absorbed ∈ olds)
    (merged : ∀ port, port ∈ ports ↔
      (port ∈ olds ∧ port ≠ kept ∧ port ≠ absorbed) ∨ port = kept.widened absorbed.origins) :
    StagePort.Covered ports olds := by
  intro port isPort origin isOrigin
  rcases (merged port).1 isPort with ⟨isOld, -⟩ | rfl
  · exact ⟨port, isOld, isOrigin⟩
  · rcases OrderedSet.mem_union.1 isOrigin with inKept | inAbsorbed
    · exact ⟨kept, isKept, inKept⟩
    · exact ⟨absorbed, isAbsorbed, inAbsorbed⟩

/-- Stages supply each other when stages with the same origins did. -/
theorem Stage.Supplies.of_covered {producer consumer oldProducer oldConsumer : Stage}
    (supplies : producer.Supplies consumer)
    (outputs : StagePort.Covered producer.outputs oldProducer.outputs)
    (inputs : StagePort.Covered consumer.inputs oldConsumer.inputs) :
    oldProducer.Supplies oldConsumer := by
  obtain ⟨output, isOutput, input, isInput, origin, inOutput, inInput⟩ := supplies
  obtain ⟨oldOutput, isOldOutput, inOldOutput⟩ := outputs output isOutput origin inOutput
  obtain ⟨oldInput, isOldInput, inOldInput⟩ := inputs input isInput origin inInput
  exact ⟨oldOutput, isOldOutput, oldInput, isOldInput, origin, inOldOutput, inOldInput⟩

namespace Plan

variable {plan result : Plan}

theorem depends_of_links {producer consumer : Stage} (isProducer : producer ∈ plan.stages)
    (isConsumer : consumer ∈ plan.stages) (supplies : producer.Supplies consumer) :
    plan.dependencies.Depends consumer.id producer.id :=
  depends_dependencies.2 ⟨producer, consumer, ⟨isProducer, isConsumer, supplies⟩, rfl, rfl⟩

/-- Where all ports stand for what they stood for before, there are no new dependencies. -/
theorem depends_of_covered
    (covered : ∀ stage ∈ result.stages, ∃ old ∈ plan.stages, stage.id = old.id ∧
      StagePort.Covered stage.inputs old.inputs ∧ StagePort.Covered stage.outputs old.outputs)
    {target source : StageId} (depends : result.dependencies.Depends target source) :
    plan.dependencies.Depends target source := by
  obtain ⟨producer, consumer, ⟨isProducer, isConsumer, supplies⟩, rfl, rfl⟩ :=
    depends_dependencies.1 depends
  obtain ⟨oldProducer, isOldProducer, sameProducer, -, outputs⟩ := covered producer isProducer
  obtain ⟨oldConsumer, isOldConsumer, sameConsumer, inputs, -⟩ := covered consumer isConsumer
  rw [sameProducer, sameConsumer]
  exact depends_of_links isOldProducer isOldConsumer (supplies.of_covered outputs inputs)

theorem ChangesOnly.covered {stage : Stage} {becomes : Stage → Prop} (isStage : stage ∈ plan.stages)
    (changes : result.ChangesOnly plan stage becomes)
    (covers : ∀ new, becomes new → new.id = stage.id ∧
      StagePort.Covered new.inputs stage.inputs ∧ StagePort.Covered new.outputs stage.outputs) :
    ∀ new ∈ result.stages, ∃ old ∈ plan.stages, new.id = old.id ∧
      StagePort.Covered new.inputs old.inputs ∧ StagePort.Covered new.outputs old.outputs := by
  intro new isNew
  obtain ⟨old, isOld, ⟨-, became⟩ | ⟨-, rfl⟩⟩ := exists_partner changes isNew
  · exact ⟨stage, isStage, covers new became⟩
  · exact ⟨new, isOld, rfl, .of_subset fun _ => id, .of_subset fun _ => id⟩

/-- A dependency after a step is a dependency before it, direct or not. -/
theorem Step.depends {equivalence : Equivalence} (step : Step equivalence plan result)
    {target source : StageId} (depends : result.dependencies.Depends target source) :
    TransGen plan.dependencies.Depends target source := by
  cases step with
  | trim trims =>
    refine .single (depends_of_covered (fun stage isStage => ?_) depends)
    obtain ⟨old, isOld, _, restricts, -⟩ := trims.stages stage isStage
    exact ⟨old, isOld, restricts.id, .of_subset fun _ isInput => restricts.inputs.subset isInput,
      .of_subset fun _ isOutput => restricts.outputs.subset isOutput⟩
  | mergeOutputs isStage isKept isAbsorbed _ _ _ changes =>
    refine .single (depends_of_covered (changes.covered isStage ?_) depends)
    rintro new ⟨-, merges⟩
    exact ⟨merges.id, .of_subset fun port => (merges.inputs port).1,
      .of_merged isKept isAbsorbed merges.outputs⟩
  | mergeInputs isStage isKept isAbsorbed _ _ _ changes =>
    refine .single (depends_of_covered (changes.covered isStage ?_) depends)
    rintro new ⟨-, merges⟩
    exact ⟨merges.id, .of_merged isKept isAbsorbed merges.inputs,
      .of_subset fun port => (merges.outputs port).1⟩
  | @dissolve found output input isFound isOutput isInput _ _ changes =>
    obtain ⟨producer, consumer, ⟨isProducer, isConsumer, supplies⟩, rfl, rfl⟩ :=
      depends_dependencies.1 depends
    obtain ⟨oldProducer, isOldProducer, fromProducer⟩ := exists_partner changes isProducer
    obtain ⟨oldConsumer, isOldConsumer, fromConsumer⟩ := exists_partner changes isConsumer
    obtain ⟨port, isPort, read, isRead, origin, inPort, inRead⟩ := supplies
    obtain ⟨former, isFormer, -, rfl⟩ := (fromProducer.outputs port).1 isPort
    have isOldRead := (fromConsumer.inputs read).1 isRead
    rw [fromProducer.id, fromConsumer.id]
    rcases StagePort.mem_origins_takingOver.1 inPort with inFormer | ⟨meets, inOutput⟩
    · exact .single (depends_of_links isOldProducer isOldConsumer
        ⟨former, isFormer, read, isOldRead, origin, inFormer, inRead⟩)
    · -- The output that took over fed the stage whose output is dissolved.
      have before := depends_of_links isOldProducer isFound ⟨former, isFormer, input, isInput, meets⟩
      have after := depends_of_links isFound isOldConsumer
        ⟨output, isOutput, read, isOldRead, origin, inOutput, inRead⟩
      exact .tail (.single after) before

/-- Steps close no circuit. -/
theorem circuitless_of_steps {equivalence : Equivalence}
    (circuitless : Circuitless plan.dependencies.Depends)
    (steps : ReflTransGen (Step equivalence) plan result) :
    Circuitless result.dependencies.Depends := by
  induction steps with
  | refl => exact circuitless
  | tail _ last ih => exact ih.of_shortcuts fun _ _ => last.depends

section Assembled

variable {primitive merged : Plan} {graph : Graph} {groups : List (List StageId)}
  (isMerged : primitive.merged graph groups = .ok merged) (sound : merged.Sound)
  (circuitless : Circuitless merged.dependencies.Depends) {passes : AssemblyPasses}
  {equivalence : Equivalence} {step : Plan → Plan → Prop}
  (refines : ∀ plan result, step plan result → Step equivalence plan result)
  (performs : Performs step (assemblyRound passes equivalence))

include isMerged sound circuitless refines performs

/-- A merged plan without circuits is settled by steps, then it is tidied and its stages may change
places, into their order if that is wanted. -/
theorem exists_settled :
    ∃ settled plan, merged.settle (assemblyRound passes equivalence) = .ok settled ∧
      primitive.assemble graph groups passes equivalence = .ok plan ∧
      ReflTransGen step merged settled ∧ settled.Sound ∧
      plan.stages.Perm settled.tidied.stages ∧ plan.Sound ∧
      Circuitless plan.dependencies.Depends ∧
      (passes.sorting = true → plan.order = .ok plan.stageIds) := by
  obtain ⟨settled, isSettled, steps, settledSound, assembled⟩ := assemble_eq isMerged sound
    (fun plan result planSound next => (refines plan result next).sound planSound) performs
  have settledCircuitless := circuitless_of_steps circuitless
    (ReflTransGen.mono refines _ _ steps)
  have tidiedSound := tidied_sound settledSound
  obtain ⟨plan, isPlan, same, sorted⟩ := exists_finished tidiedSound.distinct
    (settledCircuitless.mono fun _ _ => depends_tidied.1) passes
  refine ⟨settled, plan, isSettled, assembled.trans isPlan, steps, settledSound, same,
    sound_of_perm same tidiedSound, ?_, sorted⟩
  exact settledCircuitless.mono fun _ _ depends => depends_tidied.1 ((depends_of_perm same).1 depends)

/-- A merged plan without circuits is assembled. -/
theorem exists_assembled :
    ∃ settled plan, primitive.assemble graph groups passes equivalence = .ok plan ∧
      ReflTransGen step merged settled ∧ settled.Sound ∧
      plan.stages.Perm settled.tidied.stages ∧ plan.Sound ∧
      Circuitless plan.dependencies.Depends ∧ (passes.sorting = true → plan.InOrder) := by
  obtain ⟨settled, plan, -, isPlan, steps, settledSound, same, planSound, planCircuitless, sorted⟩ :=
    exists_settled isMerged sound circuitless refines performs
  exact ⟨settled, plan, isPlan, steps, settledSound, same, planSound, planCircuitless,
    fun sorting => inOrder_of_order (sorted sorting)⟩

end Assembled

end Plan

/-- Assembly of a grouped graph succeeds, whatever passes it runs and however ports are compared.
The stages of the result have distinct identifiers and no circuit, and with sorting every
connection leads from an earlier to a later stage. -/
theorem assemble_schedules {graph : Graph} {primitive : Plan} {groups : List StageGroup}
    (grouped : Grouped graph primitive groups) (single : graph.SinglePortMarkers)
    (passes : AssemblyPasses) (equivalence : Equivalence) :
    ∃ plan, primitive.assemble graph (groups.map StageGroup.elements) passes equivalence = .ok plan ∧
      plan.stageIds.Nodup ∧ Circuitless plan.dependencies.Depends ∧
      (passes.sorting = true → plan.InOrder) := by
  obtain ⟨_, _, merged, _, isMerged, merging⟩ := grouped.exists_merging
  obtain ⟨-, plan, isPlan, -, -, -, sound, circuitless, inOrder⟩ := Plan.exists_assembled isMerged
    (merging.planSound single) merging.mergedPlan.circuitless (fun _ _ step => step)
    (Plan.performs_assemblyRound passes equivalence)
  exact ⟨plan, isPlan, sound.distinct, circuitless, inOrder⟩

theorem assemble_schedules_sample : ∃ primitive groups plan, Grouped Graph.sample primitive groups ∧
    Graph.sample.SinglePortMarkers ∧
    primitive.assemble Graph.sample (groups.map StageGroup.elements) .all .byContent = .ok plan ∧
    plan.stageIds.Nodup ∧ Circuitless plan.dependencies.Depends ∧ plan.InOrder := by
  obtain ⟨primitive, groups, grouped⟩ := Graph.exists_grouped_sample
  have single := Graph.singlePortMarkers_sample
  obtain ⟨plan, isPlan, distinct, circuitless, inOrder⟩ :=
    assemble_schedules grouped single .all .byContent
  exact ⟨primitive, groups, plan, grouped, single, isPlan, distinct, circuitless, inOrder rfl⟩

end StagePlanner
