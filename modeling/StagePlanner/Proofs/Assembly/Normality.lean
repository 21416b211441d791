import StagePlanner.Proofs.Assembly.Looping
import StagePlanner.Proofs.Assembly.Settlement
import StagePlanner.Proofs.Merging.Cut

/-!
# Normal forms of assembly

The passes of assembly enable each other: merged inputs have more producers in common, a dissolved
output gives its origins away, and pruning leaves outputs unread. So rounds follow each other until one
of them changes nothing, and in the plan that is left no pass finds anything: it is `Plan.Normal`.

* `Plan.normal_of_round`: a plan that a round leaves as it is is normal.
* `Plan.merged_settles`: the loop of assembly ends on every merged plan and leaves a normal one, so that
  assembled plans are normal.
-/

namespace StagePlanner

open Relation

/-- In a stage without dead operators and unused inputs every operator is live: what an input feeds is
no input. -/
theorem Stage.Proper.mem_live_of_idle {stage : Stage} (proper : stage.Proper)
    (noneDead : stage.deadOperators = []) (noneUnused : stage.unusedInputs = []) {operator : Operator}
    (member : operator ∈ stage.graph.operators) : operator.id ∈ stage.live := by
  have liveOrInput : ∀ other ∈ stage.graph.operators,
      other.id ∈ stage.live ∨ ∃ port ∈ stage.inputs, port.marker = other.id := by
    intro other isOther
    by_contra neither
    obtain ⟨notLive, noInput⟩ := not_or.1 neither
    have dead := proper.mem_deadOperators.2 ⟨isOther, notLive, fun port isInput same =>
      noInput ⟨port, isInput, same⟩⟩
    rw [noneDead] at dead
    cases dead
  rcases liveOrInput operator member with live | ⟨port, isInput, same⟩
  · exact live
  · have used := List.filter_eq_nil_iff.1 noneUnused port isInput
    rw [OrderedSet.isEmpty_iff, not_forall] at used
    obtain ⟨target, isTarget⟩ := used
    have feeds := (Graph.mem_successors proper.wellFormed).1 (not_not.1 isTarget)
    obtain ⟨reader, isReader, rfl⟩ := feeds.operators.2
    rcases liveOrInput reader isReader with live | ⟨other, isOther, sameOther⟩
    · exact same ▸ proper.live_of_feeds feeds live
    · exact absurd (sameOther ▸ feeds) (proper.unfed other isOther _)

namespace Plan

/-- Nothing is left to be done in a plan by the passes that are switched on. -/
structure Normal (passes : AssemblyPasses) (equivalence : Equivalence) (plan : Plan) : Prop where
  /-- Equivalent outputs of a stage are fed by different ports. -/
  feeders : passes.redundantPorts = true → ∀ stage ∈ plan.stages, ∀ left ∈ stage.outputs,
    ∀ right ∈ stage.outputs, left ≠ right →
    equivalence.key stage left.marker = equivalence.key stage right.marker →
    ¬ stage.SameFeeders left right
  /-- Equivalent inputs of a stage are written by different outputs, unless nobody writes them. -/
  producers : passes.redundantPorts = true → ∀ stage ∈ plan.stages, ∀ left ∈ stage.inputs,
    ∀ right ∈ stage.inputs, left ≠ right →
    equivalence.key stage left.marker = equivalence.key stage right.marker →
    plan.IsWritten left → ¬ plan.SameProducers left right
  /-- Equivalent outputs of a stage are read by different inputs, unless nobody reads them. -/
  consumers : passes.unions = true → ∀ stage ∈ plan.stages, ∀ left ∈ stage.outputs,
    ∀ right ∈ stage.outputs, left ≠ right →
    equivalence.key stage left.marker = equivalence.key stage right.marker →
    plan.IsRead left → ¬ plan.SameConsumers left right
  /-- Nobody writes a checkpoint that is only forwarded to a checkpoint. -/
  checkpoints : passes.checkpoints = true → ∀ stage ∈ plan.stages, ∀ output ∈ stage.outputs,
    ∀ input, stage.ForwardsCheckpoint input output → ¬ plan.IsWritten input
  /-- Outputs are read, apart from those that are meant for nobody. -/
  read : passes.unreadOutputs = true → ∀ stage ∈ plan.stages, ∀ output ∈ stage.outputs,
    stage.marker? output ≠ some .finish → plan.IsRead output
  writes : ∀ stage ∈ plan.stages, stage.outputs ≠ []
  /-- Every operator reaches an output of its stage. -/
  live : ∀ stage ∈ plan.stages, ∀ operator ∈ stage.graph.operators,
    ∃ output ∈ stage.outputs, ReflTransGen stage.graph.Feeds operator.id output.marker

variable {plan : Plan} {equivalence : Equivalence}

/-! ### What steps leave alone -/

/-- Equivalent ports of which a test accepts no two, in the order in which they are listed, are not
what the test looks for, in any order. -/
theorem not_of_pairwise_rejected {ports : List StagePort} {key : StagePort → EquivalenceKey}
    {test : StagePort → StagePort → Bool} {alike : StagePort → StagePort → Prop}
    (meaning : ∀ left right, test left right = true ↔ alike left right)
    (symmetric : ∀ left right, alike left right → alike right left)
    (rejected : ports.Pairwise fun left right => key left = key right → test left right = false)
    {left right : StagePort} (isLeft : left ∈ ports) (isRight : right ∈ ports) (differ : left ≠ right)
    (equivalent : key left = key right) : ¬ alike left right := by
  have anyOrder : Std.Symm fun left right : StagePort => key left = key right → ¬ alike left right :=
    ⟨fun left right apart equivalent both => apart equivalent.symm (symmetric right left both)⟩
  have apart : ports.Pairwise fun left right => key left = key right → ¬ alike left right := by
    refine rejected.imp fun rejects equivalent => ?_
    rw [← meaning, rejects equivalent]
    exact Bool.false_ne_true
  exact apart.forall isLeft isRight differ equivalent

theorem SameConsumers.symm {left right : StagePort} (same : plan.SameConsumers left right) :
    plan.SameConsumers right left :=
  fun consumer isConsumer input isInput => (same consumer isConsumer input isInput).symm

theorem SameProducers.symm {left right : StagePort} (same : plan.SameProducers left right) :
    plan.SameProducers right left :=
  fun producer isProducer output isOutput => (same producer isProducer output isOutput).symm

theorem SameConsumers.isRead {left right : StagePort} (same : plan.SameConsumers left right)
    (isRead : plan.IsRead left) : plan.IsRead right := by
  obtain ⟨consumer, isConsumer, input, isInput, meets⟩ := isRead
  exact ⟨consumer, isConsumer, input, isInput, (same consumer isConsumer input isInput).1 meets⟩

theorem SameProducers.isWritten {left right : StagePort} (same : plan.SameProducers left right)
    (isWritten : plan.IsWritten left) : plan.IsWritten right := by
  obtain ⟨producer, isProducer, output, isOutput, meets⟩ := isWritten
  exact ⟨producer, isProducer, output, isOutput,
    (same producer isProducer output isOutput).1 meets⟩

namespace Proper

variable (proper : plan.Proper) {stage : Stage} (isStage : stage ∈ plan.stages)

include proper

theorem outputPair?_of_rests {test : Plan → Stage → StagePort → StagePort → Bool}
    (rests : mergeOutputPair equivalence test plan = .ok plan) :
    plan.outputPair? equivalence (test plan) = none := by
  rcases mergeOutputPair_spec proper rests with ⟨-, none⟩ | lightens
  · exact none
  · exact absurd rfl lightens.ne

theorem inputPair?_of_rests (rests : mergeInputPair equivalence plan = .ok plan) :
    plan.inputPair? equivalence = none := by
  rcases mergeInputPair_spec proper rests with ⟨-, none⟩ | lightens
  · exact none
  · exact absurd rfl lightens.ne

include isStage

theorem feeders_of_rests (rests : mergeOutputPair equivalence sameFeeders plan = .ok plan)
    {left right : StagePort} (isLeft : left ∈ stage.outputs) (isRight : right ∈ stage.outputs)
    (differ : left ≠ right)
    (equivalent : equivalence.key stage left.marker = equivalence.key stage right.marker) :
    ¬ stage.SameFeeders left right :=
  not_of_pairwise_rejected (fun _ _ => proper.sameFeeders_iff isStage)
    (fun _ _ same source => (same source).symm)
    (pairwise_of_outputPair?_eq_none (proper.outputPair?_of_rests rests) isStage) isLeft isRight differ
    equivalent

theorem consumers_of_rests (rests : mergeOutputPair equivalence sameConsumers plan = .ok plan)
    {left right : StagePort} (isLeft : left ∈ stage.outputs) (isRight : right ∈ stage.outputs)
    (differ : left ≠ right)
    (equivalent : equivalence.key stage left.marker = equivalence.key stage right.marker)
    (isRead : plan.IsRead left) : ¬ plan.SameConsumers left right := fun same =>
  not_of_pairwise_rejected (fun _ _ => proper.sameConsumers_iff)
    (fun _ _ both => ⟨both.2.isRead both.1, both.2.symm⟩)
    (pairwise_of_outputPair?_eq_none (proper.outputPair?_of_rests rests) isStage) isLeft isRight differ
    equivalent ⟨isRead, same⟩

theorem producers_of_rests (rests : mergeInputPair equivalence plan = .ok plan)
    {left right : StagePort} (isLeft : left ∈ stage.inputs) (isRight : right ∈ stage.inputs)
    (differ : left ≠ right)
    (equivalent : equivalence.key stage left.marker = equivalence.key stage right.marker)
    (isWritten : plan.IsWritten left) : ¬ plan.SameProducers left right := fun same =>
  not_of_pairwise_rejected (fun _ _ => proper.sameProducers_iff)
    (fun _ _ both => ⟨both.2.isWritten both.1, both.2.symm⟩)
    (pairwise_of_inputPair?_eq_none (proper.inputPair?_of_rests rests) isStage) isLeft isRight differ
    equivalent ⟨isWritten, same⟩

theorem not_isWritten_of_rests (rests : dissolveForwarded plan = .ok plan)
    {input output : StagePort} (isOutput : output ∈ stage.outputs)
    (forwards : stage.ForwardsCheckpoint input output) : ¬ plan.IsWritten input := by
  obtain ⟨result, isResult, ⟨-, none⟩ | lightens⟩ := dissolveForwarded_spec proper
  · exact proper.not_isWritten_of_forwarded?_eq_none none isStage isOutput forwards
  · exact absurd (Except.ok.inj (isResult.symm.trans rests)) lightens.ne

theorem isRead_of_rests (rests : dropUnread plan = .ok plan) {output : StagePort}
    (isOutput : output ∈ stage.outputs) (noFinish : stage.marker? output ≠ some .finish) :
    plan.IsRead output := by
  obtain ⟨result, isResult, ⟨-, none⟩ | lightens⟩ := dropUnread_spec proper
  · have stays := List.filter_eq_nil_iff.1 (none stage isStage) output isOutput
    by_contra unread
    refine stays (Bool.and_eq_true_iff.2 ⟨decide_eq_true noFinish, List.isEmpty_iff.2 ?_⟩)
    exact inputsFrom_eq_nil_iff.2 unread
  · exact absurd (Except.ok.inj (isResult.symm.trans rests)) lightens.ne

theorem live_of_rests (rests : prune plan = .ok plan) : stage.outputs ≠ [] ∧
    ∀ operator ∈ stage.graph.operators, operator.id ∈ stage.live := by
  obtain ⟨result, isResult, ⟨-, idle⟩ | lightens⟩ := prune_spec proper
  · obtain ⟨writes, noneDead, noneUnused⟩ := idle stage isStage
    exact ⟨writes, fun operator =>
      (proper.stages stage isStage).mem_live_of_idle noneDead noneUnused⟩
  · exact absurd (Except.ok.inj (isResult.symm.trans rests)) lightens.ne

end Proper

/-! ### Rounds -/

/-- A plan that a round leaves as it is is normal: each of its passes leaves the plan as it is. -/
theorem normal_of_round (proper : plan.Proper) {passes : AssemblyPasses}
    (rests : assemblyRound passes equivalence plan = .ok plan) : plan.Normal passes equivalence := by
  have outputs := shrinks_mergeOutputPair equivalence sameFeeders
  have inputs := shrinks_mergeInputPair equivalence
  have unions := shrinks_mergeOutputPair equivalence sameConsumers
  have dropping := (shrinks_dropUnread.runIf passes.unreadOutputs).bind shrinks_prune
  have dissolving := (shrinks_dissolveForwarded.settle.runIf passes.checkpoints).bind dropping
  have uniting := (unions.settle.runIf passes.unions).bind dissolving
  have merging := (inputs.settle.runIf passes.redundantPorts).bind uniting
  obtain ⟨unifiedOutputs, rests⟩ :=
    (outputs.settle.runIf passes.redundantPorts).rests_of_bind merging proper rests
  obtain ⟨unifiedInputs, rests⟩ :=
    (inputs.settle.runIf passes.redundantPorts).rests_of_bind uniting proper rests
  obtain ⟨united, rests⟩ := (unions.settle.runIf passes.unions).rests_of_bind dissolving proper rests
  obtain ⟨dissolved, rests⟩ :=
    (shrinks_dissolveForwarded.settle.runIf passes.checkpoints).rests_of_bind dropping proper rests
  obtain ⟨dropped, pruned⟩ :=
    (shrinks_dropUnread.runIf passes.unreadOutputs).rests_of_bind shrinks_prune proper rests
  have switchedOn : ∀ {enabled : Bool} {pass : Plan → Except Fault Plan}, enabled = true →
      plan.runIf enabled pass = .ok plan → pass plan = .ok plan := by
    rintro _ pass rfl rests
    exact rests
  exact {
    feeders := fun enabled stage isStage left isLeft right isRight =>
      proper.feeders_of_rests isStage
        (outputs.rests_of_settle proper (switchedOn enabled unifiedOutputs)) isLeft isRight
    producers := fun enabled stage isStage left isLeft right isRight =>
      proper.producers_of_rests isStage
        (inputs.rests_of_settle proper (switchedOn enabled unifiedInputs)) isLeft isRight
    consumers := fun enabled stage isStage left isLeft right isRight =>
      proper.consumers_of_rests isStage
        (unions.rests_of_settle proper (switchedOn enabled united)) isLeft isRight
    checkpoints := fun enabled stage isStage output isOutput input =>
      proper.not_isWritten_of_rests isStage
        (shrinks_dissolveForwarded.rests_of_settle proper (switchedOn enabled dissolved)) isOutput
    read := fun enabled stage isStage output =>
      proper.isRead_of_rests isStage (switchedOn enabled dropped)
    writes := fun stage isStage => (proper.live_of_rests isStage pruned).1
    live := fun stage isStage operator member =>
      (proper.stages stage isStage).mem_live.1 ((proper.live_of_rests isStage pruned).2 operator member) }

/-! ### Assembled plans -/

/-- A plan stays normal when its stages change places and forget the provenance of what is gone. -/
theorem Normal.of_tidied {result : Plan} {passes : AssemblyPasses}
    (normal : plan.Normal passes equivalence) (same : result.stages.Perm plan.tidied.stages) :
    result.Normal passes equivalence := by
  have stages : ∀ new, new ∈ result.stages ↔ ∃ old ∈ plan.stages, old.pruneProvenance = new :=
    fun new => same.mem_iff.trans List.mem_map
  have stillThere : ∀ {old}, old ∈ plan.stages → old.pruneProvenance ∈ result.stages :=
    fun {old} isOld => (stages _).2 ⟨old, isOld, rfl⟩
  have wasRead : ∀ {output}, result.IsRead output → plan.IsRead output := by
    rintro output ⟨consumer, isConsumer, input, isInput, meets⟩
    obtain ⟨old, isOld, rfl⟩ := (stages consumer).1 isConsumer
    exact ⟨old, isOld, input, isInput, meets⟩
  have wasWritten : ∀ {input}, result.IsWritten input → plan.IsWritten input := by
    rintro input ⟨producer, isProducer, output, isOutput, meets⟩
    obtain ⟨old, isOld, rfl⟩ := (stages producer).1 isProducer
    exact ⟨old, isOld, output, isOutput, meets⟩
  exact {
    feeders := fun enabled stage isStage => by
      obtain ⟨old, isOld, rfl⟩ := (stages stage).1 isStage
      exact normal.feeders enabled old isOld
    producers := fun enabled stage isStage left isLeft right isRight differ equivalent isWritten alike => by
      obtain ⟨old, isOld, rfl⟩ := (stages stage).1 isStage
      exact normal.producers enabled old isOld left isLeft right isRight differ equivalent
        (wasWritten isWritten) fun producer isProducer =>
          alike producer.pruneProvenance (stillThere isProducer)
    consumers := fun enabled stage isStage left isLeft right isRight differ equivalent isRead alike => by
      obtain ⟨old, isOld, rfl⟩ := (stages stage).1 isStage
      exact normal.consumers enabled old isOld left isLeft right isRight differ equivalent
        (wasRead isRead) fun consumer isConsumer =>
          alike consumer.pruneProvenance (stillThere isConsumer)
    checkpoints := fun enabled stage isStage output isOutput input forwards isWritten => by
      obtain ⟨old, isOld, rfl⟩ := (stages stage).1 isStage
      exact normal.checkpoints enabled old isOld output isOutput input
        ⟨forwards.isInput, forwards.outputKind, forwards.inputKind, forwards.only⟩ (wasWritten isWritten)
    read := fun enabled stage isStage output isOutput noFinish => by
      obtain ⟨old, isOld, rfl⟩ := (stages stage).1 isStage
      obtain ⟨consumer, isConsumer, input, isInput, meets⟩ :=
        normal.read enabled old isOld output isOutput noFinish
      exact ⟨_, stillThere isConsumer, input, isInput, meets⟩
    writes := fun stage isStage => by
      obtain ⟨old, isOld, rfl⟩ := (stages stage).1 isStage
      exact normal.writes old isOld
    live := fun stage isStage => by
      obtain ⟨old, isOld, rfl⟩ := (stages stage).1 isStage
      exact normal.live old isOld }

section Merged

variable {primitive merged : Plan} {graph : Graph} {groups : List (List StageId)}
  (wellFormed : graph.WellFormed) (isMerged : primitive.merged graph groups = .ok merged)

include wellFormed isMerged

/-- What rounds of assembly leave of a merged plan is proper and normal. -/
theorem normal_of_settle {passes : AssemblyPasses} {settled : Plan}
    (isSettled : merged.settle (assemblyRound passes equivalence) = .ok settled) :
    settled.Proper ∧ settled.Normal passes equivalence := by
  have proper := proper_of_merged wellFormed isMerged
  have shrinks := shrinks_assemblyRound equivalence passes
  have settledProper := shrinks.settle.proper proper isSettled
  exact ⟨settledProper, normal_of_round settledProper (shrinks.rests_of_settle proper isSettled)⟩

/-- The loop of assembly ends on every merged plan, whatever passes are switched on. When all markers of
the graph have ports it leaves a plan; and the plan that it leaves is normal, as is the plan that is
assembled from it. -/
theorem merged_settles (passes : AssemblyPasses) (equivalence : Equivalence) :
    (∀ outcome, Assembles passes equivalence merged outcome ↔
        outcome = merged.settle (assemblyRound passes equivalence)) ∧
      (graph.PortedMarkers → ∃ settled,
        merged.settle (assemblyRound passes equivalence) = .ok settled) ∧
      (∀ settled, merged.settle (assemblyRound passes equivalence) = .ok settled →
        settled.Normal passes equivalence) ∧
      ∀ plan, primitive.assemble graph groups passes equivalence = .ok plan →
        plan.Normal passes equivalence := by
  have proper := proper_of_merged wellFormed isMerged
  refine ⟨assembles_iff passes equivalence merged proper, fun ported => ?_, fun settled isSettled => ?_,
    fun plan isPlan => ?_⟩
  · exact (shrinks_assemblyRound equivalence passes).settle.succeeds merged proper
      (ported_of_merged wellFormed isMerged ported)
  · exact (normal_of_settle wellFormed isMerged isSettled).2
  · obtain ⟨other, isOther, isPlan⟩ := bind_eq_ok_iff.1 isPlan
    obtain rfl := Except.ok.inj (isMerged.symm.trans isOther)
    obtain ⟨settled, isSettled, isFinished⟩ := bind_eq_ok_iff.1 isPlan
    obtain ⟨settledProper, normal⟩ := normal_of_settle wellFormed isMerged isSettled
    have distinct : settled.tidied.stageIds.Nodup := by
      rw [stageIds_tidied]
      exact settledProper.distinct
    exact normal.of_tidied (perm_of_finished distinct isFinished)

end Merged

end Plan

/-- Two checkpoints after each other between BEGIN and END. -/
def Graph.checkpointChain : Graph :=
  let rows : DataType := .named "row"
  let markers : List Blueprint :=
    [.marker .begin rows, .marker .checkpoint rows, .marker .checkpoint rows, .marker .finish rows]
  let operators := markers.foldl (fun graph blueprint => (graph.add blueprint).2) Graph.empty
  ((operators.link ⟨1⟩ ⟨2⟩).link ⟨3⟩ ⟨4⟩).link ⟨5⟩ ⟨6⟩

theorem Graph.wellFormed_checkpointChain : Graph.checkpointChain.WellFormed where
  ascending := by decide +kernel
  operatorsBelow := by decide +kernel
  ports := by decide +kernel
  portsBelow := by decide +kernel
  sources := by
    change ∀ edge ∈ Graph.checkpointChain.edges.toList, _
    decide +kernel
  targets := by
    change ∀ edge ∈ Graph.checkpointChain.edges.toList, _
    decide +kernel

/-- The stage between the checkpoints is dissolved and goes. -/
theorem Plan.merged_settles_checkpointChain : Graph.checkpointChain.WellFormed ∧
    Graph.checkpointChain.PortedMarkers ∧ ∃ primitive merged settled : Plan,
      Graph.checkpointChain.primitivePlan = .ok primitive ∧
      primitive.merged Graph.checkpointChain [] = .ok merged ∧
      Assembles .all .byContent merged (.ok settled) ∧ settled.Normal .all .byContent ∧
      merged.stages.length = 3 ∧ settled.stages.length = 2 := by
  let outcome : Except Fault (Plan × Plan × Plan) := do
    let primitive ← Graph.checkpointChain.primitivePlan
    let merged ← primitive.merged Graph.checkpointChain []
    let settled ← merged.settle (assemblyRound .all .byContent)
    return (primitive, merged, settled)
  have computed : (outcome.map fun (_, merged, settled) =>
      (merged.stages.length, settled.stages.length)).toOption = some (3, 2) := by decide +kernel
  obtain ⟨plans, isOutcome, lengths⟩ := exists_of_map_toOption computed
  obtain ⟨primitive, isPrimitive, isOutcome⟩ := bind_eq_ok_iff.1 isOutcome
  obtain ⟨merged, isMerged, isOutcome⟩ := bind_eq_ok_iff.1 isOutcome
  obtain ⟨settled, isSettled, isOutcome⟩ := bind_eq_ok_iff.1 isOutcome
  cases isOutcome
  obtain ⟨atMerged, atSettled⟩ := Prod.mk.injEq .. ▸ lengths
  have ported : Graph.checkpointChain.PortedMarkers := by
    rw [Graph.PortedMarkers]
    decide +kernel
  obtain ⟨ends, -, normal, -⟩ :=
    merged_settles Graph.wellFormed_checkpointChain isMerged .all .byContent
  exact ⟨Graph.wellFormed_checkpointChain, ported, primitive, merged, settled, isPrimitive, isMerged,
    (ends _).2 isSettled.symm, normal settled isSettled, atMerged, atSettled⟩

end StagePlanner
