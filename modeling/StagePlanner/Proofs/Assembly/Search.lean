import StagePlanner.Proofs.Assembly.Step
import StagePlanner.Proofs.Graph.Lookup

/-!
# What passes look for

A pass looks for two ports to be merged or for an output to be dissolved, and its tests compare
addresses and listed ports. In proper plans the tests mean what they are named for
(`Plan.Proper.sameFeeders_iff` and its siblings); what a search finds may be merged or dissolved, and
when it finds nothing there is nothing of the kind.
-/

namespace StagePlanner

namespace Stage

/-- A checkpoint output whose only producer is a checkpoint input. -/
structure ForwardsCheckpoint (stage : Stage) (input output : StagePort) : Prop where
  isInput : input ∈ stage.inputs
  outputKind : stage.marker? output = some .checkpoint
  inputKind : stage.marker? input = some .checkpoint
  only : ∀ id, stage.graph.Feeds id output.marker ↔ id = input.marker

/-! ### What feeds an output -/

variable {stage : Stage} (wellFormed : stage.graph.WellFormed)

include wellFormed

theorem mem_feeders {output : StagePort} {producer : PortId} :
    producer ∈ stage.feeders output ↔
      ∃ input, stage.graph.PortAt .input ⟨output.marker, 0⟩ input ∧
        producer ∈ stage.graph.producers input := by
  cases found : stage.graph.inputAt output.marker 0 with
  | ok input =>
    have inputAt := Graph.portAt_of_inputAt found
    obtain ⟨operator, member, owned⟩ := inputAt.mem_portsOn
    rw [feeders, found]
    dsimp only
    rw [wellFormed.opposites_input member owned]
    constructor
    · exact fun produces => ⟨input, inputAt, produces⟩
    · rintro ⟨other, otherAt, produces⟩
      rwa [wellFormed.portAt_functional inputAt otherAt]
  | error cause =>
    rw [feeders, found]
    refine ⟨nofun, ?_⟩
    rintro ⟨input, inputAt, -⟩
    rw [Graph.inputAt_of_portAt wellFormed inputAt] at found
    cases found

theorem wired_iff_mem_feeders {output : StagePort} {source : Terminal} :
    stage.graph.Wired source ⟨output.marker, 0⟩ ↔
      ∃ port ∈ stage.feeders output, stage.graph.PortAt .output source port := by
  simp only [mem_feeders wellFormed, Graph.mem_producers]
  constructor
  · rintro ⟨port, target, sourceAt, targetAt, edge⟩
    exact ⟨port, ⟨target, targetAt, edge⟩, sourceAt⟩
  · rintro ⟨port, ⟨target, targetAt, edge⟩, sourceAt⟩
    exact ⟨port, target, sourceAt, targetAt, edge⟩

/-- What is listed for an output that the same ports feed is listed for the other one. -/
theorem SameFeeders.mem_feeders {left right : StagePort} (same : stage.SameFeeders left right)
    {port : PortId} (listed : port ∈ stage.feeders left) : port ∈ stage.feeders right := by
  obtain ⟨input, -, produces⟩ := (Stage.mem_feeders wellFormed).1 listed
  obtain ⟨operator, member, owned⟩ := wellFormed.sources _ (Graph.mem_producers.1 produces)
  obtain ⟨index, position⟩ := List.mem_iff_getElem?.1 owned
  have sourceAt : stage.graph.PortAt .output ⟨operator.id, index⟩ port :=
    ⟨operator, member, rfl, position⟩
  have wired := (same _).1 ((wired_iff_mem_feeders wellFormed).2 ⟨port, listed, sourceAt⟩)
  obtain ⟨other, isListed, otherAt⟩ := (wired_iff_mem_feeders wellFormed).1 wired
  rwa [wellFormed.portAt_functional sourceAt otherAt]

theorem feeders_ascending (output : StagePort) :
    (stage.feeders output).Pairwise fun before after => compare before after = .lt := by
  cases found : stage.graph.inputAt output.marker 0 with
  | ok input =>
    obtain ⟨operator, member, owned⟩ := (Graph.portAt_of_inputAt found).mem_portsOn
    rw [feeders, found]
    dsimp only
    rw [wellFormed.opposites_input member owned]
    exact Graph.producers_ascending _ _
  | error cause =>
    rw [feeders, found]
    exact .nil

end Stage

namespace Plan

variable {plan : Plan}

/-- Somebody reads an output. -/
def IsRead (plan : Plan) (output : StagePort) : Prop :=
  ∃ consumer ∈ plan.stages, ∃ input ∈ consumer.inputs, output.Meets input

/-- Somebody writes an input. -/
def IsWritten (plan : Plan) (input : StagePort) : Prop :=
  ∃ producer ∈ plan.stages, ∃ output ∈ producer.outputs, output.Meets input

/-! ### Ports by their addresses -/

theorem Proper.mem_outputsFrom_iff (proper : plan.Proper) {stage : Stage}
    (isStage : stage ∈ plan.stages) {output : StagePort} (isOutput : output ∈ stage.outputs)
    {origins : OrderedSet OperatorId} :
    ⟨stage.id, output.id⟩ ∈ plan.outputsFrom origins ↔
      ∃ origin, origin ∈ output.origins ∧ origin ∈ origins := by
  rw [mem_outputsFrom]
  constructor
  · rintro ⟨other, isOther, port, isPort, common, same⟩
    obtain rfl := stage_unique proper.distinct isOther isStage (congrArg PortAddress.stage same)
    obtain rfl := (proper.stages other isStage).port_unique_of_id (List.mem_append_right _ isPort)
      (List.mem_append_right _ isOutput) (congrArg PortAddress.port same)
    exact common
  · exact fun common => ⟨stage, isStage, output, isOutput, common, rfl⟩

theorem Proper.mem_inputsFrom_iff (proper : plan.Proper) {stage : Stage}
    (isStage : stage ∈ plan.stages) {input : StagePort} (isInput : input ∈ stage.inputs)
    {origins : OrderedSet OperatorId} :
    ⟨stage.id, input.id⟩ ∈ plan.inputsFrom origins ↔
      ∃ origin, origin ∈ input.origins ∧ origin ∈ origins := by
  rw [mem_inputsFrom]
  constructor
  · rintro ⟨other, isOther, port, isPort, common, same⟩
    obtain rfl := stage_unique proper.distinct isOther isStage (congrArg PortAddress.stage same)
    obtain rfl := (proper.stages other isStage).port_unique_of_id (List.mem_append_left _ isPort)
      (List.mem_append_left _ isInput) (congrArg PortAddress.port same)
    exact common
  · exact fun common => ⟨stage, isStage, input, isInput, common, rfl⟩

theorem inputsFrom_eq_nil_iff {output : StagePort} :
    plan.inputsFrom output.origins = [] ↔ ¬ plan.IsRead output := by
  rw [List.eq_nil_iff_forall_not_mem]
  constructor
  · rintro none ⟨consumer, isConsumer, input, isInput, meets⟩
    exact none _ (mem_inputsFrom.2 ⟨consumer, isConsumer, input, isInput, meets.symm, rfl⟩)
  · intro unread address member
    obtain ⟨consumer, isConsumer, input, isInput, meets, -⟩ := mem_inputsFrom.1 member
    exact unread ⟨consumer, isConsumer, input, isInput, StagePort.Meets.symm meets⟩

theorem outputsFrom_eq_nil_iff {input : StagePort} :
    plan.outputsFrom input.origins = [] ↔ ¬ plan.IsWritten input := by
  rw [List.eq_nil_iff_forall_not_mem]
  constructor
  · rintro none ⟨producer, isProducer, output, isOutput, meets⟩
    exact none _ (mem_outputsFrom.2 ⟨producer, isProducer, output, isOutput, meets, rfl⟩)
  · intro unwritten address member
    obtain ⟨producer, isProducer, output, isOutput, meets, -⟩ := mem_outputsFrom.1 member
    exact unwritten ⟨producer, isProducer, output, isOutput, meets⟩

/-! ### What the tests of unification mean -/

theorem isEmpty_ofList_eq_false_iff {α : Type} [Ord α] [Std.TransOrd α] [Std.LawfulEqOrd α]
    {items : List α} : (OrderedSet.ofList items).isEmpty = false ↔ items ≠ [] := by
  rw [← Bool.not_eq_true, not_iff_not, OrderedSet.isEmpty_iff, List.eq_nil_iff_forall_not_mem]
  simp only [OrderedSet.mem_ofList]

theorem Proper.sameConsumers_iff (proper : plan.Proper) {stage : Stage} {left right : StagePort} :
    sameConsumers plan stage left right = true ↔
      plan.IsRead left ∧ plan.SameConsumers left right := by
  rw [Plan.sameConsumers, Bool.and_eq_true, Bool.not_eq_true', decide_eq_true_eq,
    isEmpty_ofList_eq_false_iff, Ne, inputsFrom_eq_nil_iff, not_not]
  refine and_congr_right fun _ => ⟨fun lists consumer isConsumer input isInput => ?_, fun same => ?_⟩
  · have addresses := congrArg (fun set => (⟨consumer.id, input.id⟩ : PortAddress) ∈ set) lists
    simp only [OrderedSet.mem_ofList, proper.mem_inputsFrom_iff isConsumer isInput] at addresses
    have same : input.Meets left ↔ input.Meets right := ⟨addresses.mp, addresses.mpr⟩
    exact ⟨fun meets => (same.1 meets.symm).symm, fun meets => (same.2 meets.symm).symm⟩
  · refine OrderedSet.ext fun address => ?_
    rw [OrderedSet.mem_ofList, OrderedSet.mem_ofList, mem_inputsFrom, mem_inputsFrom]
    refine exists_congr fun consumer => and_congr_right fun isConsumer => exists_congr fun input =>
      and_congr_right fun isInput => and_congr_left fun _ => ?_
    have meets := same consumer isConsumer input isInput
    exact ⟨fun common => (meets.1 (StagePort.Meets.symm common)).symm,
      fun common => (meets.2 (StagePort.Meets.symm common)).symm⟩

theorem Proper.sameProducers_iff (proper : plan.Proper) {left right : StagePort} :
    sameProducers plan left right = true ↔ plan.IsWritten left ∧ plan.SameProducers left right := by
  rw [Plan.sameProducers, Bool.and_eq_true, Bool.not_eq_true', decide_eq_true_eq,
    isEmpty_ofList_eq_false_iff, Ne, outputsFrom_eq_nil_iff, not_not]
  refine and_congr_right fun _ => ⟨fun lists producer isProducer output isOutput => ?_, fun same => ?_⟩
  · have addresses := congrArg (fun set => (⟨producer.id, output.id⟩ : PortAddress) ∈ set) lists
    simp only [OrderedSet.mem_ofList, proper.mem_outputsFrom_iff isProducer isOutput] at addresses
    exact ⟨addresses.mp, addresses.mpr⟩
  · refine OrderedSet.ext fun address => ?_
    rw [OrderedSet.mem_ofList, OrderedSet.mem_ofList, mem_outputsFrom, mem_outputsFrom]
    exact exists_congr fun producer => and_congr_right fun isProducer => exists_congr fun output =>
      and_congr_right fun isOutput => and_congr_left fun _ =>
        same producer isProducer output isOutput

/-- Outputs have the same feeders exactly when the same ports feed them. -/
theorem Proper.sameFeeders_iff (proper : plan.Proper) {stage : Stage} (isStage : stage ∈ plan.stages)
    {left right : StagePort} :
    sameFeeders plan stage left right = true ↔ stage.SameFeeders left right := by
  have wellFormed := (proper.stages stage isStage).wellFormed
  rw [Plan.sameFeeders, decide_eq_true_eq]
  constructor
  · intro lists source
    rw [Stage.wired_iff_mem_feeders wellFormed, Stage.wired_iff_mem_feeders wellFormed, lists]
  · intro same
    refine OrderedSet.ascending_ext (Stage.feeders_ascending wellFormed left)
      (Stage.feeders_ascending wellFormed right) fun port => ?_
    exact ⟨Stage.SameFeeders.mem_feeders wellFormed same,
      Stage.SameFeeders.mem_feeders wellFormed fun source => (same source).symm⟩

/-! ### Pairs of equivalent ports -/

/-- A pair that is found consists of two items that the test accepts. -/
theorem firstPair?_spec {α : Type} {test : α → α → Bool} {items : List α} (distinct : items.Nodup)
    {first second : α} (found : firstPair? test items = some (first, second)) :
    first ∈ items ∧ second ∈ items ∧ first ≠ second ∧ test first second = true := by
  induction items with
  | nil => cases found
  | cons item rest ih =>
    obtain ⟨fresh, restDistinct⟩ := List.nodup_cons.1 distinct
    rw [firstPair?] at found
    split at found
    · next partner isPartner =>
      cases found
      have member := List.mem_of_find?_eq_some isPartner
      exact ⟨List.mem_cons_self, List.mem_cons_of_mem _ member, fun same => fresh (same ▸ member),
        List.find?_some isPartner⟩
    · obtain ⟨isFirst, isSecond, differ, accepted⟩ := ih restDistinct found
      exact ⟨List.mem_cons_of_mem _ isFirst, List.mem_cons_of_mem _ isSecond, differ, accepted⟩

/-- When no pair is found the test accepts no two items. -/
theorem pairwise_of_firstPair?_eq_none {α : Type} {test : α → α → Bool} {items : List α}
    (none : firstPair? test items = none) : items.Pairwise fun left right => test left right = false := by
  induction items with
  | nil => exact .nil
  | cons item rest ih =>
    rw [firstPair?] at none
    split at none
    · cases none
    · next noPartner =>
      refine List.pairwise_cons.2 ⟨fun other member => ?_, ih none⟩
      exact Bool.eq_false_iff.2 (List.find?_eq_none.1 noPartner other member)

variable {equivalence : Equivalence}

/-- A pair that is found consists of two equivalent ports of one stage that the test accepts. -/
theorem equivalentPair?_spec (ports : Stage → List StagePort)
    (distinct : ∀ stage ∈ plan.stages, (ports stage).Nodup)
    {test : Stage → StagePort → StagePort → Bool} {stage : Stage} {kept absorbed : StagePort}
    (found : (plan.stages.findSome? fun stage => (firstPair? (fun left right =>
      equivalence.key stage left.marker = equivalence.key stage right.marker && test stage left right)
        (ports stage)).map fun pair => (stage, pair)) = some (stage, kept, absorbed)) :
    stage ∈ plan.stages ∧ kept ∈ ports stage ∧ absorbed ∈ ports stage ∧ kept ≠ absorbed ∧
      equivalence.key stage kept.marker = equivalence.key stage absorbed.marker ∧
      test stage kept absorbed = true := by
  obtain ⟨isStage, isPair⟩ := of_findSome?_labelled found
  obtain ⟨isKept, isAbsorbed, differ, accepted⟩ := firstPair?_spec (distinct stage isStage) isPair
  obtain ⟨equivalent, passes⟩ := Bool.and_eq_true_iff.1 accepted
  exact ⟨isStage, isKept, isAbsorbed, differ, of_decide_eq_true equivalent, passes⟩

theorem Proper.outputPair?_spec (proper : plan.Proper) {test : Stage → StagePort → StagePort → Bool}
    {stage : Stage} {kept absorbed : StagePort}
    (found : plan.outputPair? equivalence test = some (stage, kept, absorbed)) :
    stage ∈ plan.stages ∧ kept ∈ stage.outputs ∧ absorbed ∈ stage.outputs ∧ kept ≠ absorbed ∧
      equivalence.key stage kept.marker = equivalence.key stage absorbed.marker ∧
      test stage kept absorbed = true := by
  refine equivalentPair?_spec Stage.outputs (fun stage isStage => ?_) found
  have distinct := (proper.stages stage isStage).distinctMarkers
  rw [Stage.ports, List.map_append] at distinct
  exact (List.nodup_append.1 distinct).2.1.of_map

theorem Proper.inputPair?_spec (proper : plan.Proper) {stage : Stage} {kept absorbed : StagePort}
    (found : plan.inputPair? equivalence = some (stage, kept, absorbed)) :
    stage ∈ plan.stages ∧ kept ∈ stage.inputs ∧ absorbed ∈ stage.inputs ∧ kept ≠ absorbed ∧
      equivalence.key stage kept.marker = equivalence.key stage absorbed.marker ∧
      Plan.sameProducers plan kept absorbed = true := by
  refine equivalentPair?_spec Stage.inputs (fun stage isStage => ?_) found
  have distinct := (proper.stages stage isStage).distinctMarkers
  rw [Stage.ports, List.map_append] at distinct
  exact (List.nodup_append.1 distinct).1.of_map

/-- When no outputs are found the test accepts no two equivalent ones. -/
theorem pairwise_of_outputPair?_eq_none {test : Stage → StagePort → StagePort → Bool}
    (none : plan.outputPair? equivalence test = none) {stage : Stage} (isStage : stage ∈ plan.stages) :
    stage.outputs.Pairwise fun left right =>
      equivalence.key stage left.marker = equivalence.key stage right.marker →
        test stage left right = false := by
  have noPair := Option.map_eq_none_iff.1 (List.findSome?_eq_none_iff.1 none stage isStage)
  refine (pairwise_of_firstPair?_eq_none noPair).imp fun rejected equivalent => ?_
  simpa [equivalent] using rejected

theorem pairwise_of_inputPair?_eq_none (none : plan.inputPair? equivalence = none) {stage : Stage}
    (isStage : stage ∈ plan.stages) : stage.inputs.Pairwise fun left right =>
      equivalence.key stage left.marker = equivalence.key stage right.marker →
        Plan.sameProducers plan left right = false := by
  have noPair := Option.map_eq_none_iff.1 (List.findSome?_eq_none_iff.1 none stage isStage)
  refine (pairwise_of_firstPair?_eq_none noPair).imp fun rejected equivalent => ?_
  simpa [equivalent] using rejected

/-! ### Checkpoints that forward checkpoints -/

theorem forwardedInput?_eq_some_iff {stage : Stage} (proper : stage.Proper)
    {output input : StagePort} :
    forwardedInput? stage output = some input ↔ stage.ForwardsCheckpoint input output := by
  rw [forwardedInput?]
  constructor
  · intro found
    split at found
    · cases found
    · next isCheckpoint =>
      split at found
      · next predecessor only =>
        obtain ⟨found, alsoCheckpoint⟩ := Option.filter_eq_some_iff.1 found
        obtain ⟨isInput, rfl⟩ := proper.inputAt?_eq_some_iff.1 found
        refine ⟨isInput, not_not.1 isCheckpoint, of_decide_eq_true alsoCheckpoint, fun id => ?_⟩
        rw [← Graph.mem_predecessors proper.wellFormed, ← OrderedSet.mem_toList, only,
          List.mem_singleton]
      · cases found
  · intro forwards
    have only : stage.graph.predecessors output.marker = .singleton input.marker :=
      OrderedSet.ext fun id => by
        rw [Graph.mem_predecessors proper.wellFormed, OrderedSet.mem_singleton, forwards.only]
    rw [if_neg (not_not.2 forwards.outputKind), only]
    exact Option.filter_eq_some_iff.2
      ⟨proper.inputAt?_eq_some_iff.2 ⟨forwards.isInput, rfl⟩, decide_eq_true forwards.inputKind⟩

theorem Proper.forwarded?_spec (proper : plan.Proper) {stage : Stage} {output : StagePort}
    {producers : List PortAddress} (found : plan.forwarded? = some (stage, output, producers)) :
    stage ∈ plan.stages ∧ output ∈ stage.outputs ∧ ∃ input, stage.ForwardsCheckpoint input output ∧
      producers = plan.outputsFrom input.origins := by
  obtain ⟨other, isStage, inStage⟩ := List.exists_of_findSome?_eq_some found
  obtain ⟨port, isOutput, atPort⟩ := List.exists_of_findSome?_eq_some inStage
  split at atPort
  · cases atPort
  · next input isForwarded =>
    dsimp only at atPort
    split at atPort
    · cases atPort
    · cases atPort
      have forwards := (forwardedInput?_eq_some_iff (proper.stages stage isStage)).1 isForwarded
      exact ⟨isStage, isOutput, input, forwards, rfl⟩

/-- When none is found nobody writes an input that a checkpoint forwards. -/
theorem Proper.not_isWritten_of_forwarded?_eq_none (proper : plan.Proper)
    (none : plan.forwarded? = none) {stage : Stage} (isStage : stage ∈ plan.stages)
    {input output : StagePort} (isOutput : output ∈ stage.outputs)
    (forwards : stage.ForwardsCheckpoint input output) : ¬ plan.IsWritten input := by
  have atOutput := List.findSome?_eq_none_iff.1 (List.findSome?_eq_none_iff.1 none stage isStage)
    output isOutput
  rw [(forwardedInput?_eq_some_iff (proper.stages stage isStage)).2 forwards] at atOutput
  dsimp only at atOutput
  split at atOutput
  · next empty => exact outputsFrom_eq_nil_iff.1 (List.isEmpty_iff.1 empty)
  · cases atOutput

end Plan

end StagePlanner
