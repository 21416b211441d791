import StagePlanner.Proofs.Grouping.Contraction
import StagePlanner.Proofs.Merging.Cut

/-!
# Merging groups of stages

Groups that divide the stages of a plan and can be merged all at once are merged as they are, each
into one stage. `MergedPlan` says what comes out: a plan built from cuts, each the union of the
cuts of one group, that is sound, complete and without circuits, and in which every wire into a
marker that was carried before is carried again.
-/

namespace StagePlanner

open Relation

namespace Plan

/-! ### Groups that divide the stages are kept -/

theorem fresh_eq {covered group : List StageId} (earlier : List StageId)
    (distinct : (earlier ++ group).Nodup) (apart : ∀ id ∈ group, id ∉ covered) :
    group.foldl (fun fresh id => if id ∈ covered || id ∈ fresh then fresh else fresh ++ [id]) earlier =
      earlier ++ group := by
  induction group generalizing earlier with
  | nil => rw [List.foldl_nil, List.append_nil]
  | cons id rest ih =>
    have notEarlier : id ∉ earlier := fun repeated =>
      (List.nodup_append.1 distinct).2.2 id repeated id List.mem_cons_self rfl
    have regrouped : earlier ++ id :: rest = (earlier ++ [id]) ++ rest := by simp
    rw [List.foldl_cons, if_neg (by simp [notEarlier, apart id List.mem_cons_self]), regrouped]
    exact ih _ (regrouped ▸ distinct) fun other member => apart other (List.mem_cons_of_mem _ member)

theorem firstOccurrences_cons {covered group fresh : List StageId} {rest : List (List StageId)}
    (isFresh : group.foldl
      (fun fresh id => if id ∈ covered || id ∈ fresh then fresh else fresh ++ [id]) [] = fresh) :
    firstOccurrences covered (group :: rest) =
      if fresh.isEmpty then firstOccurrences (covered ++ fresh) rest
      else fresh :: firstOccurrences (covered ++ fresh) rest := by
  subst isFresh
  rfl

/-- Disjoint groups that nothing covers yet stay as they are. -/
theorem firstOccurrences_append {covered : List StageId} {groups others : List (List StageId)}
    (distinct : groups.flatten.Nodup) (nonempty : ∀ group ∈ groups, group ≠ [])
    (apart : ∀ id ∈ groups.flatten, id ∉ covered) :
    firstOccurrences covered (groups ++ others) =
      groups ++ firstOccurrences (covered ++ groups.flatten) others := by
  induction groups generalizing covered with
  | nil => simp
  | cons group rest ih =>
    obtain ⟨groupNonempty, restNonempty⟩ := List.forall_mem_cons.1 nonempty
    rw [List.flatten_cons] at distinct apart
    obtain ⟨groupDistinct, restDistinct, separate⟩ := List.nodup_append.1 distinct
    have fresh := fresh_eq [] (by simpa using groupDistinct)
      fun id member => apart id (List.mem_append_left _ member)
    rw [List.nil_append] at fresh
    rw [List.cons_append, firstOccurrences_cons fresh, if_neg (by simpa using groupNonempty)]
    rw [ih restDistinct restNonempty, List.flatten_cons, List.append_assoc, List.cons_append]
    intro id member
    rw [List.mem_append, not_or]
    exact ⟨apart id (List.mem_append_right _ member), fun inGroup => separate id inGroup id member rfl⟩

theorem firstOccurrences_covered {covered : List StageId} {groups : List (List StageId)}
    (inside : ∀ id ∈ groups.flatten, id ∈ covered) : firstOccurrences covered groups = [] := by
  induction groups generalizing covered with
  | nil => rfl
  | cons group rest ih =>
    rw [List.flatten_cons] at inside
    have nothing : ∀ items : List StageId, (∀ id ∈ items, id ∈ covered) → items.foldl
        (fun fresh id => if id ∈ covered || id ∈ fresh then fresh else fresh ++ [id]) [] = [] := by
      intro items
      induction items with
      | nil => exact fun _ => rfl
      | cons id others others_ih =>
        intro all
        rw [List.foldl_cons, if_pos (by simp [all id List.mem_cons_self])]
        exact others_ih fun other member => all other (List.mem_cons_of_mem _ member)
    rw [firstOccurrences_cons (nothing group fun id member => inside id (List.mem_append_left _ member))]
    rw [List.append_nil, ih fun id member => inside id (List.mem_append_right _ member)]
    rfl

theorem coveringGroups_eq {plan : Plan} {groups : List StageGroup} (distinct : plan.stageIds.Nodup)
    (isDivision : GroupsOf plan.stageIds groups) :
    plan.coveringGroups (groups.map StageGroup.elements) = groups.map StageGroup.elements := by
  have flat : (groups.map StageGroup.elements).flatten = groups.flatMap StageGroup.elements :=
    (List.flatMap_def ..).symm
  rw [coveringGroups, firstOccurrences_append, firstOccurrences_covered, List.append_nil]
  · intro id member
    rw [List.nil_append, flat, isDivision.members.mem_iff]
    simpa using member
  · rw [flat]
    exact isDivision.members.nodup_iff.2 distinct
  · intro elements isGroup
    obtain ⟨group, member, rfl⟩ := List.mem_map.1 isGroup
    exact isDivision.nonempty group member
  · exact fun _ _ => List.not_mem_nil

/-! ### The cut of a group -/

variable {graph : Graph} {primitive : Plan} {cuts : List StageCut}

/-- The cut that the stage with an identifier realizes. -/
def HasCut (plan : Plan) (graph : Graph) (cuts : List StageCut) (id : StageId)
    (cut : StageCut) : Prop :=
  ∃ stage ∈ plan.stages, stage.id = id ∧ stage.Realizes graph cut ∧ cut ∈ cuts

section Contribution

variable {stage : Stage} {cut : StageCut} (realizes : stage.Realizes graph cut) {id : OperatorId}

include realizes

theorem mem_inputs_contribution : id ∈ (contribution stage).inputs ↔ id ∈ cut.inputs := by
  rw [contribution, OrderedSet.mem_unions, ← realizes.exists_input_iff]
  simp

theorem mem_outputs_contribution : id ∈ (contribution stage).outputs ↔ id ∈ cut.outputs := by
  rw [contribution, OrderedSet.mem_unions, ← realizes.exists_output_iff]
  simp

theorem mem_members_contribution (sound : cut.Sound graph) :
    id ∈ (contribution stage).members ↔ id ∈ cut.members := by
  have inputs : id ∈ OrderedSet.unions (stage.inputs.map StagePort.origins) ↔ id ∈ cut.inputs :=
    mem_inputs_contribution realizes
  have outputs : id ∈ OrderedSet.unions (stage.outputs.map StagePort.origins) ↔ id ∈ cut.outputs :=
    mem_outputs_contribution realizes
  simp only [contribution, OrderedSet.mem_union, inputs, outputs, realizes.mem_sources_iff]
  refine ⟨?_, fun member => .inl (.inl member)⟩
  rintro ((member | isInput) | isOutput)
  · exact member
  · exact (sound.inputs id isInput).1
  · exact (sound.outputs id isOutput).1

/-- A stage contributes as producers what feeds its outputs. -/
theorem mem_producers_contribution : id ∈ (contribution stage).producers ↔ ∃ source target,
    cut.Carries graph source target ∧ target.operator ∈ cut.outputs ∧ source.operator = id := by
  simp only [contribution, OrderedSet.mem_ofList, List.mem_flatMap, List.mem_filterMap,
    OrderedSet.mem_toList, Graph.mem_predecessors realizes.wellFormed, realizes.source?_eq_some_iff]
  constructor
  · rintro ⟨port, isOutput, copy, ⟨output, input, wired⟩, isCopy⟩
    obtain ⟨marker, isMarker, origins, portCopy⟩ := exists_partner_of_mem realizes.outputs isOutput
    obtain ⟨left, isLeft, right, isRight, leftCopy, rightCopy, carries⟩ :=
      realizes.exists_original wired
    obtain rfl := realizes.pair_unique_of_copy isLeft isCopy leftCopy
    obtain rfl := realizes.pair_unique_of_copy isRight portCopy rightCopy
    exact ⟨_, _, carries, isMarker, rfl⟩
  · rintro ⟨source, target, carries, isOutput, rfl⟩
    obtain ⟨port, isPort, origins, portCopy⟩ := exists_partner realizes.outputs
      (OrderedSet.mem_toList.2 isOutput)
    obtain ⟨left, isLeft, right, isRight, leftSource, rightSource, wired⟩ :=
      realizes.copiesWire_iff.2 carries
    have same := realizes.pair_unique_of_source isRight portCopy rightSource
    have isCopy : (⟨left.copy, source.operator⟩ : CopiedPair .operator) ∈ stage.provenance :=
      leftSource ▸ isLeft
    refine ⟨port, isPort, left.copy, ?_, isCopy⟩
    have feeds := wired.feeds
    rw [same] at feeds
    exact feeds

end Contribution

/-- The cut of a group is the union of the cuts of its stages. -/
theorem exists_mergedCut (distinct : primitive.stageIds.Nodup)
    (sound : ∀ cut ∈ cuts, StageCut.Sound cut graph) {group : List StageId} {parts : List StageCut}
    (paired : List.Forall₂ (primitive.HasCut graph cuts) group parts) :
    ∃ merged, primitive.mergedCut group = .ok merged ∧ merged.Merges graph parts := by
  have looked : List.Forall₂ (fun id cut => ∃ stage, primitive.stage id = .ok stage ∧
      (Stage.Realizes stage graph cut ∧ StageCut.Sound cut graph)) group parts := by
    refine paired.imp fun id cut hasCut => ?_
    obtain ⟨stage, isStage, same, realizes, isCut⟩ := hasCut
    refine ⟨stage, ?_, realizes, sound cut isCut⟩
    rw [Plan.stage, (stage?_eq_some_iff distinct).2 ⟨isStage, same⟩]
  obtain ⟨stages, lookups, realized⟩ := exists_between looked
  refine ⟨_, by rw [mergedCut, mapM_eq_ok_iff.2 lookups]; rfl, ?_⟩
  have union : ∀ {field : StageCut → OrderedSet OperatorId} {holds : StageCut → OperatorId → Prop},
      (∀ stage cut, Stage.Realizes stage graph cut → StageCut.Sound cut graph →
        ∀ id, id ∈ field (contribution stage) ↔ holds cut id) →
      ∀ id, id ∈ OrderedSet.unions ((stages.map contribution).map field) ↔
        ∃ part ∈ parts, holds part id := by
    intro field holds same id
    rw [OrderedSet.mem_unions, List.map_map]
    constructor
    · rintro ⟨set, isSet, member⟩
      obtain ⟨stage, isStage, rfl⟩ := List.mem_map.1 isSet
      obtain ⟨part, isPart, realizes, partSound⟩ := exists_partner_of_mem realized isStage
      exact ⟨part, isPart, (same stage part realizes partSound id).1 member⟩
    · rintro ⟨part, isPart, member⟩
      obtain ⟨stage, isStage, realizes, partSound⟩ := exists_partner realized isPart
      exact ⟨_, List.mem_map_of_mem isStage, (same stage part realizes partSound id).2 member⟩
  exact ⟨union fun _ _ realizes sound _ => mem_members_contribution realizes sound,
    union fun _ _ realizes _ _ => mem_producers_contribution realizes,
    union fun _ _ realizes _ _ => mem_inputs_contribution realizes,
    union fun _ _ realizes _ _ => mem_outputs_contribution realizes⟩

end Plan

/-- A cut is the union of the cuts of the stages of a group. -/
def StageCut.UnitesGroup (merged : StageCut) (graph : Graph) (primitive : Plan)
    (cuts : List StageCut) (elements : List StageId) : Prop :=
  ∃ parts, List.Forall₂ (primitive.HasCut graph cuts) elements parts ∧ merged.Merges graph parts

/-- The plan of the groups that have been merged so far. -/
def MergedUpTo (graph : Graph) (primitive : Plan) (cuts : List StageCut)
    (passed : List (List StageId)) (plan : Plan) : Prop :=
  ∃ mergedCuts, plan.Built graph mergedCuts ∧
    List.Forall₂ (fun elements merged =>
      StageCut.UnitesGroup merged graph primitive cuts elements) passed mergedCuts ∧
    ∀ merged ∈ mergedCuts, StageCut.Sound merged graph ∧ StageCut.Complete merged graph

/-- What merging groups of a plan gives. -/
structure MergedPlan (graph : Graph) (primitive : Plan) (cuts : List StageCut)
    (groups : List StageGroup) (plan : Plan) (mergedCuts : List StageCut) : Prop where
  built : plan.Built graph mergedCuts
  unions : List.Forall₂ (fun group merged =>
    StageCut.UnitesGroup merged graph primitive cuts group.elements) groups mergedCuts
  sound : ∀ merged ∈ mergedCuts, StageCut.Sound merged graph
  complete : ∀ merged ∈ mergedCuts, StageCut.Complete merged graph
  circuitless : Circuitless plan.dependencies.Depends

section Merging

variable {graph : Graph} {primitive : Plan} {cuts : List StageCut} {groups : List StageGroup}
  (wellFormed : graph.WellFormed) (built : primitive.Built graph cuts)
  (sound : ∀ cut ∈ cuts, StageCut.Sound cut graph)
  (complete : ∀ cut ∈ cuts, StageCut.Complete cut graph)
  (mergeable : Mergeable primitive.dependencies primitive.stageIds groups)

/-- Parts of one group never meet: what one of them writes none of them reads. -/
theorem Plan.apart_of_independent {group : StageGroup}
    (independent : group.Independent primitive.dependencies) {parts : List StageCut}
    (paired : List.Forall₂ (primitive.HasCut graph cuts) group.elements parts) :
    ∀ reader ∈ parts, ∀ writer ∈ parts, ∀ id ∈ reader.inputs, id ∉ writer.outputs := by
  intro reader isReader writer isWriter id isInput isOutput
  obtain ⟨readerId, inGroup, consumer, isConsumer, rfl, consumerRealizes, -⟩ :=
    exists_partner paired isReader
  obtain ⟨writerId, writerInGroup, producer, isProducer, rfl, producerRealizes, -⟩ :=
    exists_partner paired isWriter
  have supplies := (producerRealizes.supplies_iff consumerRealizes).2 ⟨id, isOutput, isInput⟩
  exact independent _ inGroup _ writerInGroup (.single (Plan.depends_dependencies.2
    ⟨producer, consumer, ⟨isProducer, isConsumer, supplies⟩, rfl, rfl⟩))

include built in
theorem Plan.exists_parts {elements : List StageId} (inside : ∀ id ∈ elements, id ∈ primitive.stageIds) :
    ∃ parts, List.Forall₂ (primitive.HasCut graph cuts) elements parts := by
  refine exists_partners fun id member => ?_
  obtain ⟨stage, isStage, same⟩ := Plan.mem_stageIds.1 (inside id member)
  obtain ⟨cut, isCut, realizes⟩ := exists_partner_of_mem built.realized isStage
  exact ⟨cut, stage, isStage, same, realizes, isCut⟩

theorem Plan.cuts_of_parts {elements : List StageId} {parts : List StageCut}
    (paired : List.Forall₂ (primitive.HasCut graph cuts) elements parts) :
    ∀ part ∈ parts, part ∈ cuts := by
  intro part isPart
  obtain ⟨-, -, -, -, -, -, isCut⟩ := exists_partner paired isPart
  exact isCut

/-- Links between merged stages are dependencies between their groups. -/
theorem Plan.dependsOn_of_common {reading writing : StageGroup} {reader writer : StageCut}
    (unitesReader : reader.UnitesGroup graph primitive cuts reading.elements)
    (unitesWriter : writer.UnitesGroup graph primitive cuts writing.elements) {id : OperatorId}
    (isInput : id ∈ reader.inputs) (isOutput : id ∈ writer.outputs) :
    reading.DependsOn primitive.dependencies writing := by
  obtain ⟨readerParts, readerPaired, readerMerges⟩ := unitesReader
  obtain ⟨writerParts, writerPaired, writerMerges⟩ := unitesWriter
  obtain ⟨first, isFirst, inFirst⟩ := (readerMerges.inputs id).1 isInput
  obtain ⟨second, isSecond, inSecond⟩ := (writerMerges.outputs id).1 isOutput
  obtain ⟨_, inReading, consumer, isConsumer, rfl, consumerRealizes, -⟩ :=
    exists_partner readerPaired isFirst
  obtain ⟨_, inWriting, producer, isProducer, rfl, producerRealizes, -⟩ :=
    exists_partner writerPaired isSecond
  have supplies := (producerRealizes.supplies_iff consumerRealizes).2 ⟨id, inSecond, inFirst⟩
  exact ⟨_, inReading, _, inWriting, Plan.depends_dependencies.2
    ⟨producer, consumer, ⟨isProducer, isConsumer, supplies⟩, rfl, rfl⟩⟩

include wellFormed built sound complete mergeable

/-- A further group becomes a further stage. -/
theorem MergedUpTo.step {plan : Plan} {passed : List (List StageId)}
    (upTo : MergedUpTo graph primitive cuts passed plan) {group : StageGroup}
    (isGroup : group ∈ groups) :
    ∃ result, (primitive.mergedCut group.elements >>= fun cut => plan.addStage graph cut) =
        .ok result ∧ MergedUpTo graph primitive cuts (passed ++ [group.elements]) result := by
  obtain ⟨mergedCuts, planBuilt, unites, proper⟩ := upTo
  obtain ⟨parts, paired⟩ := Plan.exists_parts built fun id member =>
    mergeable.mem_iff.2 ⟨group, isGroup, member⟩
  obtain ⟨merged, isMerged, merges⟩ := Plan.exists_mergedCut built.distinctStages sound paired
  have apart := Plan.apart_of_independent (mergeable.independent group isGroup) paired
  have inCuts := Plan.cuts_of_parts paired
  have partsSound := fun part isPart => sound part (inCuts part isPart)
  have partsComplete := fun part isPart => complete part (inCuts part isPart)
  have mergedSound := merges.sound partsSound apart
  obtain ⟨result, isResult, resultBuilt⟩ := planBuilt.exists_addStage wellFormed mergedSound
  refine ⟨result, by rw [isMerged]; exact isResult, mergedCuts ++ [merged], resultBuilt,
    List.rel_append unites (.cons ⟨parts, paired, merges⟩ .nil), fun other isOther => ?_⟩
  rcases List.mem_append.1 isOther with old | new
  · exact proper other old
  · rw [List.mem_singleton.1 new]
    exact ⟨mergedSound, merges.complete partsSound apart partsComplete⟩

/-- Each group becomes a stage. -/
theorem exists_mergedUpTo : ∃ plan,
    primitive.merged graph (groups.map StageGroup.elements) = .ok plan ∧
      MergedUpTo graph primitive cuts (groups.map StageGroup.elements) plan := by
  rw [Plan.merged, Plan.coveringGroups_eq built.distinctStages mergeable.toGroupsOf]
  refine exists_foldlM _ (groups.map StageGroup.elements) [] {}
    (fun passed plan => MergedUpTo graph primitive cuts passed plan) ?_ ?_
  · exact ⟨[], .start, .nil, by simp⟩
  · intro before elements after plan split upTo
    have isElements : elements ∈ groups.map StageGroup.elements := by
      rw [split]
      exact List.mem_append_right _ List.mem_cons_self
    obtain ⟨group, isGroup, rfl⟩ := List.mem_map.1 isElements
    exact upTo.step wellFormed built sound complete mergeable isGroup

/-- Groups that can be merged all at once are merged into a plan without circuits. -/
theorem exists_merged : ∃ plan mergedCuts,
    primitive.merged graph (groups.map StageGroup.elements) = .ok plan ∧
      MergedPlan graph primitive cuts groups plan mergedCuts := by
  obtain ⟨plan, isPlan, mergedCuts, planBuilt, united, proper⟩ :=
    exists_mergedUpTo wellFormed built sound complete mergeable
  have unites := List.forall₂_map_left_iff.1 united
  refine ⟨plan, mergedCuts, isPlan, planBuilt, unites, fun merged isMerged => (proper merged isMerged).1,
    fun merged isMerged => (proper merged isMerged).2, ?_⟩
  have groupOf : ∀ stage : Stage, ∃ group : StageGroup, stage ∈ plan.stages → group ∈ groups ∧
      ∃ merged, stage.Realizes graph merged ∧
        merged.UnitesGroup graph primitive cuts group.elements := by
    intro stage
    by_cases member : stage ∈ plan.stages
    · obtain ⟨merged, isMerged, realizes⟩ := exists_partner_of_mem planBuilt.realized member
      obtain ⟨group, isGroup, united⟩ := exists_partner unites isMerged
      exact ⟨group, fun _ => ⟨isGroup, merged, realizes, united⟩⟩
    · exact ⟨⟨∅, []⟩, fun isStage => absurd isStage member⟩
  choose group isGroup using groupOf
  rw [Plan.circuitless_dependencies_iff planBuilt.distinctStages]
  refine mergeable.circuitless.converse.of_map group ?_
  rintro producer consumer ⟨isProducer, isConsumer, supplies⟩
  obtain ⟨writing, writer, writerRealizes, writerUnites⟩ := isGroup producer isProducer
  obtain ⟨reading, reader, readerRealizes, readerUnites⟩ := isGroup consumer isConsumer
  obtain ⟨id, isOutput, isInput⟩ := (writerRealizes.supplies_iff readerRealizes).1 supplies
  have depends := Plan.dependsOn_of_common readerUnites writerUnites isInput isOutput
  refine ⟨reading, writing, fun same => ?_, depends⟩
  obtain ⟨dependent, isDependent, dependency, isDependency, arc⟩ := depends
  rw [← same] at isDependency
  exact mergeable.independent _ reading _ isDependent _ isDependency (.single arc)

omit wellFormed in
/-- A wire that a stage of the plan copies is carried by the union of its group. -/
theorem MergedPlan.exists_carries {plan : Plan} {mergedCuts : List StageCut}
    (mergedPlan : MergedPlan graph primitive cuts groups plan mergedCuts) {stage : Stage}
    (isStage : stage ∈ primitive.stages) {source target : Terminal}
    (copies : stage.CopiesWire source target) :
    ∃ merged ∈ mergedCuts, merged.Carries graph source target := by
  obtain ⟨group, isGroup, inGroup⟩ := mergeable.mem_iff.1 (Plan.mem_stageIds.2 ⟨stage, isStage, rfl⟩)
  obtain ⟨merged, isMerged, parts, paired, merges⟩ := exists_partner_of_mem mergedPlan.unions isGroup
  obtain ⟨part, isPart, other, isOther, same, realizes, -⟩ := exists_partner_of_mem paired inGroup
  obtain rfl := Plan.stage_unique built.distinctStages isOther isStage same
  have inCuts := Plan.cuts_of_parts paired
  refine ⟨merged, isMerged, merges.carries_of_part (fun part isPart => sound part (inCuts part isPart))
    (Plan.apart_of_independent (mergeable.independent group isGroup) paired)
    (fun part isPart => complete part (inCuts part isPart)) isPart ?_⟩
  exact realizes.copiesWire_iff.1 copies

end Merging

end StagePlanner
