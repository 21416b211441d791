import StagePlanner.Proofs.Assembly.Settlement
import StagePlanner.Proofs.Flow.Faithful
import StagePlanner.Proofs.Flow.Preservation

/-!
# Assembled plans compute over the same data

In a stage that realizes a cut, a port stands for one marker, and what a copy gets are the wires
that the cut carries. A merged cut carries every wire into an operator that is no marker, and every
wire into a marker is carried by some merged cut; that is all it takes for a merged plan to be
faithful. Steps keep a plan so, and finishing only forgets provenance of what is gone and reorders
stages. Hence in the assembled plan every copy of an operator receives exactly the data that its
original receives in the graph, whatever passes were run.
-/

namespace StagePlanner

open Relation

/-! ### Merged plans -/

namespace Stage.Realizes

variable {stage : Stage} {graph : Graph} {cut : StageCut} (realizes : stage.Realizes graph cut)
  (wellFormed : graph.WellFormed)

include realizes

/-- Operators with one serial number are one operator, as in the graph. -/
theorem nodup_serials (distinct : (graph.operators.map Operator.serial).Nodup) :
    (stage.graph.operators.map Operator.serial).Nodup := by
  refine realizes.wellFormed.nodup_operatorIds.of_map.map_on ?_
  intro left isLeft right isRight same
  have original : ∀ operator ∈ stage.graph.operators, ∃ pair ∈ stage.provenance,
      pair.copy = operator.id ∧ ∃ original ∈ graph.operators, original.id = pair.source ∧
        operator.serial = original.serial := by
    intro operator member
    obtain ⟨pair, isPair, isCopy⟩ := realizes.exists_source member
    obtain ⟨copy, copyMember, original, isOriginal, copyId, originalId, alike⟩ :=
      realizes.alike pair isPair
    obtain rfl := realizes.wellFormed.operator_unique copyMember member (copyId.trans isCopy)
    exact ⟨pair, isPair, isCopy, original, isOriginal, originalId,
      Option.some.inj (congrArg Blueprint.serial alike)⟩
  obtain ⟨first, isFirst, firstCopy, former, isFormer, formerId, firstSerial⟩ := original left isLeft
  obtain ⟨second, isSecond, secondCopy, latter, isLatter, latterId, secondSerial⟩ :=
    original right isRight
  have serials : former.serial = latter.serial := firstSerial.symm.trans (same.trans secondSerial)
  obtain rfl := List.inj_on_of_nodup_map distinct isFormer isLatter serials
  obtain rfl := realizes.pair_unique_of_source isFirst isSecond (formerId.symm.trans latterId)
  exact realizes.wellFormed.operator_unique isLeft isRight (firstCopy.symm.trans secondCopy)

variable (sound : cut.Sound graph) (complete : cut.Complete graph)

include wellFormed sound complete

/-- What leaves through a copy in a stage is what leaves through its original in the graph. -/
theorem emits_iff {pair : CopiedPair .operator} (isPair : pair ∈ stage.provenance)
    {target : Terminal} {index : Nat} (carries : cut.Carries graph ⟨pair.source, index⟩ target)
    {source : Terminal} :
    stage.Emits graph ⟨pair.copy, index⟩ source ↔ graph.Emits ⟨pair.source, index⟩ source := by
  have sameKind := realizes.isMarker_eq wellFormed isPair
  constructor
  · rintro (⟨noMarker, isCopy, sameIndex⟩ | ⟨input, isInput, same, origin, isOrigin, collects⟩)
    · have samePair := realizes.pair_unique_of_copy isPair isCopy rfl
      have sameSource : pair.source = source.operator := congrArg CopiedPair.source samePair
      refine .inl ⟨sameKind.symm.trans noMarker, ?_⟩
      cases source
      cases sameSource
      cases sameIndex
      rfl
    · obtain ⟨marker, isMarker, origins, isCopy⟩ := exists_partner_of_mem realizes.inputs isInput
      have samePair := realizes.pair_unique_of_copy isCopy isPair same
      have sameSource : marker = pair.source := congrArg CopiedPair.source samePair
      rw [origins, OrderedSet.mem_singleton] at isOrigin
      rw [isOrigin, sameSource] at collects
      rw [OrderedSet.mem_toList] at isMarker
      exact .inr ⟨sameSource ▸ (sound.inputs marker isMarker).2, collects⟩
  · rintro (⟨noMarker, rfl⟩ | ⟨isMarker, collects⟩)
    · exact .inl ⟨sameKind.trans noMarker, isPair, rfl⟩
    · -- A marker that feeds something in the cut is one of its inputs.
      have notOutput := (StageCut.keeps_iff.1 carries.kept).2.1
      have isInput := (complete.markers _ carries.sourceMember isMarker).resolve_right notOutput
      obtain ⟨input, isPort, origins, isCopy⟩ :=
        exists_partner realizes.inputs (OrderedSet.mem_toList.2 isInput)
      have samePair := realizes.pair_unique_of_source isCopy isPair rfl
      exact .inr ⟨input, isPort, congrArg CopiedPair.copy samePair, pair.source,
        origins ▸ OrderedSet.mem_singleton.2 rfl, collects⟩

/-- What arrives at a copy is what leaves through the wires into its original that the cut
carries. -/
theorem gets_iff {pair : CopiedPair .operator} (isPair : pair ∈ stage.provenance) {index : Nat}
    {source : Terminal} : stage.Gets graph ⟨pair.copy, index⟩ source ↔
      ∃ output, cut.Carries graph output ⟨pair.source, index⟩ ∧ graph.Emits output source := by
  constructor
  · rintro ⟨output, wired, emits⟩
    obtain ⟨left, isLeft, right, isRight, leftCopy, rightCopy, carries⟩ :=
      realizes.exists_original wired
    obtain rfl := realizes.pair_unique_of_copy isRight isPair rightCopy
    refine ⟨_, carries, (realizes.emits_iff wellFormed sound complete isLeft carries).1 ?_⟩
    rw [leftCopy]
    exact emits
  · rintro ⟨output, carries, emits⟩
    obtain ⟨left, isLeft, right, isRight, leftSource, rightSource, wired⟩ :=
      realizes.copiesWire_iff.2 carries
    obtain rfl := realizes.pair_unique_of_source isRight isPair rightSource
    obtain ⟨operator, position⟩ := output
    obtain rfl : left.source = operator := leftSource
    exact ⟨_, wired, (realizes.emits_iff wellFormed sound complete isLeft carries).2 emits⟩

/-- What a stage writes to an output is what leaves through the wires into the marker of the output
that the cut carries. -/
theorem writes_iff {output : StagePort} {marker : OperatorId}
    (standsFor : output.StandsFor stage.provenance marker) {source : Terminal} :
    stage.Writes graph output source ↔ ∃ index start, cut.Carries graph start ⟨marker, index⟩ ∧
      graph.Emits start source :=
  exists_congr fun _ => realizes.gets_iff wellFormed sound complete standsFor.2

end Stage.Realizes

namespace Merging

variable {graph : Graph} {primitive merged : Plan} {groups : List StageGroup}
  {level : OperatorId → Nat} {cuts mergedCuts : List StageCut}
  (merging : Merging graph primitive groups level cuts merged mergedCuts)

include merging

/-- What a marker collects is written to outputs that stand for it. -/
theorem collects_iff {marker : OperatorId} (isMarker : graph.isMarker marker = true)
    {source : Terminal} : graph.Collects marker source ↔
      ∃ stage ∈ merged.stages, ∃ output ∈ stage.outputs,
        output.StandsFor stage.provenance marker ∧ stage.Writes graph output source := by
  constructor
  · rintro ⟨index, receives⟩
    obtain ⟨start, wired, emits⟩ := Graph.receives_iff.1 receives
    obtain ⟨cut, isCut, carries⟩ := merging.exists_carries wired isMarker
    obtain ⟨stage, isStage, realizes⟩ := exists_partner merging.mergedPlan.built.realized isCut
    have complete := merging.mergedPlan.complete cut isCut
    have isOutput := (complete.markers _ carries.targetMember isMarker).resolve_left
      (StageCut.keeps_iff.1 carries.kept).1
    obtain ⟨output, isPort, standsFor⟩ :=
      exists_partner realizes.outputs (OrderedSet.mem_toList.2 isOutput)
    refine ⟨stage, isStage, output, isPort, standsFor, ?_⟩
    exact (realizes.writes_iff merging.wellFormed (merging.mergedPlan.sound cut isCut) complete standsFor).2
      ⟨index, start, carries, emits⟩
  · rintro ⟨stage, isStage, output, isOutput, standsFor, writes⟩
    obtain ⟨cut, isCut, realizes⟩ := exists_partner_of_mem merging.mergedPlan.built.realized isStage
    obtain ⟨index, start, carries, emits⟩ := (realizes.writes_iff merging.wellFormed
      (merging.mergedPlan.sound cut isCut) (merging.mergedPlan.complete cut isCut) standsFor).1 writes
    exact ⟨index, Graph.receives_iff.2 ⟨start, carries.wired, emits⟩⟩

/-- What an origin of an input collects is what the outputs that feed the input write. -/
theorem collects_iff_delivers {stage : Stage} (isStage : stage ∈ merged.stages) {input : StagePort}
    (isInput : input ∈ stage.inputs) {origin : OperatorId} (isOrigin : origin ∈ input.origins)
    {source : Terminal} : graph.Collects origin source ↔ merged.Delivers graph input source := by
  obtain ⟨cut, isCut, realizes⟩ := exists_partner_of_mem merging.mergedPlan.built.realized isStage
  obtain ⟨marker, isMarker, origins, -⟩ := exists_partner_of_mem realizes.inputs isInput
  rw [OrderedSet.mem_toList] at isMarker
  rw [origins, OrderedSet.mem_singleton] at isOrigin
  subst isOrigin
  rw [merging.collects_iff ((merging.mergedPlan.sound cut isCut).inputs _ isMarker).2]
  constructor
  · rintro ⟨producer, isProducer, output, isOutput, ⟨single, -⟩, writes⟩
    refine ⟨producer, isProducer, output, isOutput, ⟨origin, ?_, ?_⟩, writes⟩
    · exact single ▸ OrderedSet.mem_singleton.2 rfl
    · exact origins ▸ OrderedSet.mem_singleton.2 rfl
  · rintro ⟨producer, isProducer, output, isOutput, ⟨common, inOutput, inInput⟩, writes⟩
    obtain ⟨_, -, producerRealizes⟩ :=
      exists_partner_of_mem merging.mergedPlan.built.realized isProducer
    obtain ⟨copy, -, single, isCopy⟩ := exists_partner_of_mem producerRealizes.outputs isOutput
    rw [single, OrderedSet.mem_singleton] at inOutput
    rw [origins, OrderedSet.mem_singleton] at inInput
    have same := inOutput.symm.trans inInput
    exact ⟨producer, isProducer, output, isOutput, same ▸ ⟨single, isCopy⟩, writes⟩

/-- An output that stands for an `END` marker alone has a copy of it. -/
theorem marker?_of_standsFor {stage : Stage} (isStage : stage ∈ merged.stages) {output : StagePort}
    {marker : OperatorId} (standsFor : output.StandsFor stage.provenance marker)
    (isEnd : graph.isMarkerOf .finish marker = true) : stage.marker? output = some .finish := by
  obtain ⟨cut, -, realizes⟩ := exists_partner_of_mem merging.mergedPlan.built.realized isStage
  obtain ⟨operator, member, original, isOriginal, operatorId, originalId, alike⟩ :=
    realizes.alike _ standsFor.2
  obtain ⟨ending, isEnding, endingId, isFinish⟩ := (Graph.holds_iff merging.wellFormed).1 isEnd
  obtain rfl := merging.wellFormed.operator_unique isEnding isOriginal (endingId.trans originalId.symm)
  have kind : ending.marker? = some .finish := of_decide_eq_true isFinish
  rw [Stage.marker?, Stage.operator?, realizes.wellFormed.operator?_eq_some_iff.2 ⟨member, operatorId⟩,
    Option.bind_some, ← kind]
  exact congrArg (fun blueprint => blueprint.kind.marker?) alike

/-- A merged plan is faithful. -/
theorem faithful (distinct : (graph.operators.map Operator.serial).Nodup) :
    merged.Faithful graph where
  inputs stage isStage input isInput origin isOrigin source :=
    merging.collects_iff_delivers isStage isInput isOrigin
  copies stage isStage operator member noMarker original isCopy index source := by
    obtain ⟨cut, isCut, realizes⟩ := exists_partner_of_mem merging.mergedPlan.built.realized isStage
    have complete := merging.mergedPlan.complete cut isCut
    have originalNoMarker : graph.isMarker original = false := by
      rw [← realizes.isMarker_eq merging.wellFormed isCopy, Graph.isMarker,
        Graph.holds_id realizes.wellFormed member, noMarker]
    rw [Graph.receives_iff]
    refine (realizes.gets_iff merging.wellFormed (merging.mergedPlan.sound cut isCut) complete isCopy).trans
      (exists_congr fun output => and_congr_left fun _ => ⟨StageCut.Carries.wired, fun wired => ?_⟩)
    exact complete.producers output _ wired (realizes.source_mem isCopy) originalNoMarker
  ends id isEnd source collects := by
    obtain ⟨stage, isStage, output, isOutput, standsFor, writes⟩ :=
      (merging.collects_iff (Graph.isMarker_of_isMarkerOf isEnd)).1 collects
    exact ⟨stage, isStage, output, isOutput, merging.marker?_of_standsFor isStage standsFor isEnd,
      standsFor.1 ▸ OrderedSet.mem_singleton.2 rfl, writes⟩
  kinds stage isStage operator member original isCopy := by
    obtain ⟨cut, -, realizes⟩ := exists_partner_of_mem merging.mergedPlan.built.realized isStage
    rw [← realizes.isMarker_eq merging.wellFormed isCopy, Graph.isMarker,
      Graph.holds_id realizes.wellFormed member]
  serials stage isStage := by
    obtain ⟨cut, -, realizes⟩ := exists_partner_of_mem merging.mergedPlan.built.realized isStage
    exact realizes.nodup_serials distinct

end Merging

namespace Plan

variable {plan result : Plan} {graph : Graph}

/-! ### Finishing -/

theorem gets_pruneProvenance {stage : Stage} (sound : stage.Sound) {target source : Terminal} :
    stage.pruneProvenance.Gets graph target source ↔ stage.Gets graph target source := by
  refine exists_congr fun output => and_congr_right fun wired => or_congr_left ?_
  have isThere : output.operator ∈ stage.graph.operatorIds :=
    Graph.mem_operatorIds.2 (Graph.Wired.feeds wired).operators.1
  rw [mem_pruneProvenance sound, and_iff_left isThere]
  rfl

theorem Faithful.tidied (faithful : plan.Faithful graph) (sound : plan.Sound) :
    plan.tidied.Faithful graph := by
  have delivers : ∀ input source, plan.tidied.Delivers graph input source ↔
      plan.Delivers graph input source := by
    intro input source
    constructor
    · rintro ⟨stage, isStage, output, isOutput, meets, index, gets⟩
      obtain ⟨old, isOld, rfl⟩ := List.mem_map.1 isStage
      exact ⟨old, isOld, output, isOutput, meets, index,
        (gets_pruneProvenance (sound.stages old isOld)).1 gets⟩
    · rintro ⟨stage, isStage, output, isOutput, meets, index, gets⟩
      exact ⟨_, List.mem_map_of_mem isStage, output, isOutput, meets, index,
        (gets_pruneProvenance (sound.stages stage isStage)).2 gets⟩
  refine faithful.of_keeps (tidied_sound sound) (fun new isNew => ?_) ?_ ?_
  · obtain ⟨old, isOld, rfl⟩ := List.mem_map.1 isNew
    exact ⟨old, isOld, fun _ isPair => ((mem_pruneProvenance (sound.stages old isOld)).1 isPair).1,
      fun _ member => member, fun _ _ _ _ _ => gets_pruneProvenance (sound.stages old isOld)⟩
  · intro stage isStage input isInput origin isOrigin source
    obtain ⟨old, isOld, rfl⟩ := List.mem_map.1 isStage
    rw [delivers]
    exact faithful.inputs old isOld input isInput origin isOrigin source
  · intro old isOld output isOutput isFinish
    exact ⟨_, List.mem_map_of_mem isOld, output, isOutput, isFinish, fun _ isOrigin => isOrigin,
      fun source ⟨index, gets⟩ => ⟨index, (gets_pruneProvenance (sound.stages old isOld)).2 gets⟩⟩

theorem Faithful.of_perm (same : result.stages.Perm plan.stages) (sound : plan.Sound)
    (faithful : plan.Faithful graph) : result.Faithful graph := by
  refine faithful.of_keeps (sound_of_perm same sound)
    (fun new isNew => ⟨new, same.mem_iff.1 isNew, .refl new⟩) ?_ ?_
  · intro stage isStage input isInput origin isOrigin source
    simp only [Delivers, same.mem_iff]
    exact faithful.inputs stage (same.mem_iff.1 isStage) input isInput origin isOrigin source
  · intro old isOld output isOutput isFinish
    exact ⟨old, same.mem_iff.2 isOld, output, isOutput, isFinish, fun _ isOrigin => isOrigin,
      fun _ writes => writes⟩

end Plan

/-- An assembled plan computes over the same data as the graph, whatever passes were run and however
ports were compared. If every operator leads to an END marker, every operator that is no marker
has a copy. And the outputs to which the walks upstream from an input of a copy lead, through
copied markers and from stage to stage, are the ones to which the walks through markers lead
from the input of its original. -/
theorem assemble_preserves_flow {graph : Graph} {primitive : Plan} {groups : List StageGroup}
    (grouped : Grouped graph primitive groups) (single : graph.SinglePortMarkers)
    (distinctSerials : (graph.operators.map Operator.serial).Nodup)
    (leadsToEnd : ∀ id ∈ graph.operatorIds, ∃ finish,
      graph.isMarkerOf .finish finish = true ∧ ReflTransGen graph.Feeds id finish)
    (passes : AssemblyPasses) (equivalence : Equivalence) :
    ∃ plan, primitive.assemble graph (groups.map StageGroup.elements) passes equivalence = .ok plan ∧
      (∀ id ∈ graph.operatorIds, graph.isMarker id = false → plan.HasCopy id) ∧
      ∀ stage ∈ plan.stages, ∀ pair ∈ stage.provenance, graph.isMarker pair.source = false →
        ∀ index source, plan.Receives stage ⟨pair.copy, index⟩ source ↔
          graph.Receives ⟨pair.source, index⟩ source := by
  obtain ⟨_, _, merged, _, isMerged, merging⟩ := grouped.exists_merging
  have mergedSound := merging.planSound single
  obtain ⟨settled, plan, isPlan, steps, settledSound, same, sound, circuitless, -⟩ :=
    Plan.exists_assembled isMerged mergedSound merging.mergedPlan.circuitless (fun _ _ step => step)
      (Plan.performs_assemblyRound passes equivalence)
  have faithful := ((Plan.faithful_of_steps mergedSound merging.mergedPlan.circuitless
    (merging.faithful distinctSerials) steps).tidied settledSound).of_perm same
    (Plan.tidied_sound settledSound)
  refine ⟨plan, isPlan, fun id member noMarker => ?_,
    fun stage isStage pair isPair noMarker index source => ?_⟩
  · obtain ⟨finish, isEnd, way⟩ := leadsToEnd id member
    exact (faithful.hasCopy_of_way sound circuitless isEnd way).1 noMarker
  · obtain ⟨old, isOld, rfl⟩ := List.mem_map.1 (same.mem_iff.1 isStage)
    have isThere := ((Plan.mem_pruneProvenance (settledSound.stages old isOld)).1 isPair).2
    obtain ⟨operator, isOperator, sameId⟩ := Graph.mem_operatorIds.1 isThere
    have isCopy : ⟨operator.id, pair.source⟩ ∈ old.pruneProvenance.provenance := sameId ▸ isPair
    rw [← sameId]
    exact faithful.receives_iff sound circuitless isStage isOperator isCopy noMarker index source

theorem assemble_preserves_flow_sample : ∃ primitive groups plan,
    Grouped Graph.sample primitive groups ∧
    primitive.assemble Graph.sample (groups.map StageGroup.elements) .all .byContent = .ok plan ∧
    plan.HasCopy ⟨5⟩ ∧
    ∀ stage ∈ plan.stages, ∀ pair ∈ stage.provenance, pair.source = ⟨5⟩ → ∀ source,
      plan.Receives stage ⟨pair.copy, 1⟩ source ↔ Graph.sample.Receives ⟨⟨5⟩, 1⟩ source := by
  obtain ⟨primitive, groups, grouped⟩ := Graph.exists_grouped_sample
  have distinctSerials : (Graph.sample.operators.map Operator.serial).Nodup := by decide +kernel
  have close : ∀ id ∈ Graph.sample.operatorIds, ∃ finish ∈ Graph.sample.operatorIds,
      Graph.sample.isMarkerOf .finish finish = true ∧ (id = finish ∨
        ∃ between ∈ Graph.sample.operatorIds, (id = between ∨ between ∈ Graph.sample.successors id) ∧
          finish ∈ Graph.sample.successors between) := by
    decide +kernel
  have leadsToEnd : ∀ id ∈ Graph.sample.operatorIds, ∃ finish,
      Graph.sample.isMarkerOf .finish finish = true ∧ ReflTransGen Graph.sample.Feeds id finish := by
    intro id member
    obtain ⟨finish, -, isFinish, rfl | ⟨between, -, near, last⟩⟩ := close id member
    · exact ⟨id, isFinish, .refl⟩
    · have lastFeeds := (Graph.mem_successors Graph.wellFormed_sample).1 last
      rcases near with rfl | first
      · exact ⟨finish, isFinish, .single lastFeeds⟩
      · exact ⟨finish, isFinish,
          .head ((Graph.mem_successors Graph.wellFormed_sample).1 first) (.single lastFeeds)⟩
  obtain ⟨plan, isPlan, copied, receives⟩ := assemble_preserves_flow grouped
    Graph.singlePortMarkers_sample distinctSerials leadsToEnd .all .byContent
  have noMarker : Graph.sample.isMarker ⟨5⟩ = false := by decide +kernel
  refine ⟨primitive, groups, plan, grouped, isPlan, copied ⟨5⟩ (by decide +kernel) noMarker, ?_⟩
  intro stage isStage pair isPair same source
  rw [receives stage isStage pair isPair (same ▸ noMarker), same]

end StagePlanner
