import StagePlanner.Proofs.Assembly.Schedule

/-!
# Wires into markers after merging

A stage built from a group lets every operator that feeds an output of a member feed all outputs of
the group. So a wire into a marker is copied in the stage of each group that brings both its ends
together (`Plan.BringsTogether`), be it by different members. No wire is lost, wires from
operators that are no markers are copied once, and a wire between markers is copied as often as
there are such groups; without optional passes, assembly leaves it at that.
-/

namespace StagePlanner

open Relation

namespace Stage

variable {stage : Stage} {graph : Graph} {cut : StageCut} {source target : Terminal}

/-- The copy of an output of the graph feeds the marker of a stage output that stands for the
target. -/
def DeliversWire (stage : Stage) (source target : Terminal) : Prop :=
  ∃ output ∈ stage.outputs, target.operator ∈ output.origins ∧
    ∃ pair ∈ stage.provenance, pair.source = source.operator ∧
      stage.graph.Wired ⟨pair.copy, source.index⟩ ⟨output.marker, target.index⟩

instance (stage : Stage) (source target : Terminal) : Decidable (stage.DeliversWire source target) :=
  List.decidableBEx _ stage.outputs

/-- A stage that realizes a cut delivers the wires into markers that the cut carries. -/
theorem Realizes.deliversWire_iff (realizes : stage.Realizes graph cut) (complete : cut.Complete graph)
    (isMarker : graph.isMarker target.operator = true) :
    stage.DeliversWire source target ↔ cut.Carries graph source target := by
  constructor
  · rintro ⟨output, isOutput, isOrigin, pair, isPair, isSource, wired⟩
    obtain ⟨marker, -, origins, isCopy⟩ := exists_partner_of_mem realizes.outputs isOutput
    rw [origins, OrderedSet.mem_singleton] at isOrigin
    exact realizes.copiesWire_iff.1 ⟨pair, isPair, _, isCopy, isSource, isOrigin.symm, wired⟩
  · intro carries
    have isOutput := (complete.markers _ carries.targetMember isMarker).resolve_left
      (StageCut.keeps_iff.1 carries.kept).1
    obtain ⟨output, isPort, origins, isCopy⟩ :=
      exists_partner realizes.outputs (OrderedSet.mem_toList.2 isOutput)
    obtain ⟨left, isLeft, right, isRight, leftSource, rightSource, wired⟩ :=
      realizes.copiesWire_iff.2 carries
    obtain rfl := realizes.pair_unique_of_source isRight isCopy rightSource
    exact ⟨output, isPort, origins ▸ OrderedSet.mem_singleton.2 rfl, left, isLeft, leftSource, wired⟩

/-- Trimming brings no wire back. -/
theorem Trims.deliversWire {result : Stage} (trims : result.Trims stage)
    (delivers : result.DeliversWire source target) : stage.DeliversWire source target := by
  obtain ⟨stays, restricts, -⟩ := trims
  obtain ⟨output, isOutput, isOrigin, pair, isPair, isSource, wired⟩ := delivers
  exact ⟨output, restricts.outputs.subset isOutput, isOrigin, pair, restricts.provenance ▸ isPair,
    isSource, ((restricts.graph.wired _ _).1 wired).1⟩

theorem deliversWire_pruneProvenance (sound : stage.Sound) :
    stage.pruneProvenance.DeliversWire source target ↔ stage.DeliversWire source target := by
  refine exists_congr fun output => and_congr_right fun _ => and_congr_right fun _ => ?_
  constructor
  · rintro ⟨pair, isPair, isSource, wired⟩
    exact ⟨pair, ((Plan.mem_pruneProvenance sound).1 isPair).1, isSource, wired⟩
  · rintro ⟨pair, isPair, isSource, wired⟩
    exact ⟨pair, (Plan.mem_pruneProvenance sound).2
      ⟨isPair, Graph.mem_operatorIds.2 wired.feeds.operators.1⟩, isSource, wired⟩

end Stage

namespace Plan

variable {plan result : Plan} {source target : Terminal}

/-- Some stage of a group lets an operator feed one of its outputs, and some stage of the group has
a marker as output. -/
def BringsTogether (plan : Plan) (elements : List StageId) (source marker : OperatorId) : Prop :=
  (∃ stage ∈ plan.stages, stage.id ∈ elements ∧ source ∈ (contribution stage).producers) ∧
    ∃ stage ∈ plan.stages, stage.id ∈ elements ∧ marker ∈ (contribution stage).outputs

/-- What holds of some part of a group holds of some stage of it. -/
theorem exists_part_iff {graph : Graph} {cuts : List StageCut} (distinct : plan.stageIds.Nodup)
    {elements : List StageId} {parts : List StageCut}
    (paired : List.Forall₂ (plan.HasCut graph cuts) elements parts) {holds : StageCut → Prop}
    {contributes : Stage → Prop}
    (same : ∀ stage cut, stage.Realizes graph cut → (contributes stage ↔ holds cut)) :
    (∃ part ∈ parts, holds part) ↔
      ∃ stage ∈ plan.stages, stage.id ∈ elements ∧ contributes stage := by
  constructor
  · rintro ⟨part, isPart, partHolds⟩
    obtain ⟨_, inGroup, stage, isStage, rfl, realizes, -⟩ := exists_partner paired isPart
    exact ⟨stage, isStage, inGroup, (same stage part realizes).2 partHolds⟩
  · rintro ⟨stage, isStage, inGroup, stageContributes⟩
    obtain ⟨part, isPart, other, isOther, sameId, realizes, -⟩ :=
      exists_partner_of_mem paired inGroup
    obtain rfl := stage_unique distinct isOther isStage sameId
    exact ⟨part, isPart, (same other part realizes).1 stageContributes⟩

/-! ### From the merged plan to the assembled one -/

/-- The stage with an identifier delivers a wire. -/
def DeliveredBy (plan : Plan) (source target : Terminal) (id : StageId) : Prop :=
  ∃ stage ∈ plan.stages, stage.id = id ∧ stage.DeliversWire source target

theorem existsUnique_deliveredBy_iff (distinct : plan.stageIds.Nodup) :
    (∃! id, plan.DeliveredBy source target id) ↔
      ∃! stage, stage ∈ plan.stages ∧ stage.DeliversWire source target := by
  constructor
  · rintro ⟨_, ⟨stage, isStage, rfl, delivers⟩, only⟩
    refine ⟨stage, ⟨isStage, delivers⟩, fun other ⟨isOther, otherDelivers⟩ => ?_⟩
    exact stage_unique distinct isOther isStage (only _ ⟨other, isOther, rfl, otherDelivers⟩)
  · rintro ⟨stage, ⟨isStage, delivers⟩, only⟩
    refine ⟨stage.id, ⟨stage, isStage, rfl, delivers⟩, ?_⟩
    rintro _ ⟨other, isOther, rfl, otherDelivers⟩
    rw [only other ⟨isOther, otherDelivers⟩]

/-- Trimming that keeps all outputs keeps the wires that stages deliver. -/
theorem Trims.deliveredBy_iff (trims : result.Trims plan fun _ _ => True) (sound : plan.Sound)
    {id : StageId} : result.DeliveredBy source target id ↔ plan.DeliveredBy source target id := by
  constructor
  · rintro ⟨stage, isStage, rfl, delivers⟩
    obtain ⟨old, isOld, trimmed⟩ := trims.stages stage isStage
    exact ⟨old, isOld, trimmed.id.symm, trimmed.deliversWire delivers⟩
  · rintro ⟨old, isOld, rfl, output, isOutput, isOrigin, pair, isPair, isSource, wired⟩
    obtain ⟨stage, isStage, trimmed, isThere⟩ := trims.exists_trimmed sound.proper isOld isOutput trivial
    refine ⟨stage, isStage, trimmed.id, output, isThere, isOrigin, ?_⟩
    obtain ⟨stays, restricts, closed⟩ := trimmed
    have stay := ((restricts.mem_outputs output).1 isThere).2
    exact ⟨pair, restricts.provenance ▸ isPair, isSource,
      (restricts.graph.wired _ _).2 ⟨wired, closed _ _ wired.feeds stay, stay⟩⟩

theorem deliveredBy_tidied (sound : plan.Sound) {id : StageId} :
    plan.tidied.DeliveredBy source target id ↔ plan.DeliveredBy source target id := by
  constructor
  · rintro ⟨stage, isStage, rfl, delivers⟩
    obtain ⟨old, isOld, rfl⟩ := List.mem_map.1 isStage
    exact ⟨old, isOld, rfl, (Stage.deliversWire_pruneProvenance (sound.stages old isOld)).1 delivers⟩
  · rintro ⟨stage, isStage, rfl, delivers⟩
    exact ⟨_, List.mem_map_of_mem isStage, rfl,
      (Stage.deliversWire_pruneProvenance (sound.stages stage isStage)).2 delivers⟩

theorem deliveredBy_of_perm (same : result.stages.Perm plan.stages) {id : StageId} :
    result.DeliveredBy source target id ↔ plan.DeliveredBy source target id := by
  simp only [DeliveredBy, same.mem_iff]

theorem deliveredBy_of_trims (sound : plan.Sound)
    (trims : ReflTransGen (fun plan result => Trims result plan fun _ _ => True) plan result)
    {id : StageId} : result.DeliveredBy source target id ↔ plan.DeliveredBy source target id := by
  induction trims with
  | refl => rfl
  | tail earlier last ih =>
    have middleSound := sound_of_steps (fun _ _ before trims => trims.sound before) sound earlier
    exact (last.deliveredBy_iff middleSound).trans ih

end Plan

/-! ### Merged stages -/

namespace Merging

variable {graph : Graph} {primitive merged : Plan} {groups : List StageGroup}
  {level : OperatorId → Nat} {cuts mergedCuts : List StageCut}
  (merging : Merging graph primitive groups level cuts merged mergedCuts)

include merging

/-- An operator that is no marker feeds outputs of one stage only. -/
theorem stage_unique_of_producers {source : OperatorId} (noMarker : graph.isMarker source = false)
    {left right : Stage} (isLeft : left ∈ primitive.stages) (isRight : right ∈ primitive.stages)
    (fromLeft : source ∈ (Plan.contribution left).producers)
    (fromRight : source ∈ (Plan.contribution right).producers) : left = right := by
  have copied : ∀ stage ∈ primitive.stages, source ∈ (Plan.contribution stage).producers →
      ∃ start target, start.operator = source ∧ graph.isMarker target.operator = true ∧
        graph.Wired start target ∧ stage.CopiesWire start target := by
    intro stage isStage isProducer
    obtain ⟨cut, isCut, realizes⟩ := exists_partner_of_mem merging.built.realized isStage
    have sound := merging.sound cut isCut
    obtain ⟨start, target, carries, isOutput, isSource⟩ :=
      (Plan.mem_producers_contribution realizes).1 isProducer
    exact ⟨start, target, isSource, (sound.outputs _ isOutput).2, carries.wired,
      realizes.copiesWire_iff.2 carries⟩
  -- All wires from the operator into markers are copied in the stage of its region.
  have regional : ∃ region, ∀ stage ∈ primitive.stages,
      source ∈ (Plan.contribution stage).producers → stage = region := by
    obtain ⟨start, _, rfl, -, wired, -⟩ := copied left isLeft fromLeft
    have member := Graph.mem_operatorIds.2 wired.feeds.operators.1
    obtain ⟨cut, isCut, isRegion⟩ := merging.cutsOf.region start.operator member noMarker
    obtain ⟨region, isStage, realizes⟩ := exists_partner merging.built.realized isCut
    refine ⟨region, fun stage isOther isProducer => ?_⟩
    obtain ⟨other, target, same, isMarker, otherWired, copies⟩ := copied stage isOther isProducer
    have carries := (isRegion.carries_marker_iff merging.wellFormed merging.cutsOf.levelling member
      noMarker isMarker).2 ⟨otherWired, same ▸ .refl _⟩
    exact (merging.cutsOf.copiesWire_iff merging.built isMarker isStage
      (realizes.copiesWire_iff.2 carries) stage isOther).1 copies
  obtain ⟨region, only⟩ := regional
  exact (only left isLeft fromLeft).trans (only right isRight fromRight).symm

/-- Only one group brings an operator that is no marker together with markers. -/
theorem group_unique_of_bringsTogether {source marker : OperatorId}
    (noMarker : graph.isMarker source = false) {left right : StageGroup} (isLeft : left ∈ groups)
    (isRight : right ∈ groups) (inLeft : primitive.BringsTogether left.elements source marker)
    (inRight : primitive.BringsTogether right.elements source marker) : left = right := by
  obtain ⟨⟨first, isFirst, ofLeft, fromFirst⟩, -⟩ := inLeft
  obtain ⟨⟨second, isSecond, ofRight, fromSecond⟩, -⟩ := inRight
  obtain rfl := merging.stage_unique_of_producers noMarker isFirst isSecond fromFirst fromSecond
  exact merging.mergeable.group_unique merging.built.distinctStages isLeft isRight ofLeft ofRight

variable {source target : Terminal} (wired : graph.Wired source target)
  (isMarker : graph.isMarker target.operator = true)

include wired isMarker

/-- The union of a group carries a wire into a marker when the group brings its ends together. -/
theorem carries_iff_bringsTogether {group : StageGroup} (isGroup : group ∈ groups) {united : StageCut}
    (unites : united.UnitesGroup graph primitive cuts group.elements) :
    united.Carries graph source target ↔
      primitive.BringsTogether group.elements source.operator target.operator := by
  obtain ⟨parts, paired, merges⟩ := unites
  have inCuts := Plan.cuts_of_parts paired
  have carries : united.Carries graph source target ↔ _ := merges.carries_marker_iff
    (fun part isPart => merging.sound part (inCuts part isPart))
    (Plan.apart_of_independent (merging.mergeable.independent group isGroup) paired)
    (fun part isPart => merging.complete part (inCuts part isPart)) isMarker
  have distinct := merging.built.distinctStages
  rw [carries, merges.producers, merges.outputs, and_iff_right wired]
  exact and_congr
    (Plan.exists_part_iff distinct paired fun _ _ realizes => Plan.mem_producers_contribution realizes)
    (Plan.exists_part_iff distinct paired fun _ _ realizes => Plan.mem_outputs_contribution realizes)

/-- The stages of a merged plan deliver what their groups bring together. -/
theorem paired_deliversWire :
    List.Forall₂ (fun (stage : Stage) (group : StageGroup) => stage.DeliversWire source target ↔
      primitive.BringsTogether group.elements source.operator target.operator) merged.stages groups := by
  have unions : List.Forall₂ (fun group united => group ∈ groups ∧
      StageCut.UnitesGroup united graph primitive cuts group.elements) groups mergedCuts :=
    (List.forall₂_and_left _ _).2 ⟨fun _ member => member, merging.mergedPlan.unions⟩
  refine (paired_of_paired merging.mergedPlan.built.realized unions).imp fun stage group linked => ?_
  obtain ⟨united, isUnited, realizes, isGroup, unites⟩ := linked
  rw [realizes.deliversWire_iff (merging.mergedPlan.complete united isUnited) isMarker]
  exact merging.carries_iff_bringsTogether wired isMarker isGroup unites

/-- In a merged plan one stage delivers a wire into a marker when one group brings its ends
together. -/
theorem existsUnique_deliversWire_iff :
    (∃! stage, stage ∈ merged.stages ∧ stage.DeliversWire source target) ↔
      ∃! group, group ∈ groups ∧
        primitive.BringsTogether group.elements source.operator target.operator := by
  have paired := merging.paired_deliversWire wired isMarker
  have flipped : List.Forall₂ (fun (group : StageGroup) (stage : Stage) =>
      primitive.BringsTogether group.elements source.operator target.operator ↔
        stage.DeliversWire source target) groups merged.stages :=
    paired.flip.imp fun _ _ same => same.symm
  exact ⟨existsUnique_of_partners flipped merging.mergedPlan.built.distinctStages.of_map,
    existsUnique_of_partners paired (merging.mergeable.nodup merging.built.distinctStages)⟩

/-- Some stage of a merged plan delivers a wire into a marker. -/
theorem exists_deliversWire : ∃ stage ∈ merged.stages, stage.DeliversWire source target := by
  obtain ⟨united, isUnited, carries⟩ := merging.exists_carries wired isMarker
  obtain ⟨stage, isStage, realizes⟩ := exists_partner merging.mergedPlan.built.realized isUnited
  exact ⟨stage, isStage,
    (realizes.deliversWire_iff (merging.mergedPlan.complete united isUnited) isMarker).2 carries⟩

/-- One stage of a merged plan delivers a wire from an operator that is no marker into a marker. -/
theorem existsUnique_deliversWire (noMarker : graph.isMarker source.operator = false) :
    ∃! stage, stage ∈ merged.stages ∧ stage.DeliversWire source target := by
  obtain ⟨stage, isStage, delivers⟩ := merging.exists_deliversWire wired isMarker
  obtain ⟨group, isGroup, same⟩ :=
    exists_partner_of_mem (merging.paired_deliversWire wired isMarker) isStage
  refine (merging.existsUnique_deliversWire_iff wired isMarker).2
    ⟨group, ⟨isGroup, same.1 delivers⟩, fun other ⟨isOther, brings⟩ => ?_⟩
  exact merging.group_unique_of_bringsTogether noMarker isOther isGroup brings (same.1 delivers)

end Merging

/-- Without optional passes assembly loses no wire into a marker: some stage of the plan delivers it.
A wire from an operator that is no marker is delivered by one stage only. A wire from a marker
is delivered by one stage only exactly when one group only brings its ends together. -/
theorem assemble_delivers_once_iff {graph : Graph} {primitive : Plan} {groups : List StageGroup}
    (grouped : Grouped graph primitive groups) (single : graph.SinglePortMarkers)
    (equivalence : Equivalence) :
    ∃ plan, primitive.assemble graph (groups.map StageGroup.elements) {} equivalence = .ok plan ∧
      plan.stageIds.Nodup ∧
      ∀ source target, graph.Wired source target → graph.isMarker target.operator = true →
        (∃ stage ∈ plan.stages, stage.DeliversWire source target) ∧
        (graph.isMarker source.operator = false →
          ∃! stage, stage ∈ plan.stages ∧ stage.DeliversWire source target) ∧
        ((∃! stage, stage ∈ plan.stages ∧ stage.DeliversWire source target) ↔
          ∃! group, group ∈ groups ∧
            primitive.BringsTogether group.elements source.operator target.operator) := by
  obtain ⟨_, _, merged, _, isMerged, merging⟩ := grouped.exists_merging
  have mergedSound := merging.planSound single
  obtain ⟨settled, plan, isPlan, trims, settledSound, same, sound, -⟩ :=
    Plan.exists_assembled isMerged mergedSound merging.mergedPlan.circuitless
      (fun _ _ trims => .trim (trims.mono fun _ _ _ => trivial))
      (Plan.performs_idleRound false equivalence)
  have delivered : ∀ source target id,
      plan.DeliveredBy source target id ↔ merged.DeliveredBy source target id := fun _ _ _ =>
    (Plan.deliveredBy_of_perm same).trans ((Plan.deliveredBy_tidied settledSound).trans
      (Plan.deliveredBy_of_trims mergedSound trims))
  refine ⟨plan, isPlan, sound.distinct, fun source target wired isMarker => ?_⟩
  have once : (∃! stage, stage ∈ plan.stages ∧ stage.DeliversWire source target) ↔
      ∃! stage, stage ∈ merged.stages ∧ stage.DeliversWire source target := by
    rw [← Plan.existsUnique_deliveredBy_iff sound.distinct,
      ← Plan.existsUnique_deliveredBy_iff mergedSound.distinct]
    simp only [delivered]
  refine ⟨?_, fun noMarker => once.2 (merging.existsUnique_deliversWire wired isMarker noMarker),
    once.trans (merging.existsUnique_deliversWire_iff wired isMarker)⟩
  obtain ⟨stage, isStage, delivers⟩ := merging.exists_deliversWire wired isMarker
  obtain ⟨other, isOther, -, otherDelivers⟩ :=
    (delivered source target stage.id).2 ⟨stage, isStage, rfl, delivers⟩
  exact ⟨other, isOther, otherDelivers⟩

theorem assemble_delivers_sample : ∃ primitive groups plan, Grouped Graph.sample primitive groups ∧
    Graph.sample.SinglePortMarkers ∧
    primitive.assemble Graph.sample (groups.map StageGroup.elements) {} .bySerial = .ok plan ∧
    ∃! stage, stage ∈ plan.stages ∧ stage.DeliversWire ⟨⟨4⟩, 0⟩ ⟨⟨2⟩, 0⟩ := by
  obtain ⟨primitive, groups, grouped⟩ := Graph.exists_grouped_sample
  have single := Graph.singlePortMarkers_sample
  obtain ⟨plan, isPlan, -, delivers⟩ := assemble_delivers_once_iff grouped single .bySerial
  have wired : Graph.sample.Wired ⟨⟨4⟩, 0⟩ ⟨⟨2⟩, 0⟩ := by decide +kernel
  have isMarker : Graph.sample.isMarker ⟨2⟩ = true := by decide +kernel
  have noMarker : Graph.sample.isMarker ⟨4⟩ = false := by decide +kernel
  exact ⟨primitive, groups, plan, grouped, single, isPlan,
    (delivers ⟨⟨4⟩, 0⟩ ⟨⟨2⟩, 0⟩ wired isMarker).2.1 noMarker⟩

/-- A wire between markers may be delivered twice. In the sample graph one group has the stage in which
BEGIN feeds the shuffle. Another group has the stage in which BEGIN feeds a broadcast and the
stage of `x`, which feeds the shuffle as well, so its stage lets BEGIN feed the shuffle again. -/
theorem not_assemble_delivers_once : ¬ ∀ graph primitive groups, Grouped graph primitive groups →
    graph.SinglePortMarkers → ∀ equivalence, ∃ plan,
      primitive.assemble graph (groups.map StageGroup.elements) {} equivalence = .ok plan ∧
        ∀ source target, graph.Wired source target → graph.isMarker target.operator = true →
          ∃! stage, stage ∈ plan.stages ∧ stage.DeliversWire source target := by
  intro once
  obtain ⟨primitive, groups, grouped⟩ := Graph.exists_grouped_sample
  obtain ⟨plan, isPlan, delivers⟩ :=
    once Graph.sample primitive groups grouped Graph.singlePortMarkers_sample .bySerial
  have twice : (Graph.sample.primitivePlan >>= fun primitive => primitive.groups >>= fun groups =>
      (primitive.assemble Graph.sample (groups.map StageGroup.elements) {} .bySerial).map
        fun (plan : Plan) => (plan.stages.filter fun (stage : Stage) =>
          stage.DeliversWire ⟨⟨0⟩, 0⟩ ⟨⟨2⟩, 0⟩).map Stage.id).toOption = some [⟨0⟩, ⟨2⟩] := by
    simp only [Plan.groups_eq_groupsSoon]
    decide +kernel
  rw [grouped.isPrimitive] at twice
  change (primitive.groups >>= _).toOption = _ at twice
  rw [grouped.isGroups] at twice
  change ((primitive.assemble _ _ _ _).map _).toOption = _ at twice
  rw [isPlan] at twice
  obtain ⟨stage, -, only⟩ := delivers ⟨⟨0⟩, 0⟩ ⟨⟨2⟩, 0⟩ (by decide +kernel) (by decide +kernel)
  have all : ∀ id ∈ ([⟨0⟩, ⟨2⟩] : List StageId), id = stage.id := by
    rw [← Option.some.inj twice]
    intro id listed
    obtain ⟨other, isOther, rfl⟩ := List.mem_map.1 listed
    obtain ⟨isStage, delivering⟩ := List.mem_filter.1 isOther
    exact congrArg Stage.id (only other ⟨isStage, of_decide_eq_true delivering⟩)
  have same := (all ⟨0⟩ (by decide)).trans (all ⟨2⟩ (by decide)).symm
  exact absurd same (by decide)

end StagePlanner
