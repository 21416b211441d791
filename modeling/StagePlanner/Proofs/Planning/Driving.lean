import StagePlanner.Proofs.Assembly.Feeding
import StagePlanner.Proofs.Assembly.Liveness
import StagePlanner.Proofs.Grouping.Classification
import StagePlanner.Proofs.Planning.Staging
import StagePlanner.Proofs.Preparation.Readiness

/-!
# What drives stages

Only stages of the primitive plan are asked for an input that is no broadcast. Pruning removes
operators that reach no output, and with them the inputs that fed nothing else, so a stage of a
finished plan need not have such an input any more. It has one exactly when some operator that is
left computes on data that reach it from another marker than a broadcast (`Graph.Driven`), or when
data pass through the stage as they are.
-/

namespace StagePlanner

open Relation

/-- A marker that is no broadcast feeds the operator, directly or through operators that are no
markers. -/
def Graph.Driven (graph : Graph) (id : OperatorId) : Prop :=
  ∃ marker ∈ graph.operators, marker.isMarker = true ∧ marker.marker? ≠ some .broadcast ∧
    ∃ first, graph.Feeds marker.id first ∧ graph.Upstream first id

/-- Some input of the stage is no broadcast. -/
def Stage.Driven (stage : Stage) : Prop := ∃ input ∈ stage.inputs, stage.marker? input ≠ some .broadcast

/-- Some input of the stage is an output of it as it is. -/
def Stage.PassesOn (stage : Stage) : Prop :=
  ∃ input ∈ stage.inputs, ∃ output ∈ stage.outputs, stage.graph.Feeds input.marker output.marker

namespace Stage.Realizes

variable {stage : Stage} {graph : Graph} {cut : StageCut} (realizes : stage.Realizes graph cut)
  (wellFormed : graph.WellFormed)

include realizes wellFormed

/-- An operator of the stage is a marker when its original is one. -/
theorem isMarker_of_copy {pair : CopiedPair .operator} (isPair : pair ∈ stage.provenance)
    {operator : Operator} (member : operator ∈ stage.graph.operators) (isCopy : operator.id = pair.copy) :
    operator.isMarker = graph.isMarker pair.source := by
  rw [← realizes.isMarker_eq wellFormed isPair, ← isCopy, Graph.isMarker,
    Graph.holds_id realizes.wellFormed member]

variable (sound : cut.Sound graph)

include sound

/-- A copy is entered through markers of a kind when the cut carries wires to its original from such
markers. -/
theorem enters_iff {pair : CopiedPair .operator} (isPair : pair ∈ stage.provenance)
    {kind : Option Marker} : stage.Enters kind pair.copy ↔
      ∃ marker ∈ graph.operators, marker.id ∈ cut.inputs ∧ marker.marker? = kind ∧
        ∃ output input, cut.Carries graph ⟨marker.id, output⟩ ⟨pair.source, input⟩ := by
  -- The marker of an input is like the marker for which the input stands.
  have alike : ∀ input ∈ stage.inputs, ∀ marker ∈ graph.operators,
      input.StandsFor stage.provenance marker.id → stage.marker? input = marker.marker? := by
    intro input isInput marker isMarker standsFor
    have same := realizes.exchange?_eq wellFormed (List.mem_append_left _ isInput)
      (standsFor.1 ▸ OrderedSet.mem_singleton.2 rfl)
    rw [wellFormed.operator?_eq_some_iff.2 ⟨isMarker, rfl⟩] at same
    rw [marker?_eq_exchange?, ← same]
    rfl
  constructor
  · rintro ⟨input, isInput, rfl, output, index, wired⟩
    obtain ⟨id, isListed, standsFor⟩ := exists_partner_of_mem realizes.inputs isInput
    obtain ⟨marker, isMarker, rfl⟩ := Graph.mem_operatorIds.1 (sound.members id
      (sound.inputs id (OrderedSet.mem_toList.1 isListed)).1)
    obtain ⟨was, kept⟩ := (realizes.wired _ standsFor.2 pair isPair output index).1 wired
    exact ⟨marker, isMarker, OrderedSet.mem_toList.1 isListed,
      (alike input isInput marker isMarker standsFor).symm, output, index, was,
      realizes.source_mem standsFor.2, realizes.source_mem isPair, kept⟩
  · rintro ⟨marker, isMarker, isListed, rfl, output, index, carries⟩
    obtain ⟨input, isInput, standsFor⟩ :=
      exists_partner realizes.inputs (OrderedSet.mem_toList.2 isListed)
    exact ⟨input, isInput, alike input isInput marker isMarker standsFor, output, index,
      (realizes.wired _ standsFor.2 pair isPair output index).2 ⟨carries.wired, carries.kept⟩⟩

omit sound in
/-- What leads to an operator through operators that are no markers is left with it. -/
theorem exists_copy_of_upstream (complete : cut.Complete graph) {result : Stage}
    (fedLike : result.FedLike stage) {first last : OperatorId} (upstream : graph.Upstream first last)
    (noMarker : graph.isMarker last = false)
    (isLeft : ∃ pair ∈ stage.provenance, pair.source = last ∧ pair.copy ∈ result.graph.operatorIds) :
    graph.isMarker first = false ∧
      ∃ pair ∈ stage.provenance, pair.source = first ∧ pair.copy ∈ result.graph.operatorIds := by
  induction upstream using ReflTransGen.head_induction_on with
  | refl => exact ⟨noMarker, isLeft⟩
  | @head source target step _ ih =>
    obtain ⟨targetNoMarker, targetPair, isTarget, rfl, targetLeft⟩ := ih
    obtain ⟨sourceNoMarker, output, input, wired⟩ := (Graph.feedsBy_iff wellFormed).1 step
    have carries := complete.producers _ _ wired (realizes.source_mem isTarget) targetNoMarker
    obtain ⟨sourcePair, isSource, same⟩ := realizes.exists_copy carries.sourceMember
    refine ⟨sourceNoMarker, sourcePair, isSource, same, ?_⟩
    have copied : stage.graph.Feeds sourcePair.copy targetPair.copy :=
      ⟨output, input, (realizes.wired sourcePair isSource targetPair isTarget output input).2
        (by rw [same]; exact ⟨wired, carries.kept⟩)⟩
    obtain ⟨target, isLeft, targetId⟩ := Graph.mem_operatorIds.1 targetLeft
    obtain ⟨source, wasThere, sourceId⟩ := copied.operators.1
    have stays := fedLike.inner target isLeft
      ((realizes.isMarker_of_copy wellFormed isTarget (fedLike.operators target isLeft) targetId).trans
        targetNoMarker) source wasThere
      ((realizes.isMarker_of_copy wellFormed isSource wasThere sourceId).trans (same ▸ sourceNoMarker))
      (by rw [sourceId, targetId]; exact copied)
    exact Graph.mem_operatorIds.2 ⟨source, stays.1, sourceId⟩

/-! ### What is left of a stage -/

section Left

variable (complete : cut.Complete graph) {result : Stage} (fedLike : result.FedLike stage)

include fedLike

omit sound in
/-- An operator that is left is a copy, and no marker if its original is none. -/
theorem exists_source_of_left {operator : Operator} (member : operator ∈ result.graph.operators) :
    ∃ pair ∈ result.provenance, pair ∈ stage.provenance ∧ pair.copy = operator.id ∧
      operator.isMarker = graph.isMarker pair.source := by
  have wasThere := fedLike.operators operator member
  obtain ⟨pair, isPair, isCopy⟩ := realizes.exists_source wasThere
  refine ⟨pair, fedLike.keeps pair isPair ?_, isPair, isCopy,
    realizes.isMarker_of_copy wellFormed isPair wasThere isCopy.symm⟩
  exact isCopy ▸ Graph.mem_operatorIds.2 ⟨operator, member, rfl⟩

include complete

/-- A marker that feeds an operator that is left has an input of its kind in the stage. -/
theorem exists_input_of_feeds {pair : CopiedPair .operator}
    (isPair : pair ∈ stage.provenance) (isLeft : pair.copy ∈ result.graph.operatorIds)
    (noMarker : graph.isMarker pair.source = false) {marker : Operator} (isThere : marker ∈ graph.operators)
    (isMarker : marker.isMarker = true) (feeds : graph.Feeds marker.id pair.source) :
    ∃ input ∈ result.inputs, result.marker? input = marker.marker? := by
  obtain ⟨output, index, wired⟩ := feeds
  have carries := complete.producers _ _ wired (realizes.source_mem isPair) noMarker
  have isInput : marker.id ∈ cut.inputs :=
    (complete.markers _ carries.sourceMember
      ((Graph.holds_id wellFormed isThere).trans isMarker)).resolve_right
        (StageCut.keeps_iff.1 carries.kept).2.1
  have entered : stage.Enters marker.marker? pair.copy :=
    (realizes.enters_iff wellFormed sound isPair).2
      ⟨marker, isThere, isInput, rfl, output, index, carries⟩
  obtain ⟨operator, member, isCopy⟩ := Graph.mem_operatorIds.1 isLeft
  have operatorNoMarker := (realizes.isMarker_of_copy wellFormed isPair (fedLike.operators operator member)
    isCopy).trans noMarker
  obtain ⟨input, isInput, kind, -⟩ :=
    (fedLike.entered operator member operatorNoMarker _).2 (isCopy ▸ entered)
  exact ⟨input, isInput, kind⟩

/-- What is left of a stage is driven when an operator that is left is driven, or data pass through. -/
theorem driven_iff (resultSound : result.Sound)
    (reads : ∀ input ∈ result.inputs, ∃ id, result.graph.Feeds input.marker id)
    (tidy : ∀ pair ∈ result.provenance, pair.copy ∈ result.graph.operatorIds)
    (bridges : ∀ marker ∈ graph.operators, marker.isMarker = true → ∀ target,
      graph.isMarker target = true → graph.Feeds marker.id target → marker.marker? ≠ some .broadcast) :
    result.Driven ↔ (∃ source ∈ result.sources, graph.isMarker source = false ∧ graph.Driven source) ∨
      result.PassesOn := by
  constructor
  · rintro ⟨input, isInput, notBroadcast⟩
    obtain ⟨target, feeds⟩ := reads input isInput
    obtain ⟨operator, member, rfl⟩ := feeds.operators.2
    cases isMarker : operator.isMarker with
    | true =>
      obtain ⟨port, isPort, atOperator⟩ := resultSound.port operator member isMarker
      rw [← atOperator] at feeds
      rcases List.mem_append.1 isPort with isInputToo | isOutput
      · exact absurd feeds (resultSound.unfed port isInputToo _)
      · exact .inr ⟨input, isInput, port, isOutput, feeds⟩
    | false =>
      obtain ⟨pair, isPair, wasPair, isCopy, same⟩ :=
        realizes.exists_source_of_left wellFormed fedLike member
      have noMarker := same.symm.trans isMarker
      have entered := (fedLike.entered operator member isMarker _).1 ⟨input, isInput, rfl, feeds⟩
      obtain ⟨marker, isThere, isListed, kind, output, index, carries⟩ :=
        (realizes.enters_iff wellFormed sound wasPair).1 (isCopy ▸ entered)
      refine .inl ⟨pair.source, mem_sources.2 ⟨pair, isPair, rfl⟩, noMarker, marker, isThere, ?_,
        kind ▸ notBroadcast, pair.source, ⟨output, index, carries.wired⟩, .refl⟩
      exact (Graph.holds_id wellFormed isThere).symm.trans (sound.inputs _ isListed).2
  · rintro (⟨source, isSource, noMarker, marker, isThere, isMarker, notBroadcast, first, feeds, upstream⟩ |
      ⟨input, isInput, output, isOutput, feeds⟩)
    · obtain ⟨pair, isPair, rfl⟩ := mem_sources.1 isSource
      obtain ⟨firstNoMarker, firstPair, isFirst, rfl, firstLeft⟩ :=
        realizes.exists_copy_of_upstream wellFormed complete fedLike upstream noMarker
          ⟨pair, fedLike.provenance pair isPair, rfl, tidy pair isPair⟩
      obtain ⟨input, isInput, kind⟩ := realizes.exists_input_of_feeds wellFormed sound complete fedLike
        isFirst firstLeft firstNoMarker isThere isMarker feeds
      exact ⟨input, isInput, kind ▸ notBroadcast⟩
    · obtain ⟨former, isFormer, entered⟩ := fedLike.passed output isOutput _ ⟨input, isInput, rfl, feeds⟩
      obtain ⟨id, isListed, standsFor⟩ := exists_partner_of_mem realizes.outputs isFormer
      obtain ⟨marker, isThere, isMarker, kind, exit, entry, carries⟩ :=
        (realizes.enters_iff wellFormed sound standsFor.2).1 entered
      refine ⟨input, isInput, kind ▸ bridges marker isThere ?_ id ?_ ⟨exit, entry, carries.wired⟩⟩
      · exact (Graph.holds_id wellFormed isThere).symm.trans (sound.inputs _ isMarker).2
      · exact (sound.outputs id (OrderedSet.mem_toList.1 isListed)).2

omit wellFormed sound in
/-- Every output that is left is written. -/
theorem written_of_left :
    ∀ output ∈ result.outputs, ∃ source, result.graph.Feeds source output.marker := by
  refine fedLike.written fun output isOutput => ?_
  obtain ⟨id, isListed, standsFor⟩ := exists_partner_of_mem realizes.outputs isOutput
  obtain ⟨source, index, carries⟩ := complete.written id (OrderedSet.mem_toList.1 isListed)
  obtain ⟨pair, isPair, same⟩ := realizes.exists_copy carries.sourceMember
  refine ⟨pair.copy, source.index, index,
    (realizes.wired pair isPair _ standsFor.2 source.index index).2 ?_⟩
  rw [same]
  exact ⟨carries.wired, carries.kept⟩

/-- In a graph in which all operators are driven all that is left of a stage with outputs is driven. -/
theorem exists_driven (resultSound : result.Sound) (writes : result.outputs ≠ [])
    (driven : ∀ operator ∈ graph.operators, operator.isMarker = false → graph.Driven operator.id) :
    (∃ source ∈ result.sources, graph.isMarker source = false ∧ graph.Driven source) ∨
      result.PassesOn := by
  obtain ⟨output, isOutput⟩ := List.exists_mem_of_ne_nil _ writes
  obtain ⟨source, feeds⟩ := realizes.written_of_left complete fedLike output isOutput
  obtain ⟨operator, member, rfl⟩ := feeds.operators.1
  cases isMarker : operator.isMarker with
  | true =>
    obtain ⟨port, isPort, atOperator⟩ := resultSound.port operator member isMarker
    rw [← atOperator] at feeds
    rcases List.mem_append.1 isPort with isInput | isOutputToo
    · exact .inr ⟨port, isInput, output, isOutput, feeds⟩
    · exact absurd feeds (resultSound.idle port isOutputToo _)
  | false =>
    obtain ⟨pair, isPair, wasPair, -, same⟩ := realizes.exists_source_of_left wellFormed fedLike member
    have noMarker := same.symm.trans isMarker
    obtain ⟨original, isOriginal, sameId⟩ :=
      Graph.mem_operatorIds.1 (sound.members _ (realizes.source_mem wasPair))
    refine .inl ⟨pair.source, mem_sources.2 ⟨pair, isPair, rfl⟩, noMarker, sameId ▸ driven original isOriginal ?_⟩
    rwa [← sameId, Graph.isMarker, Graph.holds_id wellFormed isOriginal] at noMarker

end Left

end Stage.Realizes

/-! ### Staged graphs -/

namespace Graph.Staging

variable {graph : Graph} {equivalence : Equivalence} {plan : Plan}
  (staging : graph.Staging equivalence plan)

include staging

/-- Where a graph is staged, what a marker feeds another marker with is no broadcast: each such wire
has a stage of its own in the primitive plan. -/
theorem marker?_ne_broadcast {marker : Operator} (isThere : marker ∈ graph.operators)
    (isMarker : marker.isMarker = true) {target : OperatorId} (targetMarker : graph.isMarker target = true)
    (feeds : graph.Feeds marker.id target) : marker.marker? ≠ some .broadcast := by
  have wellFormed := staging.grouped.wellFormed
  have isBridge := staging.merging.cutsOf.bridge marker.id target
    ((Graph.holds_id wellFormed isThere).trans isMarker) targetMarker feeds
  obtain ⟨stage, isStage, realizes⟩ := exists_partner staging.merging.built.realized isBridge
  obtain ⟨origin, port, isInput, notBroadcast, isOrigin⟩ :=
    Plan.drivenBy_of_groups staging.grouped.isGroups stage isStage
  obtain rfl : origin = marker.id :=
    StageCut.mem_markerCut.2.2.1.1 (realizes.exists_input_iff.1 ⟨port, isInput, isOrigin⟩)
  have same := realizes.exchange?_eq wellFormed (List.mem_append_left _ isInput) isOrigin
  rw [wellFormed.operator?_eq_some_iff.2 ⟨isThere, rfl⟩] at same
  rwa [Stage.marker?_eq_exchange?, ← same] at notBroadcast

/-- A stage of the plan is what is left of a stage that realizes a complete cut, its inputs feed
something, it has outputs, and it remembers only what it holds. -/
theorem exists_realized (identified : graph.Identified) {stage : Stage} (isStage : stage ∈ plan.stages) :
    ∃ merged cut, merged.Realizes graph cut ∧ cut.Sound graph ∧ cut.Complete graph ∧
      stage.FedLike merged ∧ stage.Busy ∧
      ∀ pair ∈ stage.provenance, pair.copy ∈ stage.graph.operatorIds := by
  have mergedPlan := staging.merging.mergedPlan
  have fedLike : plan.FedLike staging.merged :=
    (Plan.fedLike_of_finished staging.settledSound staging.same).trans (Plan.fedLike_of_steps
      staging.mergedSound (staging.merging.agrees identified) staging.steps)
  obtain ⟨merged, isMerged, left⟩ := fedLike stage isStage
  obtain ⟨cut, isCut, realizes⟩ := exists_partner_of_mem mergedPlan.built.realized isMerged
  refine ⟨merged, cut, realizes, mergedPlan.sound cut isCut, mergedPlan.complete cut isCut, left, ?_⟩
  obtain ⟨settled, isSettled, rfl⟩ := List.mem_map.1 (staging.same.mem_iff.1 isStage)
  have busy := Plan.busy_of_settle .all equivalence staging.merged staging.mergedSound staging.settled
    staging.isSettled settled isSettled
  exact ⟨⟨busy.writes, busy.reads⟩, fun pair isPair =>
    ((Plan.mem_pruneProvenance (staging.settledSound.stages settled isSettled)).1 isPair).2⟩

end Graph.Staging

/-! ### Plans -/

namespace Planner

variable {ν : Type} [Volume ν] (planner : Planner ν) {document : Document} {named : NamedGraph}
  {annotated : AnnotatedPlan ν} {prepared : Graph}

/-- A stage of the plan of a document has an input that is no broadcast exactly when it holds a copy of
an operator that is driven in the prepared graph, or passes something on as it is. Where all
operators are driven, so are all stages. -/
theorem plan_driven_iff (described : document.build = .ok named) (tame : planner.simplifier.Tame)
    (succeeds : planner.plan.apply named.graph = (.ok annotated, prepared)) :
    (∀ stage ∈ annotated.plan.stages, stage.Driven ↔
      (∃ source ∈ stage.sources, prepared.isMarker source = false ∧ prepared.Driven source) ∨
        stage.PassesOn) ∧
    ((∀ operator ∈ prepared.operators, operator.isMarker = false → prepared.Driven operator.id) →
      ∀ stage ∈ annotated.plan.stages, stage.Driven) := by
  have planning := planner.exists_planning succeeds
  obtain ⟨report, isPrepared⟩ := planning.isPrepared
  obtain ⟨regular, identified⟩ := planner.regular_of_prepare described tame isPrepared
  obtain ⟨staging⟩ := planner.exists_staging described tame planning
  have driven_iff : ∀ stage ∈ annotated.plan.stages, stage.Driven ↔
      (∃ source ∈ stage.sources, prepared.isMarker source = false ∧ prepared.Driven source) ∨
        stage.PassesOn := by
    intro stage isStage
    obtain ⟨merged, cut, realizes, sound, complete, fedLike, busy, tidy⟩ :=
      staging.exists_realized identified isStage
    exact realizes.driven_iff regular.wellFormed sound complete fedLike
      (staging.sound.stages stage isStage) busy.reads tidy
      fun marker isThere isMarker target => staging.marker?_ne_broadcast isThere isMarker
  refine ⟨driven_iff, fun driven stage isStage => (driven_iff stage isStage).2 ?_⟩
  obtain ⟨merged, cut, realizes, sound, complete, fedLike, busy, -⟩ :=
    staging.exists_realized identified isStage
  exact realizes.exists_driven regular.wellFormed sound complete fedLike
    (staging.sound.stages stage isStage) busy.writes driven

/-- The plan of the sample in which sales are joined has three stages, and what drives them is told
apart as in all plans. -/
theorem plan_driven_joinSample : ∃ named annotated prepared, joinSample.build = .ok named ∧
    ({ config := .standard } : Planner Nat).plan.apply named.graph = (.ok annotated, prepared) ∧
    annotated.plan.stages.length = 3 ∧
    ∀ stage ∈ annotated.plan.stages, stage.Driven ↔
      (∃ source ∈ stage.sources, prepared.isMarker source = false ∧ prepared.Driven source) ∨
        stage.PassesOn := by
  obtain ⟨named, described⟩ := exists_of_isOk (by decide +kernel : joinSample.build.isOk = true)
  have computed : (joinSample.build >>= fun named =>
      (({ config := .standard } : Planner Nat).plan.apply named.graph).1.map fun annotated =>
        annotated.plan.stages.length).toOption = some 3 := by
    simp only [plan, planPrepared, stage, Plan.groups_eq_groupsSoon]
    decide +kernel
  rw [described] at computed
  obtain ⟨annotated, isPlanned, three⟩ := exists_of_map_toOption computed
  exact ⟨named, annotated, _, described, Prod.ext isPlanned rfl, three,
    (plan_driven_iff _ described (Simplifier.tame_ofRules _) (Prod.ext isPlanned rfl)).1⟩

/-- The whole of the rows, read by `x`, is wanted by `z` together with every row of `y`, and grouped by
`g` for `w`. -/
def wholeSample : Document :=
  let rows : TypeDefinition := .named "row"
  let result : List PortDefinition := [{ name := "o", type := rows }]
  { operators := [
      { id := "in", kind := "input", type := some rows },
      { id := "x", kind := "extract", outputs := result
        inputs := [{ name := "a", type := rows, unit := some .whole }] },
      { id := "y", kind := "extract", outputs := result, inputs := [{ name := "a", type := rows }] },
      { id := "z", kind := "extract", outputs := result
        inputs := [{ name := "a", type := rows }, { name := "b", type := rows }] },
      { id := "g", kind := "co_group", outputs := result
        inputs := [{ name := "a", type := rows, group := ["k"] }] },
      { id := "w", kind := "extract", outputs := result
        inputs := [{ name := "a", type := rows, unit := some .whole }, { name := "b", type := rows }] },
      { id := "out", kind := "output", type := some rows }]
    edges := [⟨"in", "x"⟩, ⟨"in", "y"⟩, ⟨"x", "z.a"⟩, ⟨"y", "z.b"⟩, ⟨"x", "g"⟩, ⟨"g", "w.a"⟩, ⟨"z", "w.b"⟩,
      ⟨"w", "out"⟩] }

/-- A stage of a plan need not have an input that is no broadcast: of the stage with `x`, `y` and `z`
one copy is left with `x` alone, which writes what is grouped. -/
theorem not_plan_driven : ∃ named annotated prepared, wholeSample.build = .ok named ∧
    ({ config := .standard } : Planner Nat).plan.apply named.graph = (.ok annotated, prepared) ∧
    ∃ stage ∈ annotated.plan.stages, ¬ stage.Driven := by
  obtain ⟨named, described⟩ := exists_of_isOk (by decide +kernel : wholeSample.build.isOk = true)
  have computed : (wholeSample.build >>= fun named =>
      (({ config := .standard } : Planner Nat).plan.apply named.graph).1.map fun annotated =>
        annotated.plan.stages.any fun stage =>
          stage.inputs.all fun input => stage.marker? input = some .broadcast).toOption = some true := by
    simp only [plan, prepare, fixUnits, Edit.fixAllUnits_eq, planPrepared, stage,
      Plan.groups_eq_groupsSoon]
    decide +kernel
  rw [described] at computed
  obtain ⟨annotated, isPlanned, found⟩ := exists_of_map_toOption computed
  obtain ⟨stage, isStage, only⟩ := List.any_eq_true.1 found
  refine ⟨named, annotated, _, described, Prod.ext isPlanned rfl, stage, isStage, ?_⟩
  rintro ⟨input, isInput, notBroadcast⟩
  exact notBroadcast (of_decide_eq_true (List.all_eq_true.1 only input isInput))

end Planner

end StagePlanner
