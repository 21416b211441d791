import StagePlanner.Proofs.Cutting.Cut

/-!
# Cutting is exact

A graph without circuits is cut into stages that hold every wire into a marker once and all
producers of every other operator, and a graph with a circuit is refused. `CutsOf` collects what
is true of the cuts, `ExactCutting` what that means for the stages of the plan.

Nothing is assumed about markers: they may have any number of ports and lie anywhere.
-/

namespace StagePlanner

/-- What the list of all cuts of a graph is like. -/
structure CutsOf (graph : Graph) (level : OperatorId → Nat) (cuts : List StageCut) : Prop where
  levelling : graph.Levelling level
  primitive : ∀ cut ∈ cuts, cut.IsPrimitive graph level
  region : ∀ seed ∈ graph.operatorIds, graph.isMarker seed = false →
    ∃ cut ∈ cuts, cut.IsRegion graph level seed
  bridge : ∀ source target, graph.isMarker source = true → graph.isMarker target = true →
    graph.Feeds source target → Graph.markerCut source target ∈ cuts
  /-- No two cuts carry one wire into a marker. -/
  apart : cuts.Pairwise fun left right => ∀ source target,
    graph.isMarker target.operator = true → left.Carries graph source target →
      ¬ right.Carries graph source target

namespace Graph

variable {graph : Graph}

/-- A graph without circuits is cut into stages that realize its cuts. -/
theorem exists_primitivePlan (wellFormed : graph.WellFormed) (acyclic : graph.Acyclic) :
    ∃ level cuts plan, graph.primitivePlan = .ok plan ∧ CutsOf graph level cuts ∧
      plan.Built graph cuts := by
  have ordered : ∃ order, graph.dependencies.order = .ok order :=
    (DependencyGraph.orderBy_isOk_iff dependencies_wellFormed).2
      ((circuitless_dependencies_iff wellFormed).2 acyclic)
  obtain ⟨order, isOrder⟩ := ordered
  obtain ⟨level, levelling, lookup⟩ := levelling_levels wellFormed isOrder
  have cutsOf : CutsOf graph level (graph.cuts order) := {
    levelling
    primitive := fun cut => isPrimitive_of_mem_cuts wellFormed acyclic isOrder lookup
    region := fun seed => exists_regionCut wellFormed acyclic isOrder lookup
    bridge := fun source target sourceMarker targetMarker feeds =>
      List.mem_append_right _ ((mem_markerCuts wellFormed isOrder).2
        ⟨source, target, sourceMarker, targetMarker, feeds, rfl⟩)
    apart := cuts_pairwise wellFormed acyclic isOrder levelling lookup }
  obtain ⟨plan, isPlan, built⟩ := Plan.exists_foldlM_addStage wellFormed fun cut member =>
    (cutsOf.primitive cut member).sound wellFormed acyclic levelling
  have cutAlong : graph.primitivePlan =
      (graph.cuts order).foldlM (fun (plan : Plan) cut => plan.addStage graph cut) {} := by
    rw [primitivePlan, isOrder]
  exact ⟨level, graph.cuts order, plan, cutAlong.trans isPlan, cutsOf, built⟩

/-- A graph that is cut into a plan has no circuit. -/
theorem acyclic_of_primitivePlan (wellFormed : graph.WellFormed) {plan : Plan}
    (isPlan : graph.primitivePlan = .ok plan) : graph.Acyclic := by
  rw [primitivePlan] at isPlan
  cases ordered : graph.dependencies.order with
  | error circuits => rw [ordered] at isPlan; cases isPlan
  | ok order =>
    exact (circuitless_dependencies_iff wellFormed).1
      (DependencyGraph.circuitless_of_orderBy dependencies_wellFormed ordered)

end Graph

namespace Stage

/-- The stage of the region of an operator: the region with all that leads to it without a marker
in between, the markers that feed this, and the markers that the region feeds. -/
structure HoldsRegion (stage : Stage) (graph : Graph) (level : OperatorId → Nat)
    (seed : OperatorId) : Prop where
  sources : ∀ id, id ∈ stage.sources ↔ graph.LeadsTo level id seed ∨
    (∃ port ∈ stage.inputs, id ∈ port.origins) ∨ ∃ port ∈ stage.outputs, id ∈ port.origins
  inputs : ∀ id, (∃ port ∈ stage.inputs, id ∈ port.origins) ↔
    graph.isMarker id = true ∧ ∃ target, graph.LeadsTo level target seed ∧ graph.Feeds id target
  outputs : ∀ id, (∃ port ∈ stage.outputs, id ∈ port.origins) ↔
    graph.isMarker id = true ∧ ∃ source, graph.SameRegion level source seed ∧ graph.Feeds source id

/-- The stage of an edge between two markers. -/
structure HoldsBridge (stage : Stage) (source target : OperatorId) : Prop where
  sources : ∀ id, id ∈ stage.sources ↔ id = source ∨ id = target
  inputs : ∀ id, (∃ port ∈ stage.inputs, id ∈ port.origins) ↔ id = source
  outputs : ∀ id, (∃ port ∈ stage.outputs, id ∈ port.origins) ↔ id = target

/-- A copied operator has exactly the producers of its original, port by port. -/
structure KeepsProducers (stage : Stage) (graph : Graph) (pair : CopiedPair .operator) :
    Prop where
  complete : ∀ source input, graph.Wired source ⟨pair.source, input⟩ →
    ∃ producer ∈ stage.provenance, producer.source = source.operator ∧
      stage.graph.Wired ⟨producer.copy, source.index⟩ ⟨pair.copy, input⟩
  genuine : ∀ source input, stage.graph.Wired source ⟨pair.copy, input⟩ →
    ∃ producer ∈ stage.provenance, producer.copy = source.operator ∧
      graph.Wired ⟨producer.source, source.index⟩ ⟨pair.source, input⟩

variable {stage : Stage} {graph : Graph} {cut : StageCut} {level : OperatorId → Nat}

theorem Realizes.holdsRegion (realizes : stage.Realizes graph cut) {seed : OperatorId}
    (isRegion : cut.IsRegion graph level seed) : stage.HoldsRegion graph level seed where
  sources id := by
    rw [realizes.mem_sources_iff, realizes.exists_input_iff, realizes.exists_output_iff]
    exact isRegion.members id
  inputs id := realizes.exists_input_iff.trans (isRegion.inputs id)
  outputs id := realizes.exists_output_iff.trans (isRegion.outputs id)

theorem Realizes.holdsBridge {source target : OperatorId}
    (realizes : stage.Realizes graph (Graph.markerCut source target)) :
    stage.HoldsBridge source target where
  sources _ := realizes.mem_sources_iff.trans StageCut.mem_markerCut.1
  inputs _ := realizes.exists_input_iff.trans StageCut.mem_markerCut.2.2.1
  outputs _ := realizes.exists_output_iff.trans StageCut.mem_markerCut.2.2.2

theorem Realizes.keepsProducers (realizes : stage.Realizes graph cut) (complete : cut.Complete graph)
    {pair : CopiedPair .operator} (member : pair ∈ stage.provenance)
    (noMarker : graph.isMarker pair.source = false) : stage.KeepsProducers graph pair where
  complete source input wired := by
    obtain ⟨left, isLeft, right, isRight, leftSource, rightSource, copied⟩ :=
      realizes.copiesWire_iff.2 (complete.producers source ⟨pair.source, input⟩ wired
        (realizes.source_mem member) noMarker)
    obtain rfl := realizes.pair_unique_of_source isRight member rightSource
    exact ⟨left, isLeft, leftSource, copied⟩
  genuine source input copied := by
    obtain ⟨left, isLeft, right, isRight, leftCopy, rightCopy, carries⟩ :=
      realizes.exists_original copied
    obtain rfl := realizes.pair_unique_of_copy isRight member rightCopy
    exact ⟨left, isLeft, leftCopy, carries.wired⟩

end Stage

/-- The stages of the plan hold the graph exactly. -/
structure ExactCutting (graph : Graph) (level : OperatorId → Nat) (plan : Plan) : Prop where
  distinct : plan.stageIds.Nodup
  stages : ∀ stage ∈ plan.stages,
    (∃ seed ∈ graph.operatorIds, graph.isMarker seed = false ∧ stage.HoldsRegion graph level seed) ∨
      ∃ source target, graph.isMarker source = true ∧ graph.isMarker target = true ∧
        graph.Feeds source target ∧ stage.HoldsBridge source target
  /-- A wire into a marker from an operator that is none is copied in the stage of the region of
  that operator and in no other one. -/
  intoMarkers : ∀ source target, graph.Wired source target →
    graph.isMarker source.operator = false → graph.isMarker target.operator = true →
    ∃ stage ∈ plan.stages, stage.HoldsRegion graph level source.operator ∧
      ∀ other ∈ plan.stages, other.CopiesWire source target ↔ other = stage
  /-- A wire between two markers is copied in their own stage and in no other one. -/
  betweenMarkers : ∀ source target, graph.Wired source target →
    graph.isMarker source.operator = true → graph.isMarker target.operator = true →
    ∃ stage ∈ plan.stages, stage.HoldsBridge source.operator target.operator ∧
      ∀ other ∈ plan.stages, other.CopiesWire source target ↔ other = stage
  producers : ∀ stage ∈ plan.stages, ∀ pair ∈ stage.provenance,
    graph.isMarker pair.source = false → stage.KeepsProducers graph pair
  circuitless : Circuitless plan.dependencies.Depends

section Built

variable {graph : Graph} {level : OperatorId → Nat} {cuts : List StageCut} {plan : Plan}
  (wellFormed : graph.WellFormed) (acyclic : graph.Acyclic) (cutsOf : CutsOf graph level cuts)
  (built : plan.Built graph cuts)

include cutsOf built

/-- If one cut carries a wire into a marker, its stage is the only one to copy the wire. -/
theorem CutsOf.copiesWire_iff {source target : Terminal}
    (isMarker : graph.isMarker target.operator = true) {stage : Stage}
    (isStage : stage ∈ plan.stages) (copies : stage.CopiesWire source target) :
    ∀ other ∈ plan.stages, other.CopiesWire source target ↔ other = stage := by
  intro other isOther
  refine ⟨fun otherCopies => ?_, fun same => same ▸ copies⟩
  have apart : plan.stages.Pairwise fun left right => ∀ source target,
      graph.isMarker target.operator = true → left.CopiesWire source target →
        ¬ right.CopiesWire source target := by
    refine pairwise_of_partners built.realized cutsOf.apart ?_
    intro left right first second isLeft isRight separate source target marker leftCopies rightCopies
    exact separate source target marker (isLeft.copiesWire_iff.1 leftCopies)
      (isRight.copiesWire_iff.1 rightCopies)
  have symmetric : Std.Symm fun left right : Stage => ∀ source target,
      graph.isMarker target.operator = true → left.CopiesWire source target →
        ¬ right.CopiesWire source target :=
    ⟨fun _ _ separate source target marker left right =>
      separate source target marker right left⟩
  by_contra different
  exact apart.forall isOther isStage different source target isMarker otherCopies copies

include wellFormed

theorem CutsOf.circuitless : Circuitless plan.dependencies.Depends := by
  have depths : ∀ stage : Stage, ∃ depth, stage ∈ plan.stages →
      ∃ cut ∈ cuts, stage.Realizes graph cut ∧ cut.AtLevel level depth := by
    intro stage
    by_cases member : stage ∈ plan.stages
    · obtain ⟨cut, isCut, realizes⟩ := exists_partner_of_mem built.realized member
      obtain ⟨depth, atLevel⟩ := (cutsOf.primitive cut isCut).exists_atLevel wellFormed
        cutsOf.levelling
      exact ⟨depth, fun _ => ⟨cut, isCut, realizes, atLevel⟩⟩
    · exact ⟨0, fun isStage => absurd isStage member⟩
  choose depth atDepth using depths
  refine Plan.circuitless_of_depth built.distinctStages depth ?_
  rintro producer consumer ⟨isProducer, isConsumer, supplies⟩
  obtain ⟨first, -, firstRealized, firstLevel⟩ := atDepth producer isProducer
  obtain ⟨second, -, secondRealized, secondLevel⟩ := atDepth consumer isConsumer
  obtain ⟨id, isOutput, isInput⟩ := (firstRealized.supplies_iff secondRealized).1 supplies
  exact Nat.lt_of_le_of_lt (firstLevel.outputs id isOutput) (secondLevel.inputs id isInput)

include acyclic

omit built in
theorem CutsOf.sound : ∀ cut ∈ cuts, StageCut.Sound cut graph := fun cut isCut =>
  (cutsOf.primitive cut isCut).sound wellFormed acyclic cutsOf.levelling

omit built in
theorem CutsOf.complete : ∀ cut ∈ cuts, StageCut.Complete cut graph := fun cut isCut =>
  (cutsOf.primitive cut isCut).complete wellFormed acyclic cutsOf.levelling

theorem CutsOf.exactCutting : ExactCutting graph level plan where
  distinct := built.distinctStages
  stages stage member := by
    obtain ⟨cut, isCut, realizes⟩ := exists_partner_of_mem built.realized member
    cases cutsOf.primitive cut isCut with
    | region seed seedMember noMarker isRegion =>
      exact .inl ⟨seed, seedMember, noMarker, realizes.holdsRegion isRegion⟩
    | bridge source target sourceMarker targetMarker feeds isBridge =>
      subst isBridge
      exact .inr ⟨source, target, sourceMarker, targetMarker, feeds, realizes.holdsBridge⟩
  intoMarkers source target wired noMarker isMarker := by
    have member := Graph.mem_operatorIds.2 wired.feeds.operators.1
    obtain ⟨cut, isCut, isRegion⟩ := cutsOf.region source.operator member noMarker
    obtain ⟨stage, isStage, realizes⟩ := exists_partner built.realized isCut
    have carries := (isRegion.carries_marker_iff wellFormed cutsOf.levelling member noMarker
      isMarker).2 ⟨wired, .refl _⟩
    exact ⟨stage, isStage, realizes.holdsRegion isRegion,
      cutsOf.copiesWire_iff built isMarker isStage (realizes.copiesWire_iff.2 carries)⟩
  betweenMarkers source target wired sourceMarker targetMarker := by
    have isCut := cutsOf.bridge source.operator target.operator sourceMarker targetMarker wired.feeds
    obtain ⟨stage, isStage, realizes⟩ := exists_partner built.realized isCut
    have carries := (StageCut.carries_markerCut_iff acyclic wired.feeds).2 ⟨wired, rfl, rfl⟩
    exact ⟨stage, isStage, realizes.holdsBridge,
      cutsOf.copiesWire_iff built targetMarker isStage (realizes.copiesWire_iff.2 carries)⟩
  producers stage member pair isPair noMarker := by
    obtain ⟨cut, isCut, realizes⟩ := exists_partner_of_mem built.realized member
    exact realizes.keepsProducers (cutsOf.complete wellFormed acyclic cut isCut) isPair noMarker
  circuitless := cutsOf.circuitless wellFormed built

end Built

/-- A graph without circuits is cut exactly, and a graph with a circuit is refused. -/
theorem primitivePlan_exact {graph : Graph} (wellFormed : graph.WellFormed) :
    (graph.Acyclic → ∃ level plan, graph.Levelling level ∧ graph.primitivePlan = .ok plan ∧
      ExactCutting graph level plan) ∧
    (¬ graph.Acyclic → ∃ fault, graph.primitivePlan = .error fault) := by
  constructor
  · intro acyclic
    obtain ⟨level, cuts, plan, isPlan, cutsOf, built⟩ := Graph.exists_primitivePlan wellFormed acyclic
    exact ⟨level, plan, cutsOf.levelling, isPlan, cutsOf.exactCutting wellFormed acyclic built⟩
  · intro cyclic
    cases isPlan : graph.primitivePlan with
    | error fault => exact ⟨fault, rfl⟩
    | ok plan => exact absurd (Graph.acyclic_of_primitivePlan wellFormed isPlan) cyclic

/-- BEGIN feeds the operator `x`, a broadcast and a shuffle, `x` feeds the shuffle and another
broadcast, and of the operators `y` and `z` each joins what BEGIN delivers with one of the
broadcasts. -/
def Graph.sample : Graph :=
  let rows : DataType := .named "row"
  let row : PortShape := { name := "row", dataType := rows }
  let blueprints : List Blueprint :=
    [.marker .begin rows, .marker .broadcast rows, .marker .gather rows, .marker .broadcast rows,
      ((Blueprint.user "x" .extract).withInput row).withOutput row,
      (((Blueprint.user "y" .masterJoin).withInput row).withInput row).withOutput row,
      (((Blueprint.user "z" .masterJoin).withInput row).withInput row).withOutput row,
      .marker .finish rows, .marker .finish rows, .marker .finish rows]
  let edges : List (Nat × Nat) :=
    [(1, 2), (1, 4), (1, 8), (1, 10), (1, 13), (3, 14), (5, 20), (7, 11), (9, 4), (9, 6), (12, 16),
      (15, 18)]
  let operators := blueprints.foldl (fun graph blueprint => (graph.add blueprint).2) Graph.empty
  edges.foldl (fun graph (source, target) => graph.link ⟨source⟩ ⟨target⟩) operators

theorem Graph.wellFormed_sample : Graph.sample.WellFormed where
  ascending := by decide +kernel
  operatorsBelow := by decide +kernel
  ports := by decide +kernel
  portsBelow := by decide +kernel
  sources := by
    change ∀ edge ∈ Graph.sample.edges.toList, _
    decide +kernel
  targets := by
    change ∀ edge ∈ Graph.sample.edges.toList, _
    decide +kernel

theorem primitivePlan_sample_exact : Graph.sample.WellFormed ∧ Graph.sample.Acyclic ∧
    ∃ level plan, Graph.sample.Levelling level ∧ Graph.sample.primitivePlan = .ok plan ∧
      ExactCutting Graph.sample level plan := by
  obtain ⟨plan, isPlan⟩ :=
    exists_of_isOk (by decide +kernel : Graph.sample.primitivePlan.isOk = true)
  have acyclic := Graph.acyclic_of_primitivePlan Graph.wellFormed_sample isPlan
  exact ⟨Graph.wellFormed_sample, acyclic, (primitivePlan_exact Graph.wellFormed_sample).1 acyclic⟩

end StagePlanner
