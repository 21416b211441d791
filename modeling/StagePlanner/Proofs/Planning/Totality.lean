import StagePlanner.Proofs.Planning.Driving
import StagePlanner.Proofs.Planning.Exchange
import StagePlanner.Proofs.Preparation.Totality

/-!
# Why planning fails

A document without circuits is planned, unless preparation meets a cyclic broadcast that it cannot
break, or some stage of the primitive plan reads broadcasts only (`Planner.plan_total`). All that
comes after preparation and grouping succeeds: groups can be merged without circuits, what is
assembled can be ordered, and every port has a role, because an input feeds something and is no
`END` therefore, and an output is fed and is no `BEGIN`.
-/

namespace StagePlanner

/-! ### Roles -/

namespace Stage

variable {stage : Stage} {port : StagePort} {marker : Marker}

/-- What is read through any marker but an `END` has a role. -/
theorem exists_inputRole (isMarker : stage.marker? port = some marker) (notFinish : marker ≠ .finish) :
    ∃ role, stage.inputRole port = .ok role := by
  have distributed : ∃ distribution, stage.inputDistribution marker = .ok distribution := by
    cases marker with
    | finish => exact absurd rfl notFinish
    | _ => exact ⟨_, rfl⟩
  obtain ⟨distribution, isDistribution⟩ := distributed
  exact ⟨⟨distribution, _, _⟩, inputRole_eq_ok.2 ⟨marker, isMarker, isDistribution, rfl, rfl⟩⟩

/-- What is written through any marker but a `BEGIN` has a role. -/
theorem exists_outputRole (isMarker : stage.marker? port = some marker) (notBegin : marker ≠ .begin) :
    ∃ role, stage.outputRole port = .ok role := by
  have distributed : ∀ aggregated, ∃ distribution,
      stage.outputDistribution aggregated marker = .ok distribution := by
    intro aggregated
    cases marker with
    | begin => exact absurd rfl notBegin
    | _ => exact ⟨_, rfl⟩
  obtain ⟨distribution, isDistribution⟩ :=
    distributed ((stage.crossing? port).bind Crossing.aggregation).isSome
  exact ⟨⟨distribution, _, _, _⟩,
    outputRole_eq_ok.2 ⟨marker, isMarker, isDistribution, rfl, rfl, rfl⟩⟩

/-- What is left of a port is a marker like the one of the graph for which the port stands. -/
theorem Descends.exists_marker {merged : Stage} (descends : stage.Descends merged) (sound : stage.Sound)
    (mergedSound : merged.Sound) {graph : Graph} (wellFormed : graph.WellFormed) {cut : StageCut}
    (realizes : merged.Realizes graph cut) (isPort : port ∈ stage.ports) {former : StagePort}
    (isFormer : former ∈ merged.ports) (samePlace : former.place = port.place) {id : OperatorId}
    (standsFor : former.StandsFor merged.provenance id) (original : graph.isMarker id = true) :
    ∃ operator ∈ graph.operators, operator.id = id ∧
      ∃ marker, operator.marker? = some marker ∧ stage.marker? port = some marker := by
  obtain ⟨operator, member, rfl, isMarker⟩ := (Graph.holds_iff wellFormed).1 original
  obtain ⟨marker, isKind⟩ := Option.isSome_iff_exists.1 isMarker
  have alike := realizes.exchange?_eq wellFormed isFormer
    (standsFor.1 ▸ OrderedSet.mem_singleton.2 rfl : operator.id ∈ former.origins)
  rw [wellFormed.operator?_eq_some_iff.2 ⟨member, rfl⟩] at alike
  refine ⟨operator, member, rfl, marker, isKind, ?_⟩
  calc stage.marker? port = merged.marker? former :=
        descends.marker?_eq sound mergedSound isPort (congrArg Prod.snd samePlace)
    _ = operator.marker? := by rw [marker?_eq_exchange?, ← alike]; rfl
    _ = some marker := isKind

end Stage

namespace Graph.Staging

variable {graph : Graph} {equivalence : Equivalence} {plan : Plan}
  (staging : graph.Staging equivalence plan) (framed : graph.Framed)

include staging framed

/-- An input comes from a marker that feeds something, so it is no `END`. -/
theorem exists_inputRole {stage : Stage} (isStage : stage ∈ plan.stages) {port : StagePort}
    (isInput : port ∈ stage.inputs) : ∃ role, stage.inputRole port = .ok role := by
  have mergedPlan := staging.merging.mergedPlan
  obtain ⟨merged, isMerged, descends⟩ := staging.descends stage isStage
  obtain ⟨former, isFormer, samePlace⟩ := descends.inputs port isInput
  obtain ⟨cut, isCut, realizes⟩ := exists_partner_of_mem mergedPlan.built.realized isMerged
  obtain ⟨id, isListed, standsFor⟩ := exists_partner_of_mem realizes.inputs isFormer
  obtain ⟨operator, member, rfl, marker, isKind, isMarker⟩ := descends.exists_marker
    (staging.sound.stages stage isStage) (staging.mergedSound.stages merged isMerged)
    framed.wellFormed realizes (List.mem_append_left _ isInput) (List.mem_append_left _ isFormer)
    samePlace standsFor ((mergedPlan.sound cut isCut).inputs id isListed).2
  obtain ⟨index, target, carries⟩ := (mergedPlan.complete cut isCut).read _ isListed
  refine Stage.exists_inputRole isMarker ?_
  rintro rfl
  exact framed.not_finish_feeds member (decide_eq_true isKind) carries.wired.feeds

/-- An output comes from a marker that is fed, so it is no `BEGIN`. -/
theorem exists_outputRole {stage : Stage} (isStage : stage ∈ plan.stages) {port : StagePort}
    (isOutput : port ∈ stage.outputs) : ∃ role, stage.outputRole port = .ok role := by
  have mergedPlan := staging.merging.mergedPlan
  obtain ⟨merged, isMerged, descends⟩ := staging.descends stage isStage
  obtain ⟨former, isFormer, samePlace⟩ := descends.outputs port isOutput
  obtain ⟨cut, isCut, realizes⟩ := exists_partner_of_mem mergedPlan.built.realized isMerged
  obtain ⟨id, isListed, standsFor⟩ := exists_partner_of_mem realizes.outputs isFormer
  obtain ⟨operator, member, rfl, marker, isKind, isMarker⟩ := descends.exists_marker
    (staging.sound.stages stage isStage) (staging.mergedSound.stages merged isMerged)
    framed.wellFormed realizes (List.mem_append_right _ isOutput) (List.mem_append_right _ isFormer)
    samePlace standsFor ((mergedPlan.sound cut isCut).outputs id isListed).2
  obtain ⟨source, index, carries⟩ := (mergedPlan.complete cut isCut).written _ isListed
  refine Stage.exists_outputRole isMarker ?_
  rintro rfl
  exact framed.not_feeds_begin member (decide_eq_true isKind) carries.wired.feeds

/-- A plan that comes about from a framed graph is decorated. -/
theorem exists_decorated {ν : Type} [Volume ν] (planner : Planner ν) :
    ∃ notes, (planner.decorate plan graph).apply {} = (.ok (), notes) := by
  obtain ⟨order, isOrder⟩ := Plan.exists_order staging.circuitless
  have each : ∀ stage ∈ plan.stages, ∃ roles, stage.roles graph = .ok roles ∧ True := by
    intro stage isStage
    obtain ⟨roles, isRoles⟩ : ∃ roles, stage.roles graph = .ok roles := Stage.exists_roles
      (fun port => staging.exists_inputRole framed isStage)
      fun port => staging.exists_outputRole framed isStage
    exact ⟨roles, isRoles, trivial⟩
  obtain ⟨roles, isRoles, -⟩ := exists_mapM each
  obtain ⟨notes, isDecorated, -⟩ :=
    planner.decorate_succeeds staging.sound staging.distinctPorts isOrder isRoles {}
  exact ⟨notes, isDecorated⟩

end Graph.Staging

/-! ### Planning -/

/-- Planning failed because some stage of the primitive plan of a graph reads broadcasts only. -/
def Graph.LacksDriver (graph : Graph) (fault : Fault) : Prop :=
  ∃ primitive stage, graph.primitivePlan = .ok primitive ∧ stage ∈ primitive.stages ∧
    (∀ input ∈ stage.inputs, stage.marker? input = some .broadcast) ∧
    fault = .invariant (.nothingToGroupBy stage.id)

namespace Planner

variable {ν : Type} [Volume ν] (planner : Planner ν) {document : Document} {named : NamedGraph}

/-- A closed graph without circuits is planned, unless a stage of its primitive plan reads broadcasts
only. -/
theorem planPrepared_total {prepared : Graph} (framed : prepared.Framed) (acyclic : prepared.Acyclic)
    (single : prepared.SinglePortMarkers) :
    (∃ annotated, planner.planPrepared prepared = .ok annotated) ∨
      ∃ fault, planner.planPrepared prepared = .error fault ∧ prepared.LacksDriver fault := by
  obtain ⟨level, cuts, primitive, isPrimitive, cutsOf, built⟩ :=
    Graph.exists_primitivePlan framed.wellFormed acyclic
  cases isGroups : primitive.groups with
  | ok groups =>
    obtain ⟨plan, isPlan, ⟨staging⟩⟩ :=
      planner.stage_of_grouped ⟨framed.wellFormed, isPrimitive, isGroups⟩ single
    obtain ⟨notes, isDecorated⟩ := staging.exists_decorated framed planner
    refine .inl ⟨{ plan, notes }, ?_⟩
    simp only [planPrepared, isPlan, bind, Except.bind, isDecorated]
    rfl
  | error fault =>
    obtain ⟨stage, isStage, undriven, rfl⟩ := Plan.groups_eq_error isGroups
    refine .inr ⟨_, ?_, primitive, stage, isPrimitive, isStage, fun input isInput => ?_, rfl⟩
    · rw [planPrepared, Planner.stage, isPrimitive]
      change ((primitive.groups >>= fun groups => _) >>= fun plan => _) = _
      rw [isGroups]
      rfl
    · obtain ⟨cut, isCut, realizes⟩ := exists_partner_of_mem built.realized isStage
      obtain ⟨id, -, standsFor⟩ := exists_partner_of_mem realizes.inputs isInput
      by_contra notBroadcast
      exact undriven id ⟨input, isInput, notBroadcast, standsFor.1 ▸ OrderedSet.mem_singleton.2 rfl⟩

/-- Planning a document without circuits fails at nothing else than a cyclic broadcast or a stage
without a driver. -/
theorem ends_plan (described : document.build = .ok named) (standard : planner.simplifier = .standard)
    (acyclic : named.graph.Acyclic) :
    planner.plan.Ends named.graph (fun _ _ => True) fun fault changed =>
      Edit.IsUnbreakable fault changed ∨ changed.LacksDriver fault := by
  have prepares : planner.prepare.Ends named.graph (fun _ prepared =>
      prepared.Framed ∧ prepared.Acyclic ∧ prepared.SinglePortMarkers) Edit.IsUnbreakable :=
    (planner.ends_prepare described standard acyclic).mono fun _ _ yields ⟨closed, acyclic⟩ =>
      ⟨closed.toFramed, acyclic, (planner.regular_of_prepare described
        (standard ▸ Simplifier.tame_ofRules _) yields).1.singlePorts⟩
  refine (prepares.weaken fun _ _ => .inl).bind fun _ prepared ⟨framed, acyclic, single⟩ =>
    Edit.Ends.get_bind ?_
  rcases planner.planPrepared_total framed acyclic single with
    ⟨annotated, isPlan⟩ | ⟨fault, failed, lacks⟩
  · rw [isPlan]
    exact Edit.Ends.pure trivial
  · rw [failed]
    exact Edit.Ends.fail (.inr lacks)

/-- A document without circuits is planned, whatever the configuration, the estimates and the limit of
rounds are, unless preparation meets a cyclic broadcast all consumers of which are fed by markers
already, or a stage of the primitive plan of the prepared graph reads broadcasts only. -/
theorem plan_total (described : document.build = .ok named) (standard : planner.simplifier = .standard)
    (acyclic : named.graph.Acyclic) :
    (∃ annotated prepared, planner.plan.apply named.graph = (.ok annotated, prepared)) ∨
    (∃ changed broadcast, changed.cyclicBroadcast? = some broadcast ∧
      (∀ input, input ∉ changed.unboundedInputs broadcast.id) ∧
      planner.plan.apply named.graph =
        (.error (.invariant (.nothingToCheckpoint broadcast.label)), changed)) ∨
    ∃ prepared primitive stage, prepared.primitivePlan = .ok primitive ∧ stage ∈ primitive.stages ∧
      (∀ input ∈ stage.inputs, stage.marker? input = some .broadcast) ∧
      planner.plan.apply named.graph =
        (.error (.invariant (.nothingToGroupBy stage.id)), prepared) := by
  have ends := planner.ends_plan described standard acyclic
  rw [Edit.Ends] at ends
  cases ran : planner.plan.apply named.graph with
  | mk outcome changed =>
    rw [ran] at ends
    cases outcome with
    | ok annotated => exact .inl ⟨annotated, changed, rfl⟩
    | error fault =>
      rcases ends with ⟨broadcast, isCyclic, bounded, rfl⟩ |
        ⟨primitive, stage, isPrimitive, isStage, broadcasts, rfl⟩
      · exact .inr (.inl ⟨changed, broadcast, isCyclic, bounded, rfl⟩)
      · exact .inr (.inr ⟨changed, primitive, stage, isPrimitive, isStage, broadcasts, rfl⟩)

/-- Rows that are only wanted all together. -/
def wholeOnlySample : Document where
  operators := [
    { id := "in", kind := "input", type := some (.named "row") },
    { id := "x", kind := "extract", outputs := [{ name := "o", type := .named "row" }]
      inputs := [{ name := "a", type := .named "row", unit := some .whole }] },
    { id := "out", kind := "output", type := some (.named "row") }]
  edges := [⟨"in", "x"⟩, ⟨"x", "out"⟩]

/-- The sample has no circuit and is not planned: the stage of its operator reads a broadcast only. -/
theorem plan_total_wholeOnlySample : ∃ named prepared primitive stage,
    wholeOnlySample.build = .ok named ∧ named.graph.Acyclic ∧
    prepared.primitivePlan = .ok primitive ∧ stage ∈ primitive.stages ∧
    (∀ input ∈ stage.inputs, stage.marker? input = some .broadcast) ∧
    ({ config := .standard } : Planner Nat).plan.apply named.graph =
      (.error (.invariant (.nothingToGroupBy stage.id)), prepared) := by
  have computed : (wholeOnlySample.build.map fun named => (named.graph.dependencies.circuits.isEmpty,
      match (({ config := .standard } : Planner Nat).plan.apply named.graph).1 with
      | .error (.invariant (.nothingToGroupBy _)) => true
      | _ => false)).toOption = some (true, true) := by decide +kernel
  obtain ⟨named, described, both⟩ := exists_of_map_toOption computed
  obtain ⟨noCircuits, undriven⟩ := Prod.ext_iff.1 both
  have acyclic : named.graph.Acyclic :=
    (Graph.circuitless_dependencies_iff (Document.regular_build described).wellFormed).1
      ((DependencyGraph.circuits_eq_nil_iff Graph.dependencies_wellFormed).1
        (List.isEmpty_iff.1 noCircuits))
  rcases plan_total ({ config := .standard } : Planner Nat) described rfl acyclic with
    ⟨annotated, prepared, isPlan⟩ | ⟨changed, broadcast, -, -, failed⟩ |
    ⟨prepared, primitive, stage, isPrimitive, isStage, broadcasts, failed⟩
  · rw [isPlan] at undriven
    cases undriven
  · rw [failed] at undriven
    cases undriven
  · exact ⟨named, prepared, primitive, stage, described, acyclic, isPrimitive, isStage, broadcasts,
      failed⟩

end Planner

end StagePlanner
