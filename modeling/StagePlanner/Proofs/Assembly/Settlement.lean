import StagePlanner.Plan.Grouping
import StagePlanner.Proofs.Assembly.Pass
import StagePlanner.Proofs.Cutting.Exactness
import StagePlanner.Proofs.Merging.Merge

/-!
# What assembly starts from and where it settles

The groups of a primitive plan are merged into a sound plan (`Merging`), passes settle it step by
step, and a settled plan without circuits is finished. Together `assemble_eq` and
`exists_finished` say what `Plan.assemble` does, so that later statements only have to follow
steps.
-/

namespace StagePlanner

open Relation

/-- A graph that is cut and whose stages are grouped. -/
structure Grouped (graph : Graph) (primitive : Plan) (groups : List StageGroup) : Prop where
  wellFormed : graph.WellFormed
  isPrimitive : graph.primitivePlan = .ok primitive
  isGroups : primitive.groups = .ok groups

namespace Grouped

variable {graph : Graph} {primitive : Plan} {groups : List StageGroup}
  (grouped : Grouped graph primitive groups)

include grouped

theorem acyclic : graph.Acyclic := Graph.acyclic_of_primitivePlan grouped.wellFormed grouped.isPrimitive

/-- What is computed from the graph all the way is computed from its assembled plan. -/
theorem measure_eq {passes : AssemblyPasses} {equivalence : Equivalence} {plan : Plan}
    (isPlan : primitive.assemble graph (groups.map StageGroup.elements) passes equivalence = .ok plan)
    {α : Type} (measure : Plan → α) {value : α}
    (computed : (graph.primitivePlan >>= fun primitive => primitive.groupsSoon >>= fun groups =>
      (primitive.assemble graph (groups.map StageGroup.elements) passes equivalence).map
        measure).toOption = some value) : measure plan = value := by
  rw [grouped.isPrimitive] at computed
  change (primitive.groupsSoon >>= _).toOption = _ at computed
  rw [← Plan.groups_eq_groupsSoon, grouped.isGroups] at computed
  change ((primitive.assemble _ _ _ _).map _).toOption = _ at computed
  rw [isPlan] at computed
  exact Option.some.inj computed

end Grouped

theorem exists_grouped {graph : Graph} (wellFormed : graph.WellFormed)
    (succeeds : (graph.primitivePlan >>= Plan.groups).isOk = true) :
    ∃ primitive groups, Grouped graph primitive groups := by
  obtain ⟨groups, isGroups⟩ := exists_of_isOk succeeds
  obtain ⟨primitive, isPrimitive, isGroups⟩ := bind_eq_ok_iff.1 isGroups
  exact ⟨primitive, groups, wellFormed, isPrimitive, isGroups⟩

theorem Graph.exists_grouped_sample : ∃ primitive groups, Grouped Graph.sample primitive groups :=
  exists_grouped Graph.wellFormed_sample (by decide +kernel)

theorem Graph.singlePortMarkers_sample : Graph.sample.SinglePortMarkers := by
  rw [SinglePortMarkers]
  decide +kernel

/-- What lies between a grouped graph and the plan that its groups are merged into. -/
structure Merging (graph : Graph) (primitive : Plan) (groups : List StageGroup)
    (level : OperatorId → Nat) (cuts : List StageCut) (merged : Plan) (mergedCuts : List StageCut) :
    Prop where
  wellFormed : graph.WellFormed
  acyclic : graph.Acyclic
  cutsOf : CutsOf graph level cuts
  built : primitive.Built graph cuts
  mergeable : Mergeable primitive.dependencies primitive.stageIds groups
  mergedPlan : MergedPlan graph primitive cuts groups merged mergedCuts

/-- The groups of a grouped graph can be merged. -/
theorem Grouped.exists_merging {graph : Graph} {primitive : Plan} {groups : List StageGroup}
    (grouped : Grouped graph primitive groups) : ∃ level cuts merged mergedCuts,
      primitive.merged graph (groups.map StageGroup.elements) = .ok merged ∧
        Merging graph primitive groups level cuts merged mergedCuts := by
  have wellFormed := grouped.wellFormed
  have acyclic := grouped.acyclic
  obtain ⟨level, cuts, plan, isPlan, cutsOf, built⟩ := Graph.exists_primitivePlan wellFormed acyclic
  obtain rfl := Except.ok.inj (isPlan.symm.trans grouped.isPrimitive)
  have mergeable := Plan.mergeable_groups built.distinctStages
    (cutsOf.circuitless wellFormed built) grouped.isGroups
  obtain ⟨merged, mergedCuts, isMerged, mergedPlan⟩ := exists_merged wellFormed built
    (cutsOf.sound wellFormed acyclic) (cutsOf.complete wellFormed acyclic) mergeable
  exact ⟨level, cuts, merged, mergedCuts, isMerged, wellFormed, acyclic, cutsOf, built, mergeable,
    mergedPlan⟩

namespace Merging

variable {graph : Graph} {primitive merged : Plan} {groups : List StageGroup}
  {level : OperatorId → Nat} {cuts mergedCuts : List StageCut}
  (merging : Merging graph primitive groups level cuts merged mergedCuts)

include merging

theorem sound : ∀ cut ∈ cuts, StageCut.Sound cut graph :=
  merging.cutsOf.sound merging.wellFormed merging.acyclic

theorem complete : ∀ cut ∈ cuts, StageCut.Complete cut graph :=
  merging.cutsOf.complete merging.wellFormed merging.acyclic

/-- Every wire into a marker is carried by a merged cut. -/
theorem exists_carries {source target : Terminal} (wired : graph.Wired source target)
    (isMarker : graph.isMarker target.operator = true) :
    ∃ cut ∈ mergedCuts, cut.Carries graph source target := by
  have exact := merging.cutsOf.exactCutting merging.wellFormed merging.acyclic merging.built
  have copied : ∃ stage ∈ primitive.stages, stage.CopiesWire source target := by
    rcases graph.isMarker_eq_true_or source.operator with sourceMarker | noMarker
    · obtain ⟨stage, isStage, -, only⟩ := exact.betweenMarkers source target wired sourceMarker isMarker
      exact ⟨stage, isStage, (only stage isStage).2 rfl⟩
    · obtain ⟨stage, isStage, -, only⟩ := exact.intoMarkers source target wired noMarker isMarker
      exact ⟨stage, isStage, (only stage isStage).2 rfl⟩
  obtain ⟨stage, isStage, copies⟩ := copied
  exact merging.mergedPlan.exists_carries merging.built merging.sound merging.complete
    merging.mergeable isStage copies

/-- A merged plan is sound. -/
theorem planSound (single : graph.SinglePortMarkers) : merged.Sound where
  distinct := merging.mergedPlan.built.distinctStages
  stages stage isStage := by
    obtain ⟨cut, isCut, realizes⟩ := exists_partner_of_mem merging.mergedPlan.built.realized isStage
    exact realizes.stageSound merging.wellFormed single (merging.mergedPlan.sound cut isCut)
      (merging.mergedPlan.complete cut isCut)
      ((List.nodup_flatMap.1 merging.mergedPlan.built.distinctPorts).1 stage isStage)

end Merging

namespace Plan

variable {plan : Plan}

/-- The plan that forgets the provenance of operators that are gone. -/
def tidied (plan : Plan) : Plan := { plan with stages := plan.stages.map Stage.pruneProvenance }

/-- Assembly merges the groups, settles the merged plan by steps and finishes it. -/
theorem assemble_eq {graph : Graph} {groups : List (List StageId)} {merged : Plan}
    (isMerged : plan.merged graph groups = .ok merged) (sound : merged.Sound)
    {passes : AssemblyPasses} {equivalence : Equivalence} {step : Plan → Plan → Prop}
    (keeps : ∀ plan result, plan.Sound → step plan result → result.Sound)
    (performs : Performs step (assemblyRound passes equivalence)) :
    ∃ settled, merged.settle (assemblyRound passes equivalence) = .ok settled ∧
      ReflTransGen step merged settled ∧ settled.Sound ∧
      plan.assemble graph groups passes equivalence = finished passes settled.tidied := by
  obtain ⟨settled, isSettled, steps⟩ := performs.settle keeps merged sound
  refine ⟨settled, isSettled, steps, sound_of_steps keeps sound steps, ?_⟩
  rw [assemble, isMerged]
  change (merged.settle (assemblyRound passes equivalence) >>= fun settled =>
    finished passes settled.tidied) = _
  rw [isSettled]
  rfl

/-! ### Finishing -/

theorem stageIds_tidied : plan.tidied.stageIds = plan.stageIds := by
  rw [tidied, stageIds, List.map_map]
  rfl

theorem tidied_sound (sound : plan.Sound) : plan.tidied.Sound where
  distinct := by
    rw [stageIds_tidied]
    exact sound.distinct
  stages stage isStage := by
    obtain ⟨old, isOld, rfl⟩ := List.mem_map.1 isStage
    exact (sound.stages old isOld).of_same_places rfl rfl rfl

/-- What is still in a stage keeps its provenance. -/
theorem mem_pruneProvenance {stage : Stage} (sound : stage.Sound) {pair : CopiedPair .operator} :
    pair ∈ stage.pruneProvenance.provenance ↔
      pair ∈ stage.provenance ∧ pair.copy ∈ stage.graph.operatorIds := by
  rw [Stage.pruneProvenance, List.mem_filter, Graph.mem_operatorIds, Graph.contains,
    Option.isSome_iff_exists]
  simp only [sound.wellFormed.operator?_eq_some_iff]

theorem depends_tidied {target source : StageId} :
    plan.tidied.dependencies.Depends target source ↔ plan.dependencies.Depends target source := by
  rw [depends_dependencies, depends_dependencies]
  constructor
  · rintro ⟨producer, consumer, ⟨isProducer, isConsumer, supplies⟩, rfl, rfl⟩
    obtain ⟨first, isFirst, rfl⟩ := List.mem_map.1 isProducer
    obtain ⟨second, isSecond, rfl⟩ := List.mem_map.1 isConsumer
    exact ⟨first, second, ⟨isFirst, isSecond, supplies⟩, rfl, rfl⟩
  · rintro ⟨producer, consumer, ⟨isProducer, isConsumer, supplies⟩, rfl, rfl⟩
    exact ⟨_, _, ⟨List.mem_map_of_mem isProducer, List.mem_map_of_mem isConsumer, supplies⟩, rfl, rfl⟩

/-- Stages are taken out of a list in any order in which they are all listed. -/
theorem exists_arrange {order : List StageId} {stages : List Stage} (distinct : order.Nodup)
    (listed : order.Perm (stages.map Stage.id)) :
    ∃ arranged, arrange order stages = .ok arranged ∧ arranged.map Stage.id = order ∧
      arranged.Perm stages := by
  induction order generalizing stages with
  | nil =>
    obtain rfl := List.map_eq_nil_iff.1 (List.nil_perm.1 listed)
    exact ⟨[], rfl, rfl, .nil⟩
  | cons id rest ih =>
    have stagesDistinct := listed.nodup distinct
    obtain ⟨stage, isStage, same⟩ := List.mem_map.1 (listed.mem_iff.1 List.mem_cons_self)
    have found : (stages.find? fun stage => stage.id = id) = some stage :=
      (find?_key_eq_some_iff stagesDistinct).2 ⟨isStage, same⟩
    obtain ⟨fresh, restDistinct⟩ := List.nodup_cons.1 distinct
    have remaining : rest.Perm ((stages.filter fun other => other.id ≠ id).map Stage.id) := by
      have filtered := listed.filter (fun other => decide (other ≠ id))
      rw [List.filter_cons_of_neg (by simp), List.filter_map] at filtered
      rwa [List.filter_eq_self.2 fun other member => by simpa using ne_of_mem_of_not_mem member fresh]
        at filtered
    obtain ⟨arranged, isArranged, inOrder, same_stages⟩ := ih restDistinct remaining
    refine ⟨stage :: arranged, ?_, by rw [List.map_cons, same, inOrder], ?_⟩
    · rw [arrange, found]
      change (arrange rest (stages.filter fun other => other.id ≠ id) >>= fun arranged => _) = _
      rw [isArranged]
      rfl
    · refine (same_stages.cons stage).trans ((List.perm_ext_iff_of_nodup ?_ stagesDistinct.of_map).2 ?_)
      · refine List.nodup_cons.2 ⟨fun member => ?_, stagesDistinct.of_map.filter _⟩
        exact of_decide_eq_true (List.mem_filter.1 member).2 same
      · intro other
        rw [List.mem_cons, List.mem_filter, decide_eq_true_eq]
        constructor
        · rintro (rfl | ⟨isOther, -⟩)
          · exact isStage
          · exact isOther
        · intro isOther
          by_cases equal : other.id = id
          · exact .inl (List.inj_on_of_nodup_map stagesDistinct isOther isStage (equal.trans same.symm))
          · exact .inr ⟨isOther, equal⟩

theorem sound_of_perm {result : Plan} (same : result.stages.Perm plan.stages) (sound : plan.Sound) :
    result.Sound where
  distinct := (same.map Stage.id).nodup_iff.2 sound.distinct
  stages stage isStage := sound.stages stage (same.mem_iff.1 isStage)

/-- Every connection leads from an earlier to a later stage. -/
def InOrder (plan : Plan) : Prop :=
  ∀ connection ∈ plan.connections, plan.stageIds.idxOf connection.source.stage <
    plan.stageIds.idxOf connection.target.stage

/-- A plan without circuits is finished; its stages may only change places, into their order if that
is wanted. -/
theorem exists_finished (distinct : plan.stageIds.Nodup)
    (circuitless : Circuitless plan.dependencies.Depends) (passes : AssemblyPasses) :
    ∃ result, finished passes plan = .ok result ∧ result.stages.Perm plan.stages ∧
      (passes.sorting = true → result.order = .ok result.stageIds) := by
  have noCircuit := (DependencyGraph.circuits_eq_nil_iff dependencies_wellFormed).2 circuitless
  rw [finished, noCircuit]
  dsimp only
  split
  · next sorting =>
    obtain ⟨order, isOrder⟩ := exists_order circuitless
    have listed := perm_of_order distinct isOrder
    obtain ⟨arranged, isArranged, inOrder, same⟩ :=
      exists_arrange (listed.nodup_iff.2 distinct) listed
    have sameLength : order.length = plan.stages.length := by
      rw [listed.length_eq, stageIds, List.length_map]
    refine ⟨{ plan with stages := arranged }, ?_, same, fun _ => ?_⟩
    · rw [isOrder]
      change plan.reorder order = _
      rw [reorder, isArranged]
      simp [sameLength]
    · rw [order_of_perm distinct same, isOrder]
      exact congrArg Except.ok inOrder.symm
  · next notSorting => exact ⟨plan, rfl, .refl _, fun sorting => absurd sorting notSorting⟩

/-- Connections lead forward where the stages stand in their order. -/
theorem inOrder_of_order (isOrder : plan.order = .ok plan.stageIds) : plan.InOrder :=
  fun _ isConnection => idxOf_lt_of_order isOrder isConnection

/-- What is finished has the same stages. -/
theorem perm_of_finished {result : Plan} (distinct : plan.stageIds.Nodup) {passes : AssemblyPasses}
    (isFinished : finished passes plan = .ok result) : result.stages.Perm plan.stages := by
  have noCircuit : plan.dependencies.circuits = [] := by
    rw [finished] at isFinished
    split at isFinished
    · next none => exact none
    · cases isFinished
  obtain ⟨other, isOther, same, -⟩ := exists_finished distinct
    ((DependencyGraph.circuits_eq_nil_iff dependencies_wellFormed).1 noCircuit) passes
  rwa [Except.ok.inj (isFinished.symm.trans isOther)]

end Plan

end StagePlanner
