import StagePlanner.Planning
import StagePlanner.Proofs.Assembly.Agreement
import StagePlanner.Proofs.Assembly.Schedule
import StagePlanner.Proofs.Document.Building
import StagePlanner.Proofs.Preparation.Regularity

/-!
# From graphs to plans

What planning a graph goes through: the graph is prepared, the prepared graph is cut, grouped,
merged and assembled (`Graph.Staging`), and the plan is decorated. Statements about plans that
planning gives start from `Planner.exists_planning`.
-/

namespace StagePlanner

open Relation

/-- How a plan comes about from a graph: the graph is cut and its stages are grouped, the groups are
merged, and the merged plan is settled by steps and finished. -/
structure Graph.Staging (graph : Graph) (equivalence : Equivalence) (plan : Plan) where
  primitive : Plan
  groups : List StageGroup
  level : OperatorId → Nat
  cuts : List StageCut
  merged : Plan
  mergedCuts : List StageCut
  settled : Plan
  grouped : Grouped graph primitive groups
  merging : Merging graph primitive groups level cuts merged mergedCuts
  isMerged : primitive.merged graph (groups.map StageGroup.elements) = .ok merged
  mergedSound : merged.Sound
  isSettled : merged.settle (Plan.assemblyRound .all equivalence) = .ok settled
  steps : ReflTransGen (Plan.Step equivalence) merged settled
  settledSound : settled.Sound
  same : plan.stages.Perm settled.tidied.stages
  sound : plan.Sound
  circuitless : Circuitless plan.dependencies.Depends
  /-- The stages stand in their order. -/
  sorted : plan.order = .ok plan.stageIds

namespace Graph.Staging

variable {graph : Graph} {equivalence : Equivalence} {plan : Plan}
  (staging : graph.Staging equivalence plan)

include staging

theorem descends : plan.Descends staging.merged :=
  (Plan.descends_of_finished staging.settledSound staging.same).trans
    (Plan.descends_of_steps staging.steps)

/-- No identifier is given to two ports. -/
theorem distinctPorts : plan.DistinctPorts :=
  staging.descends.distinctPorts staging.sound staging.merging.mergedPlan.built.apartPorts

/-- The origins of every port are markers like it. -/
theorem agrees (identified : graph.Identified) : plan.Agrees graph :=
  (Plan.agrees_of_steps staging.mergedSound (staging.merging.agrees identified) staging.steps).of_finished
    staging.settledSound staging.same

end Graph.Staging

/-! ### Checkpoints -/

/-- A checkpoint marker does not identify the data that cross it. -/
def Operator.Plain (operator : Operator) : Prop :=
  operator.marker? = some .checkpoint → operator.traits.crossing = none

theorem Operator.passed_plain : Operator.Passed Operator.Plain where
  terminator graph marker dataType isTerminator isCheckpoint := by
    rcases isTerminator with rfl | rfl <;> cases isCheckpoint
  boundary graph blueprint boundary isCheckpoint := by
    cases boundary with
    | checkpoint dataType => rfl
    | exchange exchanges crossing => rcases exchanges with rfl | rfl <;> cases isCheckpoint
  rebuilt graph operator units plain := plain

/-- A simplifier that keeps what comparing markers relies on. -/
structure Simplifier.Tame (simplifier : Simplifier) : Prop where
  regular : simplifier.Preserves Graph.Regular
  plain : simplifier.Preserves (Graph.All Operator.Plain)

/-- Rules only take operators away. -/
theorem Simplifier.tame_ofRules (rules : List SimplificationRule) : (Simplifier.ofRules rules).Tame :=
  ⟨Edit.regular_ofRules rules, Edit.all_ofRules rules⟩

theorem Simplifier.tame_restless : Simplifier.restless.Tame :=
  ⟨Edit.regular_restless, Edit.ensures_restless (fun id => (Edit.narrows_bypass id).all) fun output _ =>
    Edit.all_insertAfter output fun _ isCheckpoint => nomatch isCheckpoint⟩

namespace Planner

variable {ν : Type} [Volume ν] (planner : Planner ν)

/-! ### Planning -/

omit [Volume ν] in
/-- A grouped graph becomes a plan. -/
theorem stage_of_grouped {prepared : Graph} {primitive : Plan} {groups : List StageGroup}
    (grouped : Grouped prepared primitive groups) (single : prepared.SinglePortMarkers) :
    ∃ plan, planner.stage prepared = .ok plan ∧
      Nonempty (prepared.Staging planner.equivalence plan) := by
  obtain ⟨level, cuts, merged, mergedCuts, isMerged, merging⟩ := grouped.exists_merging
  have mergedSound := merging.planSound single
  obtain ⟨settled, plan, isSettled, isPlan, steps, settledSound, same, sound, circuitless, sorted⟩ :=
    Plan.exists_settled isMerged mergedSound merging.mergedPlan.circuitless (fun _ _ step => step)
      (Plan.performs_assemblyRound .all planner.equivalence)
  refine ⟨plan, ?_, ⟨{
    primitive, groups, level, cuts, merged, mergedCuts, settled, grouped, merging, isMerged,
    mergedSound, isSettled, steps, settledSound, same, sound, circuitless, sorted := sorted rfl }⟩⟩
  rw [stage, grouped.isPrimitive]
  change (primitive.groups >>= fun groups => _) = _
  rw [grouped.isGroups]
  exact isPlan

omit [Volume ν] in
/-- What is staged was grouped. -/
theorem exists_grouped_of_stage {prepared : Graph} (wellFormed : prepared.WellFormed) {plan : Plan}
    (isPlan : planner.stage prepared = .ok plan) :
    ∃ primitive groups, Grouped prepared primitive groups := by
  obtain ⟨primitive, isPrimitive, later⟩ := bind_eq_ok_iff.1 isPlan
  obtain ⟨groups, isGroups, -⟩ := bind_eq_ok_iff.1 later
  exact ⟨primitive, groups, wellFormed, isPrimitive, isGroups⟩

/-- What planning a graph goes through. -/
structure Planning (graph : Graph) (annotated : AnnotatedPlan ν) (prepared : Graph) : Prop where
  isPrepared : ∃ report, planner.prepare.Yields graph report prepared
  isPlan : planner.stage prepared = .ok annotated.plan
  isDecorated : (planner.decorate annotated.plan prepared).apply {} = (.ok (), annotated.notes)

theorem planPrepared_eq_ok {prepared : Graph} {annotated : AnnotatedPlan ν}
    (succeeds : planner.planPrepared prepared = .ok annotated) :
    planner.stage prepared = .ok annotated.plan ∧
      (planner.decorate annotated.plan prepared).apply {} = (.ok (), annotated.notes) := by
  obtain ⟨plan, isPlan, decorated⟩ := bind_eq_ok_iff.1 succeeds
  split at decorated
  · next notes isDecorated =>
    cases decorated
    exact ⟨isPlan, isDecorated⟩
  · cases decorated

theorem exists_planning {graph prepared : Graph} {annotated : AnnotatedPlan ν}
    (succeeds : planner.plan.apply graph = (.ok annotated, prepared)) :
    planner.Planning graph annotated prepared := by
  obtain ⟨report, changed, isPrepared, rest⟩ := Edit.yields_bind.1 succeeds
  obtain ⟨seen, same, isSeen, planned⟩ := Edit.yields_bind.1 rest
  obtain ⟨rfl, rfl⟩ := Edit.yields_get.1 isSeen
  split at planned
  · next plan isPlanned =>
    obtain ⟨rfl, rfl⟩ := Edit.yields_pure.1 planned
    obtain ⟨isPlan, isDecorated⟩ := planner.planPrepared_eq_ok isPlanned
    exact ⟨⟨report, isPrepared⟩, isPlan, isDecorated⟩
  · cases planned

variable {document : Document} {named : NamedGraph} {annotated : AnnotatedPlan ν} {prepared : Graph}

/-- The graph of a document is prepared to a regular one with plain checkpoints. -/
theorem regular_of_prepare (described : document.build = .ok named) (tame : planner.simplifier.Tame)
    {report : PreparationReport} (isPrepared : planner.prepare.Yields named.graph report prepared) :
    prepared.Regular ∧ prepared.Identified := by
  have unmarked := Document.unmarked_build described
  have regular := planner.regular_prepare tame.regular _ _ _ isPrepared unmarked.regular
  have plain := planner.all_prepare Operator.passed_plain tame.plain _ _ _ isPrepared
    ⟨unmarked.regular.wellFormed, fun operator member isCheckpoint => by
      rw [unmarked.marker? operator member] at isCheckpoint
      cases isCheckpoint⟩
  exact ⟨regular, regular.serials, plain.each⟩

/-- The plan of a document comes about from the prepared graph. -/
theorem exists_staging (described : document.build = .ok named) (tame : planner.simplifier.Tame)
    (planning : planner.Planning named.graph annotated prepared) :
    Nonempty (prepared.Staging planner.equivalence annotated.plan) := by
  obtain ⟨report, isPrepared⟩ := planning.isPrepared
  obtain ⟨regular, -⟩ := planner.regular_of_prepare described tame isPrepared
  obtain ⟨primitive, groups, grouped⟩ :=
    planner.exists_grouped_of_stage regular.wellFormed planning.isPlan
  obtain ⟨plan, isPlan, staging⟩ := planner.stage_of_grouped grouped regular.singlePorts
  exact Except.ok.inj (isPlan.symm.trans planning.isPlan) ▸ staging

end Planner

end StagePlanner
