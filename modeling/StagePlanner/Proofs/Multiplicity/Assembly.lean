import StagePlanner.Proofs.Assembly.Liveness
import StagePlanner.Proofs.Document.Building
import StagePlanner.Proofs.Estimate.Invariance
import StagePlanner.Proofs.Flow.Assembly
import StagePlanner.Proofs.Multiplicity.Presence
import StagePlanner.Proofs.Multiplicity.Retaining
import StagePlanner.Proofs.Preparation.Regularity

/-!
# How often assembled plans deliver

Passes of assembly merge ports that carry the same data, and what went through both goes through one
of them from then on. So a copy of an operator may get the data of an output fewer times than
without the passes, but never more times, and it gets them at all exactly when it got them before
(`Plan.Condenses`). The graphs that preparation leaves are regular, so this holds of all of them.
-/

namespace StagePlanner

open Relation

namespace Plan

variable {merged settled plan : Plan} {graph : Graph}

/-- Finishing a plan delivers no more. -/
theorem deliversNoMore_of_finished (sound : settled.Sound)
    (circuitless : Circuitless settled.dependencies.Depends)
    (same : plan.stages.Perm settled.tidied.stages) : plan.DeliversNoMore settled graph := by
  refine .of_upstream sound circuitless (fun new isNew => ?_) fun source target step => ?_
  · exact derives_tidied sound new (same.mem_iff.1 isNew)
  · exact upstream_tidied.1 ((upstream_of_perm same).1 step)

/-- Finishing a plan retains the ways of what is left. -/
theorem retains_of_finished (sound : settled.Sound) (same : plan.stages.Perm settled.tidied.stages) :
    plan.Retains settled :=
  (retains_of_perm same).trans (tidied_retains sound)

/-- Pruning with all outputs retains the ways of what is left. -/
theorem retains_of_trims (sound : merged.Sound) (trims : ReflTransGen
    (fun (plan result : Plan) => result.Trims plan fun _ _ => True) merged settled) :
    settled.Retains merged := by
  induction trims with
  | refl => exact .refl merged
  | tail before last ih =>
    have between := sound_of_steps (fun _ _ sound (trims : Trims _ _ _) => trims.sound sound) sound
      before
    exact (last.retains between).trans ih

/-! ### Assembled plans -/

/-- A plan that assembly made of a merged one: it is faithful to the graph and delivers no more. -/
structure AssembledFrom (plan merged : Plan) (graph : Graph) : Prop where
  sound : plan.Sound
  circuitless : Circuitless plan.dependencies.Depends
  faithful : plan.Faithful graph
  noMore : plan.DeliversNoMore merged graph

theorem assembledFrom_of_steps {equivalence : Equivalence} (mergedSound : merged.Sound)
    (mergedCircuitless : Circuitless merged.dependencies.Depends) (faithful : merged.Faithful graph)
    (steps : ReflTransGen (Step equivalence) merged settled) (settledSound : settled.Sound)
    (same : plan.stages.Perm settled.tidied.stages) (sound : plan.Sound)
    (circuitless : Circuitless plan.dependencies.Depends) : plan.AssembledFrom merged graph where
  sound := sound
  circuitless := circuitless
  faithful := ((faithful_of_steps mergedSound mergedCircuitless faithful steps).tidied
    settledSound).of_perm same (tidied_sound settledSound)
  noMore := (deliversNoMore_of_finished settledSound (circuitless_of_steps mergedCircuitless steps)
    same).trans (deliversNoMore_of_steps mergedSound mergedCircuitless faithful steps)

/-- There is a way to an output when the original of the operator in the merged plan receives it. -/
theorem AssembledFrom.card_way_pos_iff (assembled : plan.AssembledFrom merged graph)
    (distinct : merged.stageIds.Nodup) {old new : Stage} (isOld : old ∈ merged.stages)
    (isNew : new ∈ plan.stages) (sameId : new.id = old.id) {operator : Operator}
    (member : operator ∈ new.graph.operators) (isOperator : operator.isMarker = false)
    {original : OperatorId} (isPair : ⟨operator.id, original⟩ ∈ old.provenance) {source : Terminal}
    (noMarker : graph.isMarker source.operator = false) (index : Nat) :
    0 < Nat.card (plan.Way source ⟨new.id, .input, ⟨operator.id, index⟩⟩) ↔
      graph.Receives ⟨original, index⟩ source := by
  obtain ⟨former, isFormer, derives, -⟩ := assembled.noMore new isNew
  obtain rfl := stage_unique distinct isFormer isOld (derives.id.symm.trans sameId)
  exact assembled.faithful.card_way_pos_iff assembled.sound noMarker assembled.circuitless isNew
    member (derives.keeps _ isPair (Graph.mem_operatorIds.2 ⟨operator, member, rfl⟩)) isOperator index

/-- Where all that is no marker is live in the end, it is in every plan that was only pruned. -/
theorem exists_stage_of_pruned {equivalence : Equivalence} (sound : merged.Sound)
    (steps : ReflTransGen (Step equivalence) merged settled) (lives : settled.Lives)
    (same : plan.stages.Perm settled.tidied.stages) {bare other : Plan}
    (trims : ReflTransGen (fun (plan result : Plan) => result.Trims plan fun _ _ => True) merged bare)
    (alike : other.stages.Perm bare.tidied.stages) {new : Stage} (isNew : new ∈ plan.stages)
    {operator : Operator} (member : operator ∈ new.graph.operators)
    (noMarker : operator.isMarker = false) :
    ∃ old ∈ merged.stages, new.id = old.id ∧ operator ∈ old.graph.operators ∧
      ∃ stage ∈ other.stages, stage.id = old.id ∧ operator ∈ stage.graph.operators := by
  obtain ⟨left, isLeft, rfl⟩ := List.mem_map.1 (same.mem_iff.1 isNew)
  obtain ⟨old, isOld, sameId, wasThere, live⟩ := revivesNothing_of_steps sound steps left isLeft operator
    member noMarker (lives left isLeft operator member noMarker)
  obtain ⟨stage, isStage, alsoSame, isThere, -⟩ :=
    exists_live_of_trims sound trims isOld wasThere live
  exact ⟨old, isOld, sameId, wasThere, stage.pruneProvenance,
    alike.mem_iff.2 (List.mem_map_of_mem isStage), alsoSame, isThere⟩

end Plan

/-- The first plan is left of the second one by passes that fold ways together. Every copy of an
operator that is no marker and that is in the first plan is in the second one as well, and for
each of its inputs and each output of an operator of the graph that is no marker there are at most
as many ways upstream to copies of the output as in the second plan, and there is one exactly when
there is one in the second plan. -/
def Plan.Condenses (unified plain : Plan) (graph : Graph) : Prop :=
  ∀ stage ∈ unified.stages, ∀ operator ∈ stage.graph.operators, operator.isMarker = false →
    (∃ other ∈ plain.stages, other.id = stage.id ∧ operator ∈ other.graph.operators) ∧
    ∀ source, graph.isMarker source.operator = false → ∀ index,
      Finite (plain.Way source ⟨stage.id, .input, ⟨operator.id, index⟩⟩) ∧
      Finite (unified.Way source ⟨stage.id, .input, ⟨operator.id, index⟩⟩) ∧
      Nat.card (unified.Way source ⟨stage.id, .input, ⟨operator.id, index⟩⟩) ≤
        Nat.card (plain.Way source ⟨stage.id, .input, ⟨operator.id, index⟩⟩) ∧
      (0 < Nat.card (unified.Way source ⟨stage.id, .input, ⟨operator.id, index⟩⟩) ↔
        0 < Nat.card (plain.Way source ⟨stage.id, .input, ⟨operator.id, index⟩⟩))

/-- Whatever passes assembly runs and however it compares ports, the plan condenses the one that
assembly makes without passes. -/
theorem Grouped.exists_condensed {graph : Graph} {primitive : Plan} {groups : List StageGroup}
    (grouped : Grouped graph primitive groups) (single : graph.SinglePortMarkers)
    (distinctSerials : (graph.operators.map Operator.serial).Nodup)
    (passes : AssemblyPasses) (equivalence idle : Equivalence) :
    ∃ plain unified,
      primitive.assemble graph (groups.map StageGroup.elements) {} idle = .ok plain ∧
      primitive.assemble graph (groups.map StageGroup.elements) passes equivalence = .ok unified ∧
      unified.Condenses plain graph := by
  obtain ⟨_, _, merged, _, isMerged, merging⟩ := grouped.exists_merging
  have sound := merging.planSound single
  have circuitless := merging.mergedPlan.circuitless
  have faithful := merging.faithful distinctSerials
  obtain ⟨bare, plain, -, isPlain, trims, bareSound, alike, plainSound, plainCircuitless, -⟩ :=
    Plan.exists_settled isMerged sound circuitless
      (fun _ _ trims => .trim (trims.mono fun _ _ _ => trivial)) (Plan.performs_idleRound false idle)
  obtain ⟨settled, unified, isSettled, isUnified, steps, settledSound, same, unifiedSound,
      unifiedCircuitless, -⟩ :=
    Plan.exists_settled isMerged sound circuitless (fun _ _ step => step)
      (Plan.performs_assemblyRound passes equivalence)
  have fromPlain : plain.AssembledFrom merged graph :=
    Plan.assembledFrom_of_steps sound circuitless faithful
      (ReflTransGen.mono (fun _ _ trims =>
        (.trim (trims.mono fun _ _ _ => trivial) : Plan.Step idle _ _)) _ _ trims)
      bareSound alike plainSound plainCircuitless
  have fromUnified : unified.AssembledFrom merged graph :=
    Plan.assembledFrom_of_steps sound circuitless faithful steps settledSound same unifiedSound
      unifiedCircuitless
  have retains : plain.Retains merged :=
    (Plan.retains_of_finished bareSound alike).trans (Plan.retains_of_trims sound trims)
  have lives := Plan.lives_of_settle passes equivalence merged sound settled isSettled
  refine ⟨plain, unified, isPlain, isUnified, fun stage isStage operator member isOperator => ?_⟩
  obtain ⟨old, isOld, sameId, wasThere, other, isOther, otherId, alsoMember⟩ :=
    Plan.exists_stage_of_pruned sound steps lives same trims alike isStage member isOperator
  have here : other.id = stage.id := otherId.trans sameId.symm
  refine ⟨⟨other, isOther, here, alsoMember⟩, fun source noMarker index => ⟨
    Route.finite (plainSound.finitary_upstream plainCircuitless) _,
    Route.finite (unifiedSound.finitary_upstream unifiedCircuitless) _, ?_, ?_⟩⟩
  · -- No pass adds a way to the merged plan, and without passes all of its ways are left.
    obtain ⟨_, -, -, fewer⟩ := fromUnified.noMore stage isStage
    refine (fewer operator member isOperator source noMarker index).trans ?_
    exact retains.card_le plainSound plainCircuitless
      ⟨other, isOther, here, Graph.mem_operatorIds.2 ⟨operator, alsoMember, rfl⟩⟩
  · obtain ⟨_, -, realizes⟩ := exists_partner_of_mem merging.mergedPlan.built.realized isOld
    obtain ⟨⟨_, original⟩, isPair, rfl⟩ := realizes.exists_source wasThere
    rw [fromUnified.card_way_pos_iff sound.distinct isOld isStage sameId member isOperator isPair
        noMarker, ← here, fromPlain.card_way_pos_iff sound.distinct isOld isOther otherId alsoMember
        isOperator isPair noMarker]

/-- Passes of assembly deliver nothing of a prepared graph more often, and they neither drop nor add
what is delivered at all. -/
theorem Planner.assemble_condenses {ν : Type} [Volume ν] (planner : Planner ν)
    (keeps : planner.simplifier.Preserves Graph.Regular) {graph : Graph} (regular : graph.Regular)
    {report : PreparationReport} {prepared : Graph}
    (succeeds : planner.prepare.apply graph = (.ok report, prepared)) {primitive : Plan}
    {groups : List StageGroup} (grouped : Grouped prepared primitive groups)
    (passes : AssemblyPasses) (equivalence idle : Equivalence) :
    ∃ plain unified,
      primitive.assemble prepared (groups.map StageGroup.elements) {} idle = .ok plain ∧
      primitive.assemble prepared (groups.map StageGroup.elements) passes equivalence =
        .ok unified ∧
      unified.Condenses plain prepared := by
  have preparedRegular : prepared.Regular := planner.regular_prepare keeps graph report prepared
    succeeds regular
  exact grouped.exists_condensed preparedRegular.singlePorts preparedRegular.nodup_serials passes
    equivalence idle

/-- Sales are stored twice and cleaned from both copies. -/
def backupSample : Document where
  operators := [
    { id := "sales", kind := "input", type := some (.named "sale") },
    { id := "first", kind := "checkpoint", type := some (.named "sale") },
    { id := "second", kind := "checkpoint", type := some (.named "sale") },
    { id := "cleaned", kind := "extract"
      inputs := [{ name := "sale", type := .named "sale" }]
      outputs := [{ name := "clean", type := .named "sale" }] },
    { id := "result", kind := "output", type := some (.named "sale") }]
  edges := [⟨"sales", "first"⟩, ⟨"sales", "second"⟩, ⟨"first", "cleaned"⟩,
    ⟨"second", "cleaned"⟩, ⟨"cleaned", "result"⟩]

/-- The graph that the planner that counts whole bytes leaves of the sample. -/
def Graph.backups : Graph :=
  match backupSample.build with
  | .ok named => (({ config := .standard } : Planner Nat).prepare.apply named.graph).2
  | .error _ => .empty

theorem exists_backups : ∃ named report, backupSample.build = .ok named ∧
    (({ config := .standard } : Planner Nat).prepare.apply named.graph =
      (.ok report, Graph.backups)) := by
  obtain ⟨named, described⟩ := exists_of_isOk (by decide +kernel : backupSample.build.isOk = true)
  obtain ⟨report, isReport⟩ := exists_of_isOk (by decide +kernel :
    (backupSample.build >>= fun named =>
      (({ config := .standard } : Planner Nat).prepare.apply named.graph).1).isOk = true)
  rw [described] at isReport
  refine ⟨named, report, described, Prod.ext isReport ?_⟩
  rw [Graph.backups, described]

theorem Planner.assemble_condenses_backups : ∃ named report primitive groups plain unified,
    backupSample.build = .ok named ∧
    (({ config := .standard } : Planner Nat).prepare.apply named.graph =
      (.ok report, Graph.backups)) ∧ Grouped Graph.backups primitive groups ∧
    primitive.assemble Graph.backups (groups.map StageGroup.elements) {} .bySerial = .ok plain ∧
    primitive.assemble Graph.backups (groups.map StageGroup.elements) .all .byContent =
      .ok unified ∧
    unified.Condenses plain Graph.backups := by
  obtain ⟨named, report, described, succeeds⟩ := exists_backups
  have regular := Document.regular_build described
  have keeps : Simplifier.standard.Preserves Graph.Regular := Edit.regular_ofRules _
  obtain ⟨primitive, groups, grouped⟩ := exists_grouped
    (Planner.regular_prepare _ keeps _ _ _ succeeds regular).wellFormed
    (by decide +kernel : (Graph.backups.primitivePlan >>= Plan.groups).isOk = true)
  obtain ⟨plain, unified, isPlain, isUnified, condenses⟩ :=
    Planner.assemble_condenses _ keeps regular succeeds grouped .all .byContent .bySerial
  exact ⟨named, report, primitive, groups, plain, unified, described, succeeds, grouped, isPlain,
    isUnified, condenses⟩

/-- The ways in an assembled plan can be counted along its lists. -/
theorem Grouped.card_way {graph : Graph} {primitive : Plan} {groups : List StageGroup}
    (grouped : Grouped graph primitive groups) (single : graph.SinglePortMarkers)
    {passes : AssemblyPasses} {equivalence : Equivalence} {plan : Plan}
    (isPlan : primitive.assemble graph (groups.map StageGroup.elements) passes equivalence = .ok plan)
    {source : Terminal} {spot : Spot} {number : Nat}
    (counted : (graph.primitivePlan >>= fun primitive => primitive.groupsSoon >>= fun groups =>
      (primitive.assemble graph (groups.map StageGroup.elements) passes equivalence).map
        fun plan => plan.ways? source spot).toOption = some (some number)) :
    Nat.card (plan.Way source spot) = number := by
  obtain ⟨_, _, merged, _, isMerged, merging⟩ := grouped.exists_merging
  obtain ⟨-, found, isFound, -, -, -, sound, circuitless, -⟩ := Plan.exists_assembled isMerged
    (merging.planSound single) merging.mergedPlan.circuitless (fun _ _ step => step)
    (Plan.performs_assemblyRound passes equivalence)
  obtain rfl := Except.ok.inj (isFound.symm.trans isPlan)
  exact sound.card_way_of_ways? circuitless (grouped.measure_eq isPlan _ counted)

/-- Passes may deliver data less often. In the sample the two checkpoints of the sales have one type,
so the ports at which they were cut are merged: cleaning gets the sales twice without passes, and
once with all of them. It gets nothing any more from the copy of the checkpoint that was merged. -/
theorem not_assemble_delivers_as_often : ∃ named report primitive groups plain unified,
    backupSample.build = .ok named ∧
    (({ config := .standard } : Planner Nat).prepare.apply named.graph =
      (.ok report, Graph.backups)) ∧ Grouped Graph.backups primitive groups ∧
    primitive.assemble Graph.backups (groups.map StageGroup.elements) {} .bySerial = .ok plain ∧
    primitive.assemble Graph.backups (groups.map StageGroup.elements) .all .byContent =
      .ok unified ∧
    (∃ stage ∈ unified.stages, stage.id = ⟨1⟩ ∧ ∃ operator ∈ stage.graph.operators,
      operator.id = ⟨2⟩ ∧ operator.isMarker = false) ∧
    (Graph.backups.isMarker ⟨0⟩ = false ∧
      Nat.card (plain.Way ⟨⟨0⟩, 0⟩ ⟨⟨1⟩, .input, ⟨⟨2⟩, 0⟩⟩) = 2 ∧
      Nat.card (unified.Way ⟨⟨0⟩, 0⟩ ⟨⟨1⟩, .input, ⟨⟨2⟩, 0⟩⟩) = 1) ∧
    (Graph.backups.isMarkerOf .checkpoint ⟨9⟩ = true ∧
      Nat.card (plain.Way ⟨⟨9⟩, 0⟩ ⟨⟨1⟩, .input, ⟨⟨2⟩, 0⟩⟩) = 2 ∧
      Nat.card (unified.Way ⟨⟨9⟩, 0⟩ ⟨⟨1⟩, .input, ⟨⟨2⟩, 0⟩⟩) = 0) := by
  obtain ⟨named, report, described, succeeds⟩ := exists_backups
  have regular : Graph.backups.Regular :=
    Planner.regular_prepare _ (Edit.regular_ofRules _ : Simplifier.standard.Preserves _) _ _ _
      succeeds (Document.regular_build described)
  obtain ⟨primitive, groups, grouped⟩ := exists_grouped regular.wellFormed
    (by decide +kernel : (Graph.backups.primitivePlan >>= Plan.groups).isOk = true)
  have single := regular.singlePorts
  obtain ⟨plain, unified, isPlain, isUnified, -⟩ :=
    grouped.exists_condensed single regular.nodup_serials .all .byContent .bySerial
  have stays : (∃ stage ∈ unified.stages, stage.id = ⟨1⟩ ∧ ∃ operator ∈ stage.graph.operators,
      operator.id = ⟨2⟩ ∧ operator.isMarker = false) :=
    of_decide_eq_true (grouped.measure_eq isUnified (fun unified => decide
      (∃ stage ∈ unified.stages, stage.id = ⟨1⟩ ∧ ∃ operator ∈ stage.graph.operators,
        operator.id = ⟨2⟩ ∧ operator.isMarker = false)) (by decide +kernel))
  exact ⟨named, report, primitive, groups, plain, unified, described, succeeds, grouped, isPlain,
    isUnified, stays,
    ⟨by decide +kernel, grouped.card_way single isPlain (by decide +kernel),
      grouped.card_way single isUnified (by decide +kernel)⟩,
    by decide +kernel, grouped.card_way single isPlain (by decide +kernel),
    grouped.card_way single isUnified (by decide +kernel)⟩

end StagePlanner
