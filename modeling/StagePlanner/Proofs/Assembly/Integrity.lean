import StagePlanner.Proofs.Assembly.Descent
import StagePlanner.Proofs.Assembly.Schedule

/-!
# Intact stages

A stage keeps its operators, its ports, the origins of the ports and the provenance of its operators
in separate places. Passes change them one by one, and everything that reads a plan trusts that they
fit together. They do: the stages of a merged plan are intact, and every step of assembly leaves
intact stages (`Plan.Step.intact`), so all stages of an assembled plan are
(`assemble_integrity`).
-/

namespace StagePlanner

open Relation

/-- What a stage records about its ports and operators is true and fits together. -/
structure Stage.Intact (stage : Stage) (graph : Graph) : Prop where
  acyclic : stage.graph.Acyclic
  /-- Every input stands for something. -/
  origins : ∀ port ∈ stage.inputs, ∃ origin, origin ∈ port.origins
  /-- No two inputs stand for the same marker. -/
  apart : ∀ left ∈ stage.inputs, ∀ right ∈ stage.inputs, left.Meets right → left = right
  /-- No operator is recorded twice. -/
  copies : (stage.provenance.map CopiedPair.copy).Nodup
  /-- No operator is copied twice. -/
  sources : (stage.provenance.map CopiedPair.source).Nodup
  /-- Every operator is recorded. -/
  recorded : ∀ operator ∈ stage.graph.operators, ∃ source, ⟨operator.id, source⟩ ∈ stage.provenance
  /-- A copy does what its original does and has its serial number. -/
  alike : ∀ operator ∈ stage.graph.operators, ∀ source, ⟨operator.id, source⟩ ∈ stage.provenance →
    ∃ original ∈ graph.operators, original.id = source ∧ operator.kind = original.kind ∧
      operator.serial = original.serial
  /-- The marker of a port is a copy of a marker for which the port stands. -/
  markers : ∀ port ∈ stage.ports, ∃ origin ∈ port.origins, ⟨port.marker, origin⟩ ∈ stage.provenance

/-! ### Merged stages -/

namespace Stage.Realizes

variable {stage : Stage} {graph : Graph} {cut : StageCut} (realizes : stage.Realizes graph cut)

include realizes

/-- A stage that realizes a cut of an acyclic graph is acyclic. -/
theorem acyclic (acyclic : graph.Acyclic) : stage.graph.Acyclic := by
  refine Circuitless.of_map acyclic (fun id => (stage.source? id).getD id) ?_
  rintro source target ⟨output, input, wired⟩
  obtain ⟨left, isLeft, right, isRight, rfl, rfl, carries⟩ := realizes.exists_original wired
  rw [realizes.source?_eq_some_iff.2 isLeft, realizes.source?_eq_some_iff.2 isRight]
  exact carries.wired.feeds

/-- A sound stage that realizes a cut of an acyclic graph is intact. -/
theorem intact (acyclic : graph.Acyclic) (sound : stage.Sound) : stage.Intact graph where
  acyclic := realizes.acyclic acyclic
  origins port isInput := by
    obtain ⟨marker, same, -⟩ := realizes.exists_origin (List.mem_append_left _ isInput)
    exact ⟨marker, same ▸ OrderedSet.mem_singleton.2 rfl⟩
  apart left isLeft right isRight meets := by
    have leftPort : left ∈ stage.ports := List.mem_append_left _ isLeft
    have rightPort : right ∈ stage.ports := List.mem_append_left _ isRight
    obtain ⟨first, firstOrigins, isFirst⟩ := realizes.exists_origin leftPort
    obtain ⟨second, secondOrigins, isSecond⟩ := realizes.exists_origin rightPort
    obtain ⟨origin, inLeft, inRight⟩ := meets
    rw [firstOrigins, OrderedSet.mem_singleton] at inLeft
    rw [secondOrigins, OrderedSet.mem_singleton] at inRight
    have pairs := realizes.pair_unique_of_source isFirst isSecond (inLeft.symm.trans inRight)
    exact sound.proper.port_unique_of_marker leftPort rightPort (congrArg CopiedPair.copy pairs)
  copies := realizes.copies ▸ realizes.wellFormed.nodup_operatorIds
  sources := realizes.sources ▸ cut.members.nodup
  recorded operator member := by
    obtain ⟨pair, isPair, same⟩ := realizes.exists_source member
    exact ⟨pair.source, same ▸ isPair⟩
  alike operator member source isPair := by
    obtain ⟨copy, isCopy, original, isOriginal, copyId, originalId, same⟩ := realizes.alike _ isPair
    obtain rfl := realizes.wellFormed.operator_unique isCopy member copyId
    exact ⟨original, isOriginal, originalId, congrArg Blueprint.kind same,
      Option.some.inj (congrArg Blueprint.serial same)⟩
  markers port isPort := by
    obtain ⟨marker, same, isPair⟩ := realizes.exists_origin isPort
    exact ⟨marker, same ▸ OrderedSet.mem_singleton.2 rfl, isPair⟩

end Stage.Realizes

/-! ### Steps -/

namespace Stage

variable {result stage : Stage} {graph : Graph}

/-- What is left of an intact stage is intact when its inputs stay apart, ports stand for no less and
no circuit is closed. -/
theorem Intact.of_derives (intact : stage.Intact graph) (derives : result.Derives stage)
    (provenance : result.provenance.Sublist stage.provenance) (acyclic : result.graph.Acyclic)
    (origins : ∀ port ∈ result.inputs, ∃ origin, origin ∈ port.origins)
    (apart : ∀ left ∈ result.inputs, ∀ right ∈ result.inputs, left.Meets right → left = right)
    (ports : ∀ port ∈ result.ports, ∃ former ∈ stage.ports, former.marker = port.marker ∧
      port.marker ∈ result.graph.operatorIds ∧ ∀ origin ∈ former.origins, origin ∈ port.origins) :
    result.Intact graph where
  acyclic := acyclic
  origins := origins
  apart := apart
  copies := intact.copies.sublist (provenance.map _)
  sources := intact.sources.sublist (provenance.map _)
  recorded operator member := by
    obtain ⟨source, isPair⟩ := intact.recorded operator (derives.operators operator member)
    exact ⟨source, derives.keeps _ isPair (Graph.mem_operatorIds.2 ⟨operator, member, rfl⟩)⟩
  alike operator member source isPair :=
    intact.alike operator (derives.operators operator member) source (derives.provenance _ isPair)
  markers port isPort := by
    obtain ⟨former, isFormer, sameMarker, isThere, widened⟩ := ports port isPort
    obtain ⟨origin, isOrigin, isPair⟩ := intact.markers former isFormer
    rw [sameMarker] at isPair
    exact ⟨origin, widened origin isOrigin, derives.keeps _ isPair isThere⟩

theorem Sound.marker_mem (sound : stage.Sound) {port : StagePort} (isPort : port ∈ stage.ports) :
    port.marker ∈ stage.graph.operatorIds := by
  obtain ⟨operator, member, same, -⟩ := sound.marker port isPort
  exact Graph.mem_operatorIds.2 ⟨operator, member, same⟩

theorem Trims.intact (trims : result.Trims stage) (intact : stage.Intact graph)
    (sound : result.Sound) : result.Intact graph := by
  obtain ⟨stays, restricts, -⟩ := trims
  refine intact.of_derives restricts.derives (restricts.provenance ▸ .refl _)
    (restricts.graph.acyclic intact.acyclic)
    (fun port isInput => intact.origins port (restricts.inputs.subset isInput))
    (fun left isLeft right isRight => intact.apart left (restricts.inputs.subset isLeft) right
      (restricts.inputs.subset isRight)) fun port isPort => ?_
  exact ⟨port, (restricts.mem_ports.1 isPort).1, rfl, sound.marker_mem isPort, fun _ isOrigin => isOrigin⟩

/-- Ports of a side of which one was merged into another one stand for no less than before. -/
theorem exists_former_of_merged {ports olds : List StagePort} {kept absorbed port : StagePort}
    (isKept : kept ∈ olds) (merged : ∀ port, port ∈ ports ↔
      (port ∈ olds ∧ port ≠ kept ∧ port ≠ absorbed) ∨ port = kept.widened absorbed.origins)
    (isPort : port ∈ ports) : ∃ former ∈ olds, former.marker = port.marker ∧
      ∀ origin ∈ former.origins, origin ∈ port.origins := by
  rcases (merged port).1 isPort with ⟨isOld, -⟩ | rfl
  · exact ⟨port, isOld, rfl, fun _ isOrigin => isOrigin⟩
  · exact ⟨kept, isKept, rfl, fun _ isOrigin => OrderedSet.mem_union.2 (.inl isOrigin)⟩

/-- Merging an output into another one closes no circuit: an output feeds nothing. -/
theorem MergesOutputs.acyclic {kept absorbed : StagePort}
    (merges : result.MergesOutputs stage kept absorbed) (sound : result.Sound)
    (acyclic : stage.graph.Acyclic) : result.graph.Acyclic := by
  refine Circuitless.of_dead_ends acyclic ?_
  rintro source middle target ⟨output, input, wired⟩ onward
  obtain ⟨-, old | ⟨atKept, -⟩⟩ := (merges.wired _ _).1 wired
  · exact old.feeds
  · have isOutput := (merges.outputs _).2 (.inr rfl)
    obtain rfl : middle = kept.marker := congrArg Terminal.operator atKept
    exact absurd onward (sound.idle _ isOutput target)

/-- Merging an input into another one closes no circuit: nothing feeds an input. -/
theorem MergesInputs.acyclic {kept absorbed : StagePort}
    (merges : result.MergesInputs stage kept absorbed) (sound : result.Sound)
    (acyclic : stage.graph.Acyclic) : result.graph.Acyclic := by
  refine Circuitless.of_dead_starts acyclic ?_
  rintro source middle target before ⟨output, input, wired⟩
  obtain ⟨-, old | ⟨atKept, -⟩⟩ := (merges.wired _ _).1 wired
  · exact old.feeds
  · have isInput := (merges.inputs _).2 (.inr rfl)
    obtain rfl : middle = kept.marker := congrArg Terminal.operator atKept
    exact absurd before (sound.unfed _ isInput source)

theorem MergesOutputs.intact {kept absorbed : StagePort} (isKept : kept ∈ stage.outputs)
    (merges : result.MergesOutputs stage kept absorbed) (intact : stage.Intact graph)
    (sound : result.Sound) : result.Intact graph := by
  refine intact.of_derives merges.derives (merges.provenance ▸ .refl _)
    (merges.acyclic sound intact.acyclic)
    (fun port isInput => intact.origins port ((merges.inputs port).1 isInput))
    (fun left isLeft right isRight => intact.apart left ((merges.inputs left).1 isLeft) right
      ((merges.inputs right).1 isRight)) fun port isPort => ?_
  have isThere := sound.marker_mem isPort
  rcases List.mem_append.1 isPort with isInput | isOutput
  · exact ⟨port, List.mem_append_left _ ((merges.inputs port).1 isInput), rfl, isThere, fun _ isOrigin => isOrigin⟩
  · obtain ⟨former, isFormer, same, widened⟩ := exists_former_of_merged isKept merges.outputs isOutput
    exact ⟨former, List.mem_append_right _ isFormer, same, isThere, widened⟩

/-- Inputs stay apart when one of them takes over what another one stood for. -/
theorem Intact.apart_of_merged (intact : stage.Intact graph) {kept absorbed left right : StagePort}
    (isKept : kept ∈ stage.inputs) (isAbsorbed : absorbed ∈ stage.inputs)
    (merges : result.MergesInputs stage kept absorbed) (isLeft : left ∈ result.inputs)
    (isRight : right ∈ result.inputs) (meets : left.Meets right) : left = right := by
  have apart : ∀ port ∈ stage.inputs, port ≠ kept → port ≠ absorbed →
      ¬ (kept.widened absorbed.origins).Meets port := by
    intro port isInput notKept notAbsorbed meets
    rcases StagePort.widened_meets.1 meets with fromKept | fromAbsorbed
    · exact notKept (intact.apart kept isKept port isInput fromKept).symm
    · exact notAbsorbed (intact.apart absorbed isAbsorbed port isInput fromAbsorbed).symm
  rcases (merges.inputs left).1 isLeft with ⟨leftOld, leftNotKept, leftNotAbsorbed⟩ | rfl
  · rcases (merges.inputs right).1 isRight with ⟨rightOld, -⟩ | rfl
    · exact intact.apart left leftOld right rightOld meets
    · exact absurd meets.symm (apart left leftOld leftNotKept leftNotAbsorbed)
  · rcases (merges.inputs right).1 isRight with ⟨rightOld, rightNotKept, rightNotAbsorbed⟩ | rfl
    · exact absurd meets (apart right rightOld rightNotKept rightNotAbsorbed)
    · rfl

theorem MergesInputs.intact {kept absorbed : StagePort} (isKept : kept ∈ stage.inputs)
    (isAbsorbed : absorbed ∈ stage.inputs) (merges : result.MergesInputs stage kept absorbed)
    (intact : stage.Intact graph) (sound : result.Sound) : result.Intact graph := by
  refine intact.of_derives merges.derives (merges.provenance ▸ .refl _)
    (merges.acyclic sound intact.acyclic) (fun port isInput => ?_)
    (fun left isLeft right isRight => intact.apart_of_merged isKept isAbsorbed merges isLeft isRight)
    fun port isPort => ?_
  · obtain ⟨former, isFormer, -, widened⟩ := exists_former_of_merged isKept merges.inputs isInput
    obtain ⟨origin, isOrigin⟩ := intact.origins former isFormer
    exact ⟨origin, widened origin isOrigin⟩
  · have isThere := sound.marker_mem isPort
    rcases List.mem_append.1 isPort with isInput | isOutput
    · obtain ⟨former, isFormer, same, widened⟩ := exists_former_of_merged isKept merges.inputs isInput
      exact ⟨former, List.mem_append_left _ isFormer, same, isThere, widened⟩
    · exact ⟨port, List.mem_append_right _ ((merges.outputs port).1 isOutput), rfl, isThere,
        fun _ isOrigin => isOrigin⟩

theorem TakesOver.intact {found : Stage} {output input : StagePort}
    (takesOver : result.TakesOver stage found output input) (intact : stage.Intact graph) :
    result.Intact graph := by
  refine intact.of_derives takesOver.descends.toDerives (takesOver.provenance ▸ .refl _)
    (takesOver.graph.acyclic intact.acyclic)
    (fun port isInput => intact.origins port ((takesOver.inputs port).1 isInput))
    (fun left isLeft right isRight => intact.apart left ((takesOver.inputs left).1 isLeft) right
      ((takesOver.inputs right).1 isRight)) fun port isPort => ?_
  have isThere := takesOver.sound.marker_mem isPort
  rcases List.mem_append.1 isPort with isInput | isOutput
  · exact ⟨port, List.mem_append_left _ ((takesOver.inputs port).1 isInput), rfl, isThere,
      fun _ isOrigin => isOrigin⟩
  · obtain ⟨former, isFormer, -, rfl⟩ := (takesOver.outputs port).1 isOutput
    exact ⟨former, List.mem_append_right _ isFormer,
      congrArg Prod.snd (former.place_takingOver output input).symm, isThere,
      fun _ isOrigin => StagePort.mem_origins_takingOver.2 (.inl isOrigin)⟩

theorem Intact.pruneProvenance (intact : stage.Intact graph) (sound : stage.Sound) :
    stage.pruneProvenance.Intact graph :=
  intact.of_derives (Plan.derives_pruneProvenance sound) List.filter_sublist intact.acyclic
    intact.origins intact.apart fun port isPort =>
      ⟨port, isPort, rfl, sound.marker_mem isPort, fun _ isOrigin => isOrigin⟩

/-- After pruning, provenance is there for the operators of the stage and for nothing else. -/
theorem Intact.copies_perm (intact : stage.Intact graph) (sound : stage.Sound) :
    (stage.pruneProvenance.provenance.map CopiedPair.copy).Perm stage.graph.operatorIds := by
  refine (List.perm_ext_iff_of_nodup (intact.pruneProvenance sound).copies
    sound.wellFormed.nodup_operatorIds).2 fun id => ?_
  constructor
  · intro listed
    obtain ⟨pair, isPair, rfl⟩ := List.mem_map.1 listed
    exact ((Plan.mem_pruneProvenance sound).1 isPair).2
  · intro isThere
    obtain ⟨operator, member, rfl⟩ := Graph.mem_operatorIds.1 isThere
    obtain ⟨source, isPair⟩ := intact.recorded operator member
    exact List.mem_map.2 ⟨_, (Plan.mem_pruneProvenance sound).2 ⟨isPair, isThere⟩, rfl⟩

end Stage

namespace Plan

variable {plan result : Plan} {graph : Graph}

/-- All stages of a plan are intact. -/
def Intact (plan : Plan) (graph : Graph) : Prop := ∀ stage ∈ plan.stages, stage.Intact graph

theorem ChangesOnly.intact {stage : Stage} {becomes : Stage → Prop} (isStage : stage ∈ plan.stages)
    (changes : result.ChangesOnly plan stage becomes) (intact : plan.Intact graph)
    (stays : ∀ new, becomes new → stage.Intact graph → new.Intact graph) : result.Intact graph := by
  intro new isNew
  obtain ⟨old, isOld, ⟨-, became⟩ | ⟨-, rfl⟩⟩ := exists_partner changes isNew
  · exact stays new became (intact stage isStage)
  · exact intact new isOld

/-- A step of assembly leaves intact stages. -/
theorem Step.intact {equivalence : Equivalence} (step : Step equivalence plan result)
    (sound : plan.Sound) (intact : plan.Intact graph) : result.Intact graph := by
  have resultSound := step.sound sound
  cases step with
  | trim trims =>
    intro new isNew
    obtain ⟨old, isOld, trimmed⟩ := trims.stages new isNew
    exact trimmed.intact (intact old isOld) (resultSound.stages new isNew)
  | mergeOutputs isStage isKept _ _ _ _ changes =>
    exact changes.intact isStage intact fun _ became old => became.2.intact isKept old became.1
  | mergeInputs isStage isKept isAbsorbed _ _ _ changes =>
    exact changes.intact isStage intact fun _ became old =>
      became.2.intact isKept isAbsorbed old became.1
  | dissolve _ _ _ _ _ changes =>
    intro new isNew
    obtain ⟨old, isOld, takesOver⟩ := exists_partner changes isNew
    exact takesOver.intact (intact old isOld)

theorem intact_of_steps {equivalence : Equivalence} (sound : plan.Sound) (intact : plan.Intact graph)
    (steps : ReflTransGen (Step equivalence) plan result) : result.Intact graph := by
  induction steps with
  | refl => exact intact
  | tail before last ih =>
    exact last.intact (sound_of_steps (fun _ _ sound step => step.sound sound) sound before) ih

/-- The identifiers of all ports differ when those within a stage and those of different stages do. -/
theorem Sound.nodup_portIds (sound : plan.Sound) (distinct : plan.DistinctPorts) :
    (plan.stages.flatMap fun stage => stage.ports.map StagePort.id).Nodup := by
  refine List.nodup_flatMap.2 ⟨fun stage isStage => (sound.stages stage isStage).distinctPorts, ?_⟩
  refine List.Nodup.pairwise_of_forall_ne sound.distinct.of_map ?_
  intro left isLeft right isRight differ id inLeft inRight
  obtain ⟨first, isFirst, rfl⟩ := List.mem_map.1 inLeft
  obtain ⟨second, isSecond, same⟩ := List.mem_map.1 inRight
  exact differ (distinct left isLeft first isFirst right isRight second isSecond same.symm)

end Plan

theorem Merging.intact {graph : Graph} {primitive merged : Plan} {groups : List StageGroup}
    {level : OperatorId → Nat} {cuts mergedCuts : List StageCut}
    (merging : Merging graph primitive groups level cuts merged mergedCuts)
    (single : graph.SinglePortMarkers) : merged.Intact graph := by
  intro stage isStage
  obtain ⟨cut, -, realizes⟩ := exists_partner_of_mem merging.mergedPlan.built.realized isStage
  exact realizes.intact merging.acyclic ((merging.planSound single).stages stage isStage)

/-- Assembly of a grouped graph succeeds, whatever passes it runs and however ports are compared, and
what is recorded about the stages of the result fits together: no identifier of a stage or a port is
used twice, the ports are markers through which nothing passes inside their stage, the records are
intact, and provenance is there for the operators of a stage and for nothing else. -/
theorem assemble_integrity {graph : Graph} {primitive : Plan} {groups : List StageGroup}
    (grouped : Grouped graph primitive groups) (single : graph.SinglePortMarkers)
    (passes : AssemblyPasses) (equivalence : Equivalence) :
    ∃ plan, primitive.assemble graph (groups.map StageGroup.elements) passes equivalence = .ok plan ∧
      plan.stageIds.Nodup ∧ (plan.stages.flatMap fun stage => stage.ports.map StagePort.id).Nodup ∧
      ∀ stage ∈ plan.stages, stage.Sound ∧ stage.Intact graph ∧
        (stage.provenance.map CopiedPair.copy).Perm stage.graph.operatorIds := by
  obtain ⟨_, _, merged, _, isMerged, merging⟩ := grouped.exists_merging
  have mergedSound := merging.planSound single
  obtain ⟨settled, plan, isPlan, steps, settledSound, same, sound, -, -⟩ := Plan.exists_assembled
    isMerged mergedSound merging.mergedPlan.circuitless (fun _ _ step => step)
    (Plan.performs_assemblyRound passes equivalence)
  have settledIntact := Plan.intact_of_steps mergedSound (merging.intact single) steps
  have distinct : plan.DistinctPorts :=
    ((Plan.descends_of_finished settledSound same).trans (Plan.descends_of_steps steps)).distinctPorts
      sound merging.mergedPlan.built.apartPorts
  refine ⟨plan, isPlan, sound.distinct, sound.nodup_portIds distinct, fun stage isStage => ?_⟩
  refine ⟨sound.stages stage isStage, ?_⟩
  obtain ⟨old, isOld, rfl⟩ := List.mem_map.1 (same.mem_iff.1 isStage)
  have oldSound := settledSound.stages old isOld
  exact ⟨(settledIntact old isOld).pruneProvenance oldSound, (settledIntact old isOld).copies_perm oldSound⟩

theorem assemble_integrity_sample : ∃ primitive groups plan, Grouped Graph.sample primitive groups ∧
    Graph.sample.SinglePortMarkers ∧
    primitive.assemble Graph.sample (groups.map StageGroup.elements) .all .byContent = .ok plan ∧
    plan.stageIds.Nodup ∧ (plan.stages.flatMap fun stage => stage.ports.map StagePort.id).Nodup ∧
    ∀ stage ∈ plan.stages, stage.Sound ∧ stage.Intact Graph.sample ∧
      (stage.provenance.map CopiedPair.copy).Perm stage.graph.operatorIds := by
  obtain ⟨primitive, groups, grouped⟩ := Graph.exists_grouped_sample
  have single := Graph.singlePortMarkers_sample
  obtain ⟨plan, isPlan, intact⟩ := assemble_integrity grouped single .all .byContent
  exact ⟨primitive, groups, plan, grouped, single, isPlan, intact⟩

end StagePlanner
