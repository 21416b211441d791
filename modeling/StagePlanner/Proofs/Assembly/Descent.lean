import StagePlanner.Proofs.Multiplicity.Retaining

/-!
# What stages descend from

Steps of assembly make no stages, operators or ports: every stage of an assembled plan is what is
left of a stage of the merged plan, and every port of it is a port of that stage, at the same marker
and on the same side (`Stage.Descends`). So what holds of single ports and operators of a merged
plan holds of assembled plans as well, whatever passes were run.
-/

namespace StagePlanner

open Relation

namespace Stage

/-- The first stage is what is left of the second one, with ports that the second one had on the
same side. -/
structure Descends (result stage : Stage) : Prop extends result.Derives stage where
  inputs : ∀ port ∈ result.inputs, ∃ former ∈ stage.inputs, former.place = port.place
  outputs : ∀ port ∈ result.outputs, ∃ former ∈ stage.outputs, former.place = port.place

variable {result middle stage : Stage}

theorem Descends.refl (stage : Stage) : stage.Descends stage where
  toDerives := .refl stage
  inputs port isInput := ⟨port, isInput, rfl⟩
  outputs port isOutput := ⟨port, isOutput, rfl⟩

theorem Descends.trans (later : result.Descends middle) (earlier : middle.Descends stage) :
    result.Descends stage where
  toDerives := earlier.toDerives.trans later.toDerives
  inputs port isInput := by
    obtain ⟨between, isBetween, same⟩ := later.inputs port isInput
    obtain ⟨former, isFormer, before⟩ := earlier.inputs between isBetween
    exact ⟨former, isFormer, before.trans same⟩
  outputs port isOutput := by
    obtain ⟨between, isBetween, same⟩ := later.outputs port isOutput
    obtain ⟨former, isFormer, before⟩ := earlier.outputs between isBetween
    exact ⟨former, isFormer, before.trans same⟩

theorem Descends.ports (descends : result.Descends stage) {port : StagePort}
    (isPort : port ∈ result.ports) : ∃ former ∈ stage.ports, former.place = port.place := by
  rcases List.mem_append.1 isPort with isInput | isOutput
  · obtain ⟨former, isFormer, same⟩ := descends.inputs port isInput
    exact ⟨former, List.mem_append_left _ isFormer, same⟩
  · obtain ⟨former, isFormer, same⟩ := descends.outputs port isOutput
    exact ⟨former, List.mem_append_right _ isFormer, same⟩

/-- An operator that is left is the operator that was there. -/
theorem Derives.operator?_eq (derives : result.Derives stage) (resultSound : result.Sound)
    (sound : stage.Sound) {id : OperatorId} (isThere : id ∈ result.graph.operatorIds) :
    result.graph.operator? id = stage.graph.operator? id := by
  obtain ⟨operator, member, rfl⟩ := Graph.mem_operatorIds.1 isThere
  rw [resultSound.wellFormed.operator?_eq_some_iff.2 ⟨member, rfl⟩,
    sound.wellFormed.operator?_eq_some_iff.2 ⟨derives.operators operator member, rfl⟩]

/-- The marker of a port is the marker of the port from which it descends. -/
theorem Derives.operator?_port (derives : result.Derives stage) (resultSound : result.Sound)
    (sound : stage.Sound) {port former : StagePort} (isPort : port ∈ result.ports)
    (same : former.marker = port.marker) : result.operator? port = stage.operator? former := by
  obtain ⟨operator, -, member, sameId, -⟩ := resultSound.exists_operator isPort
  rw [operator?, operator?, same]
  exact derives.operator?_eq resultSound sound (Graph.mem_operatorIds.2 ⟨operator, member, sameId⟩)

theorem Trims.descends (trims : result.Trims stage) : result.Descends stage := by
  obtain ⟨stays, restricts, -⟩ := trims
  exact ⟨restricts.derives, fun port isInput => ⟨port, ((restricts.mem_inputs port).1 isInput).1, rfl⟩,
    fun port isOutput => ⟨port, ((restricts.mem_outputs port).1 isOutput).1, rfl⟩⟩

theorem MergesOutputs.descends {kept absorbed : StagePort} (isKept : kept ∈ stage.outputs)
    (merges : result.MergesOutputs stage kept absorbed) : result.Descends stage where
  toDerives := merges.derives
  inputs port isInput := ⟨port, (merges.inputs port).1 isInput, rfl⟩
  outputs port isOutput := by
    rcases (merges.outputs port).1 isOutput with ⟨isFormer, -⟩ | rfl
    · exact ⟨port, isFormer, rfl⟩
    · exact ⟨kept, isKept, rfl⟩

theorem MergesInputs.descends {kept absorbed : StagePort} (isKept : kept ∈ stage.inputs)
    (merges : result.MergesInputs stage kept absorbed) : result.Descends stage where
  toDerives := merges.derives
  inputs port isInput := by
    rcases (merges.inputs port).1 isInput with ⟨isFormer, -⟩ | rfl
    · exact ⟨port, isFormer, rfl⟩
    · exact ⟨kept, isKept, rfl⟩
  outputs port isOutput := ⟨port, (merges.outputs port).1 isOutput, rfl⟩

theorem TakesOver.descends {found : Stage} {output input : StagePort}
    (takesOver : result.TakesOver stage found output input) : result.Descends stage where
  toDerives := takesOver.derives
  inputs port isInput := ⟨port, (takesOver.inputs port).1 isInput, rfl⟩
  outputs port isOutput := by
    obtain ⟨former, isFormer, -, rfl⟩ := (takesOver.outputs port).1 isOutput
    exact ⟨former, isFormer, (former.place_takingOver output input).symm⟩

end Stage

namespace Plan

/-- Every stage of the first plan is what is left of a stage of the second one. -/
def Descends (result plan : Plan) : Prop :=
  ∀ new ∈ result.stages, ∃ old ∈ plan.stages, new.Descends old

variable {result middle plan : Plan}

theorem Descends.refl (plan : Plan) : plan.Descends plan :=
  fun stage isStage => ⟨stage, isStage, .refl stage⟩

theorem Descends.trans (later : result.Descends middle) (earlier : middle.Descends plan) :
    result.Descends plan := by
  intro new isNew
  obtain ⟨between, isBetween, second⟩ := later new isNew
  obtain ⟨old, isOld, first⟩ := earlier between isBetween
  exact ⟨old, isOld, second.trans first⟩

theorem ChangesOnly.descends {stage : Stage} {becomes : Stage → Prop}
    (changes : result.ChangesOnly plan stage becomes)
    (descends : ∀ new, becomes new → new.Descends stage) : result.Descends plan := by
  intro new isNew
  obtain ⟨old, isOld, ⟨rfl, became⟩ | ⟨-, rfl⟩⟩ := exists_partner changes isNew
  · exact ⟨old, isOld, descends new became⟩
  · exact ⟨new, isOld, .refl new⟩

/-- What a step of assembly leaves descends from what was there. -/
theorem Step.descends {equivalence : Equivalence} (step : Step equivalence plan result) :
    result.Descends plan := by
  cases step with
  | trim trims =>
    intro new isNew
    obtain ⟨old, isOld, trimmed⟩ := trims.stages new isNew
    exact ⟨old, isOld, trimmed.descends⟩
  | mergeOutputs _ isKept _ _ _ _ changes => exact changes.descends fun _ became => became.2.descends isKept
  | mergeInputs _ isKept _ _ _ _ changes => exact changes.descends fun _ became => became.2.descends isKept
  | dissolve _ _ _ _ _ changes =>
    intro new isNew
    obtain ⟨old, isOld, takesOver⟩ := exists_partner changes isNew
    exact ⟨old, isOld, takesOver.descends⟩

/-- So does what steps of assembly leave. -/
theorem descends_of_steps {equivalence : Equivalence}
    (steps : ReflTransGen (Step equivalence) plan result) : result.Descends plan := by
  induction steps with
  | refl => exact .refl plan
  | tail _ last ih => exact last.descends.trans ih

/-- Finishing only forgets the provenance of what is gone and reorders stages. -/
theorem descends_of_finished (sound : plan.Sound) (same : result.stages.Perm plan.tidied.stages) :
    result.Descends plan := by
  intro new isNew
  have isTidied := same.mem_iff.1 isNew
  obtain ⟨old, isOld, rfl⟩ := List.mem_map.1 isTidied
  exact ⟨old, isOld, derives_pruneProvenance (sound.stages old isOld),
    fun port isInput => ⟨port, isInput, rfl⟩, fun port isOutput => ⟨port, isOutput, rfl⟩⟩

/-! ### Identifiers of ports -/

/-- No identifier is given to two ports of a plan. -/
def DistinctPorts (plan : Plan) : Prop :=
  ∀ left ∈ plan.stages, ∀ first ∈ left.ports, ∀ right ∈ plan.stages, ∀ second ∈ right.ports,
    first.id = second.id → left = right

theorem distinctPorts_of_nodup
    (distinct : (plan.stages.flatMap fun stage => stage.ports.map StagePort.id).Nodup) :
    plan.DistinctPorts := by
  intro left isLeft first isFirst right isRight second isSecond same
  have inLeft := List.mem_map_of_mem isFirst (f := StagePort.id)
  have inRight := List.mem_map_of_mem isSecond (f := StagePort.id)
  by_contra differ
  have symmetric : Std.Symm fun left right : Stage =>
      (left.ports.map StagePort.id).Disjoint (right.ports.map StagePort.id) :=
    ⟨fun _ _ apart => apart.symm⟩
  exact (List.nodup_flatMap.1 distinct).2.forall isLeft isRight differ inLeft (same ▸ inRight)

theorem Built.apartPorts {graph : Graph} {cuts : List StageCut} (built : plan.Built graph cuts) :
    plan.DistinctPorts := distinctPorts_of_nodup built.distinctPorts

theorem Descends.distinctPorts (descends : result.Descends plan) (resultSound : result.Sound)
    (distinct : plan.DistinctPorts) : result.DistinctPorts := by
  intro left isLeft first isFirst right isRight second isSecond same
  obtain ⟨oldLeft, isOldLeft, leftDescends⟩ := descends left isLeft
  obtain ⟨oldRight, isOldRight, rightDescends⟩ := descends right isRight
  obtain ⟨oldFirst, isOldFirst, firstPlace⟩ := leftDescends.ports isFirst
  obtain ⟨oldSecond, isOldSecond, secondPlace⟩ := rightDescends.ports isSecond
  have sameIds : oldFirst.id = oldSecond.id :=
    (congrArg Prod.fst firstPlace).trans (same.trans (congrArg Prod.fst secondPlace).symm)
  obtain rfl := distinct oldLeft isOldLeft oldFirst isOldFirst oldRight isOldRight oldSecond
    isOldSecond sameIds
  exact stage_unique resultSound.distinct isLeft isRight
    (leftDescends.id.trans rightDescends.id.symm)

end Plan

end StagePlanner
