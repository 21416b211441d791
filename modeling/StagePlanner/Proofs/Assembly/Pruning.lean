import StagePlanner.Proofs.Assembly.Removal
import StagePlanner.Proofs.Fallible
import StagePlanner.Proofs.Graph.Ancestry

/-!
# Pruning

Pruning removes what contributes to no output, and dropping unread outputs removes these. In both
cases an operator that stays keeps all that feeds it (`Stage.Trims`), and an output only goes when
it is not needed (`Plan.Trims`).

* `Plan.Proper.exists_prune`: pruning succeeds and keeps every output.
* `Plan.Proper.exists_dropUnread`: dropping unread outputs succeeds and keeps the others.
-/

namespace StagePlanner

open Relation

namespace Stage

variable {stage : Stage}

/-- The first stage is the second one restricted to operators that stay with all that feeds
them. -/
def Trims (result stage : Stage) : Prop :=
  ∃ stays, result.Restricts stage stays ∧
    ∀ source target, stage.graph.Feeds source target → stays target → stays source

theorem Trims.id {result : Stage} (trims : result.Trims stage) : result.id = stage.id := by
  obtain ⟨stays, restricts, -⟩ := trims
  exact restricts.id

/-! ### Removing several ports -/

/-- Ports of one side of a proper stage can be removed one by one. -/
theorem Proper.exists_foldlM_remove {remove : Stage → StagePortId → Except Fault Stage}
    {side : Stage → List StagePort}
    (removable : ∀ stage : Stage, stage.Proper → ∀ port ∈ side stage, ∃ result,
      remove stage port.id = .ok result ∧ result.Restricts stage fun id => id ≠ port.marker)
    (staying : ∀ result stage stays, Restricts result stage stays →
      ∀ port, port ∈ side result ↔ port ∈ side stage ∧ stays port.marker)
    {ports : List StagePort} (distinct : (ports.map StagePort.marker).Nodup) (proper : stage.Proper)
    (members : ∀ port ∈ ports, port ∈ side stage) :
    ∃ result, ports.foldlM (fun stage port => remove stage port.id) stage = .ok result ∧
      result.Restricts stage fun id => id ∉ ports.map StagePort.marker := by
  induction ports generalizing stage with
  | nil => exact ⟨stage, rfl, proper.restricts_refl.congr (by simp)⟩
  | cons port rest ih =>
    obtain ⟨fresh, restDistinct⟩ := List.nodup_cons.1 distinct
    obtain ⟨middle, isMiddle, first⟩ := removable stage proper port (members port List.mem_cons_self)
    obtain ⟨result, isResult, others⟩ := ih restDistinct (first.proper proper) fun other member =>
      (staying _ _ _ first other).2 ⟨members other (List.mem_cons_of_mem _ member), fun same =>
        fresh (same ▸ List.mem_map_of_mem member)⟩
    refine ⟨result, by rw [List.foldlM_cons, isMiddle]; exact isResult, ?_⟩
    exact (others.trans first).congr fun id => by simp

theorem Proper.exists_removeOutputs (proper : stage.Proper) {ports : List StagePort}
    (part : ports.Sublist stage.outputs) : ∃ result, stage.removeOutputs ports = .ok result ∧
      result.Restricts stage fun id => id ∉ ports.map StagePort.marker := by
  have distinct := proper.distinctMarkers
  rw [Stage.ports, List.map_append] at distinct
  exact proper.exists_foldlM_remove (fun _ proper _ => proper.exists_removeOutput)
    (fun _ _ _ restricts => restricts.mem_outputs)
    ((List.nodup_append.1 distinct).2.1.sublist (part.map _)) fun _ member => part.subset member

theorem Proper.exists_removeInputs (proper : stage.Proper) {ports : List StagePort}
    (part : ports.Sublist stage.inputs) : ∃ result, stage.removeInputs ports = .ok result ∧
      result.Restricts stage fun id => id ∉ ports.map StagePort.marker := by
  have distinct := proper.distinctMarkers
  rw [Stage.ports, List.map_append] at distinct
  exact proper.exists_foldlM_remove (fun _ proper _ => proper.exists_removeInput)
    (fun _ _ _ restricts => restricts.mem_inputs)
    ((List.nodup_append.1 distinct).1.sublist (part.map _)) fun _ member => part.subset member

/-! ### Dead operators -/

/-- What lives are the outputs and the operators with a way to one. -/
theorem Proper.mem_live (proper : stage.Proper) {id : OperatorId} :
    id ∈ stage.live ↔ ∃ output ∈ stage.outputs, ReflTransGen stage.graph.Feeds id output.marker := by
  have folded : ∀ (outputs : List StagePort) (start : OrderedSet OperatorId),
      id ∈ outputs.foldl (fun live output => (live.insert output.marker).union
        (stage.graph.ancestors (fun _ => true) output.marker)) start ↔
      id ∈ start ∨ ∃ output ∈ outputs, id = output.marker ∨
        id ∈ stage.graph.ancestors (fun _ => true) output.marker := by
    intro outputs
    induction outputs with
    | nil => simp
    | cons output rest ih =>
      intro start
      rw [List.foldl_cons, ih, OrderedSet.mem_union, OrderedSet.mem_insert,
        List.exists_mem_cons_iff, or_comm (b := id ∈ start), or_assoc, or_assoc, or_assoc]
  have anyone : ∀ source target, stage.graph.FeedsBy (fun _ => true) source target ↔
      stage.graph.Feeds source target := by
    intro source target
    refine and_iff_right_of_imp fun feeds => ?_
    obtain ⟨operator, member, same⟩ := feeds.operators.1
    exact (Graph.holds_iff proper.wellFormed).2 ⟨operator, member, same, rfl⟩
  have relation : stage.graph.FeedsBy (fun _ => true) = stage.graph.Feeds :=
    funext fun source => funext fun target => propext (anyone source target)
  rw [live, folded, or_iff_right OrderedSet.not_mem_empty]
  refine exists_congr fun output => and_congr_right fun isOutput => ?_
  have noCircuit : ¬ TransGen (stage.graph.FeedsBy fun _ => true) output.marker output.marker := by
    intro circuit
    obtain ⟨next, feeds, -⟩ := TransGen.head'_iff.1 circuit
    exact proper.idle output isOutput next feeds.2
  rw [Graph.mem_ancestors proper.wellFormed noCircuit, relation, reflTransGen_iff_eq_or_transGen]
  exact or_congr_left eq_comm

theorem Proper.mem_deadOperators (proper : stage.Proper) {operator : Operator} :
    operator ∈ stage.deadOperators ↔ operator ∈ stage.graph.operators ∧
      operator.id ∉ stage.live ∧ ∀ port ∈ stage.inputs, port.marker ≠ operator.id := by
  rw [deadOperators, List.mem_filter, Bool.and_eq_true, decide_eq_true_eq, Option.isNone_iff_eq_none,
    Option.eq_none_iff_forall_ne_some]
  refine and_congr_right fun _ => and_congr_right fun _ => ?_
  simp only [ne_eq, proper.inputAt?_eq_some_iff, not_and]

/-- An operator lives when a live one reads it. -/
theorem Proper.live_of_feeds (proper : stage.Proper) {source target : OperatorId}
    (feeds : stage.graph.Feeds source target) (live : target ∈ stage.live) : source ∈ stage.live := by
  obtain ⟨output, isOutput, way⟩ := proper.mem_live.1 live
  exact proper.mem_live.2 ⟨output, isOutput, way.head feeds⟩

/-- Without its dead operators a stage is trimmed, and all ports stay. -/
theorem Proper.exists_withoutDead (proper : stage.Proper) : ∃ stays,
    stage.withoutDead.Restricts stage stays ∧
      (∀ source target, stage.graph.Feeds source target → stays target → stays source) ∧
      ∀ port ∈ stage.ports, stays port.marker := by
  let stays (id : OperatorId) : Prop := id ∉ stage.deadOperators.map Operator.id
  have portsStay : ∀ port ∈ stage.ports, stays port.marker := by
    intro port isPort dead
    obtain ⟨operator, isDead, same⟩ := List.mem_map.1 dead
    obtain ⟨-, notLive, noInput⟩ := proper.mem_deadOperators.1 isDead
    rcases List.mem_append.1 isPort with isInput | isOutput
    · exact noInput port isInput same.symm
    · exact notLive (proper.mem_live.2 ⟨port, isOutput, same ▸ .refl⟩)
  refine ⟨stays, ⟨rfl, rfl, ?_, .refl _, .refl _, fun port => ?_, fun port => ?_⟩, ?_, portsStay⟩
  · have distinct : stage.graph.operators.Nodup := proper.wellFormed.nodup_operatorIds.of_map
    exact proper.wellFormed.restricts_foldl_without
      (fun operator isDead => (proper.mem_deadOperators.1 isDead).1) (distinct.filter _)
  · exact ⟨fun isInput => ⟨isInput, portsStay port (List.mem_append_left _ isInput)⟩, And.left⟩
  · exact ⟨fun isOutput => ⟨isOutput, portsStay port (List.mem_append_right _ isOutput)⟩, And.left⟩
  · intro source target feeds targetStays dead
    obtain ⟨operator, isDead, rfl⟩ := List.mem_map.1 dead
    obtain ⟨-, notLive, -⟩ := proper.mem_deadOperators.1 isDead
    obtain ⟨reader, isReader, rfl⟩ := feeds.operators.2
    -- The reader stays, so it lives or is an input, and nothing feeds an input.
    by_cases live : reader.id ∈ stage.live
    · exact notLive (proper.live_of_feeds feeds live)
    · refine targetStays (List.mem_map_of_mem (proper.mem_deadOperators.2 ⟨isReader, live, ?_⟩))
      intro port isInput same
      exact proper.unfed port isInput _ (same ▸ feeds)

/-- A stage with outputs is pruned to a trimmed one that still has all of them. -/
theorem Proper.exists_prune? (proper : stage.Proper) (writes : stage.outputs ≠ []) :
    ∃ result, stage.prune? = .ok (some result) ∧ result.Trims stage ∧
      ∀ output ∈ stage.outputs, output ∈ result.outputs := by
  obtain ⟨stays, alive, closed, portsStay⟩ := proper.exists_withoutDead
  have aliveProper := alive.proper proper
  obtain ⟨result, isResult, used⟩ := aliveProper.exists_removeInputs
    (List.filter_sublist : stage.withoutDead.unusedInputs.Sublist stage.withoutDead.inputs)
  have readsNothing : ∀ id ∈ stage.withoutDead.unusedInputs.map StagePort.marker, ∀ target,
      ¬ stage.withoutDead.graph.Feeds id target := by
    intro id member target feeds
    obtain ⟨port, isUnused, rfl⟩ := List.mem_map.1 member
    have empty := OrderedSet.isEmpty_iff.1 (List.mem_filter.1 isUnused).2
    exact empty _ ((Graph.mem_successors aliveProper.wellFormed).2 feeds)
  refine ⟨result, ?_, ⟨_, used.trans alive, ?_⟩, fun output isOutput => ?_⟩
  · rw [prune?, if_neg (by simpa using writes)]
    exact congrArg (Except.map some) isResult
  · rintro source target feeds ⟨targetStays, -⟩
    have sourceStays := closed source target feeds targetStays
    obtain ⟨output, input, wired⟩ := feeds
    exact ⟨sourceStays, fun unused => readsNothing source unused target
      ⟨output, input, (alive.graph.wired _ _).2 ⟨wired, sourceStays, targetStays⟩⟩⟩
  · have stillThere := (alive.mem_outputs output).2
      ⟨isOutput, portsStay output (List.mem_append_right _ isOutput)⟩
    refine (used.mem_outputs output).2 ⟨stillThere, fun unused => ?_⟩
    obtain ⟨input, isUnused, same⟩ := List.mem_map.1 unused
    exact aliveProper.input_ne_output (List.mem_filter.1 isUnused).1 stillThere same

end Stage

namespace Plan

variable {plan : Plan}

/-- Stages that change without changing their identifiers keep these. -/
theorem stageIds_of_paired {result : Plan} (paired : List.Forall₂ (fun (old new : Stage) =>
    new.id = old.id) plan.stages result.stages) : result.stageIds = plan.stageIds := by
  have same : List.Forall₂ (fun old new => old = new) (plan.stages.map Stage.id)
      (result.stages.map Stage.id) := by
    rw [List.forall₂_map_left_iff, List.forall₂_map_right_iff]
    exact paired.imp fun _ _ => Eq.symm
  rw [List.forall₂_eq_eq_eq] at same
  exact same.symm

/-- The stages of the first plan are trimmed stages of the second one, which still have every output
that is needed. -/
structure Trims (result plan : Plan) (needed : Stage → StagePort → Prop) : Prop where
  stageIds : result.stageIds.Sublist plan.stageIds
  stages : ∀ stage ∈ result.stages, ∃ old ∈ plan.stages, stage.Trims old
  outputs : ∀ old ∈ plan.stages, ∀ output ∈ old.outputs, needed old output →
    ∃ stage ∈ result.stages, stage.id = old.id ∧ output ∈ stage.outputs

theorem Trims.mono {result : Plan} {needed fewer : Stage → StagePort → Prop}
    (trims : result.Trims plan needed)
    (less : ∀ stage output, fewer stage output → needed stage output) : result.Trims plan fewer :=
  ⟨trims.stageIds, trims.stages, fun old isOld output isOutput need =>
    trims.outputs old isOld output isOutput (less old output need)⟩

/-- Of a stage with a needed output something stays, with this output. -/
theorem Trims.exists_trimmed {result : Plan} {needed : Stage → StagePort → Prop}
    (trims : result.Trims plan needed) (proper : plan.Proper) {old : Stage} (isOld : old ∈ plan.stages)
    {output : StagePort} (isOutput : output ∈ old.outputs) (need : needed old output) :
    ∃ new ∈ result.stages, new.Trims old ∧ output ∈ new.outputs := by
  obtain ⟨new, isNew, same, isThere⟩ := trims.outputs old isOld output isOutput need
  obtain ⟨other, isOther, trimmed⟩ := trims.stages new isNew
  obtain rfl := stage_unique proper.distinct isOther isOld (trimmed.id.symm.trans same)
  exact ⟨new, isNew, trimmed, isThere⟩

/-- Pruning keeps every output. -/
theorem Proper.exists_prune (proper : plan.Proper) :
    ∃ result, plan.prune = .ok result ∧ result.Trims plan fun _ _ => True := by
  have each : ∃ results, plan.stages.mapM Stage.prune? = .ok results ∧
      List.Forall₂ (fun stage result => (stage.outputs = [] ∧ result = none) ∨ ∃ trimmed,
        result = some trimmed ∧ trimmed.Trims stage ∧
          ∀ output ∈ stage.outputs, output ∈ trimmed.outputs) plan.stages results := by
    refine exists_mapM fun stage isStage => ?_
    by_cases empty : stage.outputs = []
    · exact ⟨none, by rw [Stage.prune?, empty]; rfl, .inl ⟨empty, rfl⟩⟩
    · obtain ⟨trimmed, isTrimmed, trims, keeps⟩ := (proper.stages stage isStage).exists_prune? empty
      exact ⟨some trimmed, isTrimmed, .inr ⟨trimmed, rfl, trims, keeps⟩⟩
  obtain ⟨results, succeeds, paired⟩ := each
  refine ⟨{ plan with stages := results.filterMap id }, by rw [prune, succeeds]; rfl, ?_, ?_, ?_⟩
  · rw [stageIds, stageIds]
    clear succeeds
    generalize plan.stages = olds at paired ⊢
    induction paired with
    | nil => exact .refl _
    | cons first _ ih =>
      rcases first with ⟨-, rfl⟩ | ⟨trimmed, rfl, ⟨_, restricts, -⟩, -⟩
      · exact ih.cons _
      · simp only [List.filterMap_cons, id_eq, List.map_cons, restricts.id]
        exact ih.cons_cons _
  · intro stage isStage
    obtain ⟨result, isResult, same⟩ := List.mem_filterMap.1 isStage
    obtain ⟨old, isOld, ⟨-, rfl⟩ | ⟨trimmed, rfl, trims, -⟩⟩ := exists_partner paired isResult
    · cases same
    · cases same
      exact ⟨old, isOld, trims⟩
  · intro old isOld output isOutput _
    obtain ⟨result, isResult, ⟨empty, -⟩ | ⟨trimmed, rfl, ⟨_, restricts, -⟩, keeps⟩⟩ :=
      exists_partner_of_mem paired isOld
    · simp [empty] at isOutput
    · exact ⟨trimmed, List.mem_filterMap.2 ⟨_, isResult, rfl⟩, restricts.id, keeps output isOutput⟩

/-- An output is needed when it is meant for nobody or when somebody reads it. -/
def Needs (plan : Plan) (stage : Stage) (output : StagePort) : Prop :=
  stage.marker? output = some .finish ∨ ∃ consumer ∈ plan.stages, ∃ input ∈ consumer.inputs,
    ∃ origin, origin ∈ output.origins ∧ origin ∈ input.origins

theorem not_needs_of_mem_unreadOutputs {stage : Stage} {output : StagePort}
    (unread : output ∈ plan.unreadOutputs stage) : ¬ plan.Needs stage output := by
  obtain ⟨-, both⟩ := List.mem_filter.1 unread
  obtain ⟨noFinish, nobody⟩ := Bool.and_eq_true_iff.1 both
  rintro (isFinish | ⟨consumer, isConsumer, input, isInput, origin, inOutput, inInput⟩)
  · exact of_decide_eq_true noFinish isFinish
  · have reads := mem_inputsFrom.2 ⟨consumer, isConsumer, input, isInput,
      ⟨origin, inInput, inOutput⟩, rfl⟩
    rw [List.isEmpty_iff.1 nobody] at reads
    cases reads

/-- Dropping unread outputs keeps every output that is needed. -/
theorem Proper.exists_dropUnread (proper : plan.Proper) :
    ∃ result, plan.dropUnread = .ok result ∧ result.Trims plan plan.Needs := by
  have each : ∃ results,
      (plan.stages.mapM fun stage => stage.removeOutputs (plan.unreadOutputs stage)) = .ok results ∧
      List.Forall₂ (fun stage trimmed => trimmed.Trims stage ∧
        ∀ output ∈ stage.outputs, plan.Needs stage output → output ∈ trimmed.outputs)
        plan.stages results := by
    refine exists_mapM fun stage isStage => ?_
    have stageProper := proper.stages stage isStage
    obtain ⟨trimmed, isTrimmed, restricts⟩ := stageProper.exists_removeOutputs
      (List.filter_sublist : (plan.unreadOutputs stage).Sublist stage.outputs)
    refine ⟨trimmed, isTrimmed, ⟨_, restricts, fun source target feeds _ unread => ?_⟩,
      fun output isOutput need => (restricts.mem_outputs output).2 ⟨isOutput, fun unread => ?_⟩⟩
    · obtain ⟨output, isUnread, rfl⟩ := List.mem_map.1 unread
      exact stageProper.idle output (List.mem_filter.1 isUnread).1 target feeds
    · obtain ⟨other, isUnread, same⟩ := List.mem_map.1 unread
      obtain rfl := stageProper.port_unique_of_marker
        (List.mem_append_right _ (List.mem_filter.1 isUnread).1) (List.mem_append_right _ isOutput)
        same
      exact not_needs_of_mem_unreadOutputs isUnread need
  obtain ⟨results, succeeds, paired⟩ := each
  refine ⟨{ plan with stages := results }, by rw [dropUnread, succeeds]; rfl, ?_, ?_, ?_⟩
  · have same : Plan.stageIds { plan with stages := results } = plan.stageIds :=
      stageIds_of_paired (paired.imp fun _ _ ⟨⟨_, restricts, _⟩, _⟩ => restricts.id)
    rw [same]
  · intro stage isStage
    obtain ⟨old, isOld, trims, -⟩ := exists_partner paired isStage
    exact ⟨old, isOld, trims⟩
  · intro old isOld output isOutput need
    obtain ⟨stage, isStage, ⟨_, restricts, -⟩, keeps⟩ := exists_partner_of_mem paired isOld
    exact ⟨stage, isStage, restricts.id, keeps output isOutput need⟩

end Plan

end StagePlanner
