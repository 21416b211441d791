import Mathlib.Order.Bounds.Basic
import Mathlib.Order.Lattice
import StagePlanner.Proofs.Annotation.Naming

/-!
# Conditions of iteration

`Iteration.merge` makes the conditions under which something runs again a semilattice with `never`
at its bottom. Along an order of the stages every stage finds the conditions of the stages that
feed it in the table (`Plan.Swept`), so what is attached to a stage is the join of what the
operators of the stage and of all stages upstream of it declare (`Notes.Iterates`). A join is
unique, so it does not matter how the stages are listed (`Plan.attachIteration_joins`).
-/

namespace StagePlanner

open Relation

namespace Iteration

instance : Max Iteration := ⟨merge⟩

/-- A condition is below another one that it adds nothing to. -/
instance : SemilatticeSup Iteration := SemilatticeSup.mk' merge_comm merge_assoc merge_self

instance : OrderBot Iteration where
  bot := never
  bot_le := never_merge

theorem merge_le {left right bound : Iteration} :
    left.merge right ≤ bound ↔ left ≤ bound ∧ right ≤ bound :=
  sup_le_iff

theorem foldl_merge_le {conditions : List Iteration} {start bound : Iteration} :
    conditions.foldl merge start ≤ bound ↔
      start ≤ bound ∧ ∀ condition ∈ conditions, condition ≤ bound := by
  induction conditions generalizing start with
  | nil => simp
  | cons condition rest ih => rw [List.foldl_cons, ih, merge_le, List.forall_mem_cons, and_assoc]

/-- Merging a list in whatever order gives the join of its members. -/
theorem mergeAll_le {conditions : List Iteration} {bound : Iteration} :
    mergeAll conditions ≤ bound ↔ ∀ condition ∈ conditions, condition ≤ bound := by
  rw [mergeAll, foldl_merge_le]
  exact and_iff_right bot_le

theorem isLUB_mergeAll (conditions : List Iteration) :
    IsLUB {condition | condition ∈ conditions} (mergeAll conditions) :=
  isLUB_iff_le_iff.2 fun _ => mergeAll_le

end Iteration

namespace Stage

/-- Some operator of the stage declares the condition. -/
def Declares (stage : Stage) (condition : Iteration) : Prop :=
  ∃ operator ∈ stage.graph.operators, operator.traits.iteration = some condition

/-- Some output of the stage has an origin in common with the port. -/
def SuppliesPort (producer : Stage) (input : StagePort) : Prop :=
  ∃ output ∈ producer.outputs, ∃ origin, origin ∈ output.origins ∧ origin ∈ input.origins

theorem supplies_iff {producer consumer : Stage} :
    producer.Supplies consumer ↔ ∃ input ∈ consumer.inputs, producer.SuppliesPort input := by
  constructor
  · rintro ⟨output, isOutput, input, isInput, common⟩
    exact ⟨input, isInput, output, isOutput, common⟩
  · rintro ⟨input, isInput, output, isOutput, common⟩
    exact ⟨output, isOutput, input, isInput, common⟩

theorem ownIteration_le {stage : Stage} {bound : Iteration} :
    stage.ownIteration ≤ bound ↔ ∀ condition, stage.Declares condition → condition ≤ bound := by
  rw [ownIteration, Iteration.mergeAll_le]
  simp only [List.mem_filterMap, Declares]

end Stage

namespace Plan

variable {plan : Plan}

/-- What operators of a stage declare, or of a stage upstream of it. -/
def declaredUpstream (plan : Plan) (stage : Stage) : Set Iteration :=
  {condition | ∃ source, ReflTransGen plan.Links source stage ∧ source.Declares condition}

/-- What operators upstream of a port declare. -/
def declaredBehind (plan : Plan) (port : StagePort) : Set Iteration :=
  {condition | ∃ source ∈ plan.stages, source.SuppliesPort port ∧
    condition ∈ plan.declaredUpstream source}

/-- Upstream of a stage is what it declares itself and what is upstream of its inputs. -/
theorem mem_declaredUpstream {stage : Stage} (isStage : stage ∈ plan.stages)
    {condition : Iteration} :
    condition ∈ plan.declaredUpstream stage ↔
      stage.Declares condition ∨ ∃ port ∈ stage.inputs, condition ∈ plan.declaredBehind port := by
  constructor
  · rintro ⟨source, way, declares⟩
    rcases ReflTransGen.cases_tail_iff .. |>.1 way with rfl | ⟨middle, before, isMiddle, -, supplies⟩
    · exact .inl declares
    · obtain ⟨port, isPort, suppliesPort⟩ := Stage.supplies_iff.1 supplies
      exact .inr ⟨port, isPort, middle, isMiddle, suppliesPort, source, before, declares⟩
  · rintro (declares | ⟨port, isPort, middle, isMiddle, suppliesPort, source, before, declares⟩)
    · exact ⟨stage, .refl, declares⟩
    · exact ⟨source, before.tail ⟨isMiddle, isStage, Stage.supplies_iff.2 ⟨port, isPort, suppliesPort⟩⟩,
        declares⟩

theorem mem_upperBounds_declaredUpstream {stage : Stage} (isStage : stage ∈ plan.stages)
    {bound : Iteration} : bound ∈ upperBounds (plan.declaredUpstream stage) ↔
      (∀ condition, stage.Declares condition → condition ≤ bound) ∧
        ∀ port ∈ stage.inputs, bound ∈ upperBounds (plan.declaredBehind port) := by
  constructor
  · intro above
    exact ⟨fun condition declares => above ((mem_declaredUpstream isStage).2 (.inl declares)),
      fun port isPort condition behind =>
        above ((mem_declaredUpstream isStage).2 (.inr ⟨port, isPort, behind⟩))⟩
  · rintro ⟨own, behind⟩ condition declared
    rcases (mem_declaredUpstream isStage).1 declared with declares | ⟨port, isPort, further⟩
    · exact own condition declares
    · exact behind port isPort further

/-! ### The sweep over the stages -/

/-- The table has the joins of the stages that were visited and of their inputs, and nothing about
others. -/
structure Swept (plan : Plan) (visited : List StageId) (table : IterationTable) : Prop where
  stages : ∀ stage ∈ plan.stages, stage.id ∈ visited → ∃ condition,
    table.stages.lookup stage.id = some condition ∧
      IsLUB (plan.declaredUpstream stage) condition
  inputs : ∀ stage ∈ plan.stages, stage.id ∈ visited → ∀ port ∈ stage.inputs, ∃ condition,
    table.inputs.lookup ⟨stage.id, port.id⟩ = some condition ∧
      IsLUB (plan.declaredBehind port) condition
  freshStages : ∀ id, id ∉ visited → table.stages.lookup id = none
  freshInputs : ∀ address : PortAddress, address.stage ∉ visited → table.inputs.lookup address = none

section Sweep

variable (addressable : plan.Addressable)

include addressable

/-- When the stages that feed an input are known, what is known of them gives the join of what is
behind the input. -/
theorem isLUB_inputIteration {known : List (StageId × Iteration)} {stage : Stage}
    (isStage : stage ∈ plan.stages) {port : StagePort} (isInput : port ∈ stage.inputs)
    (before : ∀ source ∈ plan.stages, source.SuppliesPort port → ∃ condition,
      known.lookup source.id = some condition ∧ IsLUB (plan.declaredUpstream source) condition) :
    IsLUB (plan.declaredBehind port) (plan.inputIteration known ⟨stage.id, port.id⟩) := by
  refine isLUB_iff_le_iff.2 fun bound => ?_
  rw [inputIteration, Iteration.mergeAll_le, addressable.producers_eq isStage isInput]
  simp only [List.mem_filterMap, mem_outputsFrom]
  constructor
  · rintro above condition ⟨source, isSource, supplies, declared⟩
    obtain ⟨join, isKnown, isJoin⟩ := before source isSource supplies
    obtain ⟨output, isOutput, common⟩ := supplies
    have joined := above join ⟨⟨source.id, output.id⟩,
      ⟨source, isSource, output, isOutput, common, rfl⟩, isKnown⟩
    exact (isJoin.1 declared).trans joined
  · rintro above join ⟨address, ⟨source, isSource, output, isOutput, common, rfl⟩, isKnown⟩
    obtain ⟨other, alsoKnown, isJoin⟩ := before source isSource ⟨output, isOutput, common⟩
    obtain rfl : join = other := Option.some.inj (isKnown.symm.trans alsoKnown)
    exact isJoin.2 fun condition declared =>
      above ⟨source, isSource, ⟨output, isOutput, common⟩, declared⟩

omit addressable in
/-- What a stage declares, with the joins of what is behind its inputs, gives the join of what is
upstream of it. -/
theorem isLUB_stageIteration {stage : Stage} (isStage : stage ∈ plan.stages)
    {found : StagePort → Iteration}
    (behind : ∀ port ∈ stage.inputs, IsLUB (plan.declaredBehind port) (found port)) :
    IsLUB (plan.declaredUpstream stage)
      ((stage.inputs.map found).foldl Iteration.merge stage.ownIteration) := by
  refine isLUB_iff_le_iff.2 fun bound => ?_
  rw [Iteration.foldl_merge_le, Stage.ownIteration_le, mem_upperBounds_declaredUpstream isStage,
    List.forall_mem_map]
  exact and_congr_right fun _ =>
    forall₂_congr fun port isPort => isLUB_iff_le_iff.1 (behind port isPort) bound

/-- Visiting a stage after all stages that feed it keeps the table right. -/
theorem Swept.step {visited : List StageId} {table : IterationTable} (swept : plan.Swept visited table)
    {stage : Stage} (isStage : stage ∈ plan.stages) (fresh : stage.id ∉ visited)
    (fed : ∀ source ∈ plan.stages, source.Supplies stage → source.id ∈ visited) :
    ∃ next, plan.iterationStep table stage.id = .ok next ∧
      plan.Swept (visited ++ [stage.id]) next := by
  have isFound : plan.stage stage.id = .ok stage := by
    rw [Plan.stage, (stage?_eq_some_iff addressable.stages).2 ⟨isStage, rfl⟩]
  have behind : ∀ port ∈ stage.inputs, IsLUB (plan.declaredBehind port)
      (plan.inputIteration table.stages ⟨stage.id, port.id⟩) := fun port isInput =>
    isLUB_inputIteration addressable isStage isInput fun source isSource supplies =>
      swept.stages source isSource
        (fed source isSource (Stage.supplies_iff.2 ⟨port, isInput, supplies⟩))
  have entries : ∀ address, (stage.inputs.map fun port => ((⟨stage.id, port.id⟩ : PortAddress),
      plan.inputIteration table.stages ⟨stage.id, port.id⟩)).lookup address =
      if address ∈ stage.inputs.map (fun port => (⟨stage.id, port.id⟩ : PortAddress)) then
        some (plan.inputIteration table.stages address) else none :=
    lookup_computed stage.inputs _ _
  refine ⟨_, by rw [iterationStep, isFound]; rfl, ?_, ?_, ?_, ?_⟩
  · intro other isOther listed
    rw [List.lookup_append]
    rcases List.mem_append.1 listed with old | new
    · obtain ⟨condition, isKnown, isJoin⟩ := swept.stages other isOther old
      exact ⟨condition, by rw [isKnown, Option.some_or], isJoin⟩
    · obtain rfl := stage_unique addressable.stages isOther isStage (List.mem_singleton.1 new)
      rw [swept.freshStages _ fresh, Option.none_or, List.lookup_cons, beq_self_eq_true]
      rw [List.map_map]
      exact ⟨_, rfl, isLUB_stageIteration isStage behind⟩
  · intro other isOther listed port isPort
    rw [List.lookup_append]
    rcases List.mem_append.1 listed with old | new
    · obtain ⟨condition, isKnown, isJoin⟩ := swept.inputs other isOther old port isPort
      exact ⟨condition, by rw [isKnown, Option.some_or], isJoin⟩
    · obtain rfl := stage_unique addressable.stages isOther isStage (List.mem_singleton.1 new)
      rw [swept.freshInputs ⟨other.id, port.id⟩ fresh, Option.none_or, entries,
        if_pos (List.mem_map_of_mem isPort)]
      exact ⟨_, rfl, behind port isPort⟩
  · intro id unvisited
    obtain ⟨before, differs⟩ := not_or.1 (fun either => unvisited (List.mem_append.2 either))
    rw [List.lookup_append, swept.freshStages id before, Option.none_or, List.lookup_cons,
      beq_eq_false_iff_ne.2 (fun same => differs (List.mem_singleton.2 same)), List.lookup_nil]
  · intro address unvisited
    obtain ⟨before, differs⟩ := not_or.1 (fun either => unvisited (List.mem_append.2 either))
    rw [List.lookup_append, swept.freshInputs address before, Option.none_or, entries, if_neg]
    rintro listed
    obtain ⟨port, -, rfl⟩ := List.mem_map.1 listed
    exact differs List.mem_cons_self

/-- The table of a plan without circuits has the joins of all stages and inputs. -/
theorem exists_swept (circuitless : Circuitless plan.dependencies.Depends) :
    ∃ table, plan.iterations = .ok table ∧ plan.Swept plan.stageIds table := by
  obtain ⟨order, isOrder⟩ := exists_order circuitless
  have perm := perm_of_order addressable.stages isOrder
  have ordered := order_eq_ok.1 isOrder
  obtain ⟨table, isTable, swept⟩ := exists_foldlM plan.iterationStep order [] {}
    (fun visited table => plan.Swept visited table)
    ⟨fun _ _ listed => (nomatch listed), fun _ _ listed => (nomatch listed), fun _ _ => rfl,
      fun _ _ => rfl⟩
    fun before id after table split swept => by
      have distinct := perm.nodup_iff.2 addressable.stages
      rw [split] at distinct
      obtain ⟨stage, isStage, rfl⟩ := mem_stageIds.1
        (perm.mem_iff.1 (split ▸ List.mem_append_right _ List.mem_cons_self))
      exact swept.step addressable isStage
        (fun visited => (List.nodup_append.1 distinct).2.2 _ visited _ List.mem_cons_self rfl)
        fun source isSource supplies => DependencyGraph.earlier_of_orderBy ordered split
          (depends_dependencies.2 ⟨source, stage, ⟨isSource, isStage, supplies⟩, rfl, rfl⟩)
  refine ⟨table, by rw [iterations, isOrder]; exact isTable, ?_⟩
  exact ⟨fun stage isStage listed => swept.stages stage isStage (perm.mem_iff.2 listed),
    fun stage isStage listed => swept.inputs stage isStage (perm.mem_iff.2 listed),
    fun id unlisted => swept.freshStages id fun listed => unlisted (perm.mem_iff.1 listed),
    fun address unlisted => swept.freshInputs address fun listed => unlisted (perm.mem_iff.1 listed)⟩

end Sweep

end Plan

/-! ### What is attached -/

namespace Notes

variable {ν : Type}

/-- The notes tell of every stage the join of what is declared in it and upstream of it, of an output
what they tell of its stage, of an input the join of the stages that feed it, and of the plan the
join of all stages. -/
structure Iterates (notes : Notes ν) (plan : Plan) : Prop where
  stages : ∀ stage ∈ plan.stages, ∃ condition,
    (notes.stage stage.id).iteration = some condition ∧
      IsLUB (plan.declaredUpstream stage) condition
  outputs : ∀ stage ∈ plan.stages, ∀ port ∈ stage.outputs,
    (notes.port port.id).iteration = (notes.stage stage.id).iteration
  inputs : ∀ stage ∈ plan.stages, ∀ port ∈ stage.inputs, ∃ condition,
    (notes.port port.id).iteration = some condition ∧
      IsLUB {feeding | ∃ source ∈ plan.stages, source.SuppliesPort port ∧
        (notes.stage source.id).iteration = some feeding} condition
  whole : ∃ condition, notes.plan.iteration = some condition ∧
    IsLUB {member | ∃ stage ∈ plan.stages, (notes.stage stage.id).iteration = some member} condition

/-- The notes tell the same conditions of the plan, its stages and its ports. -/
structure SameIterations (notes result : Notes ν) (plan : Plan) : Prop where
  stages : ∀ stage ∈ plan.stages, (result.stage stage.id).iteration = (notes.stage stage.id).iteration
  ports : ∀ stage ∈ plan.stages, ∀ port ∈ stage.ports,
    (result.port port.id).iteration = (notes.port port.id).iteration
  whole : result.plan.iteration = notes.plan.iteration

namespace Iterates

variable {notes result : Notes ν} {plan other : Plan}

/-- How the stages are listed does not matter. -/
theorem of_perm (iterates : notes.Iterates other) (same : other.stages.Perm plan.stages) :
    notes.Iterates plan := by
  have upstream : other.declaredUpstream = plan.declaredUpstream := by
    have links : other.Links = plan.Links := by
      funext producer consumer
      rw [Plan.Links, Plan.Links, same.mem_iff, same.mem_iff]
    funext stage
    rw [Plan.declaredUpstream, Plan.declaredUpstream, links]
  obtain ⟨stages, outputs, inputs, whole⟩ := iterates
  simp only [same.mem_iff, upstream] at stages outputs inputs whole
  exact ⟨stages, outputs, inputs, whole⟩

/-- There is only one way to tell the conditions. -/
theorem unique (ours : notes.Iterates plan) (theirs : result.Iterates plan) :
    notes.SameIterations result plan := by
  have join_unique : ∀ {left right : Option Iteration} {members : Set Iteration},
      (∃ condition, left = some condition ∧ IsLUB members condition) →
      (∃ condition, right = some condition ∧ IsLUB members condition) → left = right := by
    rintro _ _ members ⟨first, rfl, isFirst⟩ ⟨second, rfl, isSecond⟩
    exact congrArg some (isFirst.unique isSecond)
  have stages : ∀ stage ∈ plan.stages,
      (result.stage stage.id).iteration = (notes.stage stage.id).iteration :=
    fun stage isStage => join_unique (theirs.stages stage isStage) (ours.stages stage isStage)
  refine ⟨stages, fun stage isStage port isPort => ?_, ?_⟩
  · rcases List.mem_append.1 isPort with isInput | isOutput
    · refine join_unique (theirs.inputs stage isStage port isInput) ?_
      have feeding : {feeding | ∃ source ∈ plan.stages, source.SuppliesPort port ∧
          (result.stage source.id).iteration = some feeding} =
          {feeding | ∃ source ∈ plan.stages, source.SuppliesPort port ∧
            (notes.stage source.id).iteration = some feeding} :=
        Set.ext fun feeding => exists_congr fun source => and_congr_right fun isSource => by
          rw [stages source isSource]
      rw [feeding]
      exact ours.inputs stage isStage port isInput
    · rw [theirs.outputs stage isStage port isOutput, ours.outputs stage isStage port isOutput,
        stages stage isStage]
  · refine join_unique theirs.whole ?_
    have members : {member | ∃ stage ∈ plan.stages, (result.stage stage.id).iteration = some member} =
        {member | ∃ stage ∈ plan.stages, (notes.stage stage.id).iteration = some member} :=
      Set.ext fun member => exists_congr fun stage => and_congr_right fun isStage => by
        rw [stages stage isStage]
    rw [members]
    exact ours.whole

end Iterates

end Notes

namespace Plan

open Notes

variable {ν : Type} {plan : Plan}

/-- The join of what is behind a port is the join of the stages that feed it. -/
theorem isLUB_feeding {notes : Notes ν} {port : StagePort} {condition : Iteration}
    (stages : ∀ stage ∈ plan.stages, ∃ condition, (notes.stage stage.id).iteration = some condition ∧
      IsLUB (plan.declaredUpstream stage) condition)
    (isJoin : IsLUB (plan.declaredBehind port) condition) :
    IsLUB {feeding | ∃ source ∈ plan.stages, source.SuppliesPort port ∧
      (notes.stage source.id).iteration = some feeding} condition := by
  refine isLUB_iff_le_iff.2 fun bound => (isLUB_iff_le_iff.1 isJoin bound).trans ⟨?_, ?_⟩
  · rintro above feeding ⟨source, isSource, supplies, noted⟩
    obtain ⟨other, alsoNoted, isOther⟩ := stages source isSource
    obtain rfl : feeding = other := Option.some.inj (noted.symm.trans alsoNoted)
    exact isOther.2 fun declared isDeclared => above ⟨source, isSource, supplies, isDeclared⟩
  · rintro above declared ⟨source, isSource, supplies, isDeclared⟩
    obtain ⟨feeding, noted, isOther⟩ := stages source isSource
    exact (isOther.1 isDeclared).trans (above ⟨source, isSource, supplies, noted⟩)

theorem mem_portEntries {side : Stage → List StagePort} {value : Stage → StagePort → Iteration}
    {id : StagePortId} {condition : Iteration} :
    (id, condition) ∈ plan.stages.flatMap (fun stage =>
        (side stage).map fun port => (port.id, value stage port)) ↔
      ∃ stage ∈ plan.stages, ∃ port ∈ side stage, port.id = id ∧ value stage port = condition := by
  simp only [List.mem_flatMap, List.mem_map, Prod.mk.injEq]

/-- What a table has is attached to the stages and ports of the plan. -/
theorem exists_attached (addressable : plan.Addressable) {table : IterationTable}
    (isTable : plan.iterations = .ok table) (notes : Notes ν) :
    ∃ result, plan.attachIteration.apply notes = (.ok (), result) ∧
      (∀ stage ∈ plan.stages,
        (result.stage stage.id).iteration = some (table.ofStage stage.id)) ∧
      (∀ stage ∈ plan.stages, ∀ port ∈ stage.outputs,
        (result.port port.id).iteration = some (table.ofStage stage.id)) ∧
      (∀ stage ∈ plan.stages, ∀ port ∈ stage.inputs,
        (result.port port.id).iteration = some (table.ofInput ⟨stage.id, port.id⟩)) ∧
      result.plan.iteration =
        some (Iteration.mergeAll (plan.stages.map fun stage => table.ofStage stage.id)) := by
  refine ⟨_, by rw [attachIteration, isTable]; rfl, fun stage isStage => ?_,
    fun stage isStage port isPort => ?_, fun stage isStage port isPort => ?_,
    congrArg (fun conditions => some (Iteration.mergeAll conditions)) (List.map_map ..)⟩
  · refine attachStages_attaches StageNotes.iteration (by exact fun _ _ => rfl)
      (fun other member => ?_) (.inl (List.mem_map_of_mem isStage))
    obtain ⟨another, isAnother, same⟩ := List.mem_map.1 member
    obtain ⟨sameId, rfl⟩ := Prod.mk.inj same
    rw [sameId]
  · refine Eq.trans (congrArg PortNotes.iteration port_attachStages)
      (attachPorts_attaches PortNotes.iteration (by exact fun _ _ => rfl) (fun other member => ?_)
        (.inl (List.mem_append_right _ (mem_portEntries.2 ⟨stage, isStage, port, isPort, rfl, rfl⟩))))
    rcases List.mem_append.1 member with isInput | isOutput
    · obtain ⟨another, isAnother, twin, isTwin, sameId, -⟩ := mem_portEntries.1 isInput
      exact absurd sameId (addressable.input_ne_output isAnother isStage isTwin isPort)
    · obtain ⟨another, isAnother, twin, isTwin, sameId, rfl⟩ := mem_portEntries.1 isOutput
      rw [(addressable.port_unique isAnother isStage (List.mem_append_right _ isTwin)
        (List.mem_append_right _ isPort) sameId).1]
  · refine Eq.trans (congrArg PortNotes.iteration port_attachStages)
      (attachPorts_attaches PortNotes.iteration (by exact fun _ _ => rfl) (fun other member => ?_)
        (.inl (List.mem_append_left _ (mem_portEntries.2 ⟨stage, isStage, port, isPort, rfl, rfl⟩))))
    rcases List.mem_append.1 member with isInput | isOutput
    · obtain ⟨another, isAnother, twin, isTwin, sameId, rfl⟩ := mem_portEntries.1 isInput
      obtain ⟨rfl, rfl⟩ := addressable.port_unique isAnother isStage (List.mem_append_left _ isTwin)
        (List.mem_append_left _ isPort) sameId
      rfl
    · obtain ⟨another, isAnother, twin, isTwin, sameId, -⟩ := mem_portEntries.1 isOutput
      exact absurd sameId.symm (addressable.input_ne_output isStage isAnother isPort isTwin)

/-- Attaching conditions to a plan without circuits succeeds and tells the joins. -/
theorem iterates_attachIteration (addressable : plan.Addressable)
    (circuitless : Circuitless plan.dependencies.Depends) (notes : Notes ν) :
    ∃ result, plan.attachIteration.apply notes = (.ok (), result) ∧ result.Iterates plan := by
  obtain ⟨table, isTable, swept⟩ := exists_swept addressable circuitless
  have listed : ∀ stage ∈ plan.stages, stage.id ∈ plan.stageIds :=
    fun stage isStage => mem_stageIds.2 ⟨stage, isStage, rfl⟩
  obtain ⟨result, applies, stages, outputs, inputs, whole⟩ := exists_attached addressable isTable notes
  have joins : ∀ stage ∈ plan.stages, ∃ condition,
      (result.stage stage.id).iteration = some condition ∧
        IsLUB (plan.declaredUpstream stage) condition := by
    intro stage isStage
    obtain ⟨condition, isKnown, isJoin⟩ := swept.stages stage isStage (listed stage isStage)
    refine ⟨condition, ?_, isJoin⟩
    rw [stages stage isStage, IterationTable.ofStage, isKnown, Option.getD_some]
  refine ⟨result, applies, joins, fun stage isStage port isPort => ?_,
    fun stage isStage port isPort => ?_, ⟨_, whole, ?_⟩⟩
  · rw [outputs stage isStage port isPort, stages stage isStage]
  · obtain ⟨condition, isKnown, isJoin⟩ := swept.inputs stage isStage (listed stage isStage) port isPort
    refine ⟨condition, ?_, isLUB_feeding joins isJoin⟩
    rw [inputs stage isStage port isPort, IterationTable.ofInput, isKnown, Option.getD_some]
  · have members : {member | ∃ stage ∈ plan.stages, (result.stage stage.id).iteration = some member} =
        {member | member ∈ plan.stages.map fun stage => table.ofStage stage.id} := by
      ext member
      simp only [Set.mem_ofPred_eq, List.mem_map]
      refine exists_congr fun stage => and_congr_right fun isStage => ?_
      rw [stages stage isStage, Option.some.injEq]
    rw [members]
    exact Iteration.isLUB_mergeAll _

/-- Merging is associative, commutative and idempotent with `never` as its unit and `always` as its
zero, so lists are merged to joins. Attaching conditions to a plan without circuits succeeds, tells
the join over everything upstream, and does not depend on how the stages are listed. -/
theorem attachIteration_joins {ν : Type} :
    ((∀ first second third : Iteration,
        (first.merge second).merge third = first.merge (second.merge third)) ∧
      (∀ left right : Iteration, left.merge right = right.merge left) ∧
      (∀ condition : Iteration, condition.merge condition = condition) ∧
      (∀ condition, Iteration.never.merge condition = condition) ∧
      (∀ condition, Iteration.always.merge condition = .always) ∧
      (∀ left right : Iteration, left ≤ right ↔ left.merge right = right) ∧
      ∀ conditions, IsLUB {condition | condition ∈ conditions} (Iteration.mergeAll conditions)) ∧
    ∀ plan : Plan, plan.Addressable → Circuitless plan.dependencies.Depends → ∀ notes : Notes ν,
      ∃ result, plan.attachIteration.apply notes = (.ok (), result) ∧ result.Iterates plan ∧
        ∀ other : Plan, other.stages.Perm plan.stages → ∃ again,
          other.attachIteration.apply notes = (.ok (), again) ∧ result.SameIterations again plan := by
  refine ⟨⟨Iteration.merge_assoc, Iteration.merge_comm, Iteration.merge_self, Iteration.never_merge,
    Iteration.always_merge, fun _ _ => Iff.rfl, Iteration.isLUB_mergeAll⟩, ?_⟩
  intro plan addressable circuitless notes
  obtain ⟨result, applies, iterates⟩ := iterates_attachIteration addressable circuitless notes
  refine ⟨result, applies, iterates, fun other same => ?_⟩
  have alsoAddressable : other.Addressable :=
    ⟨(same.map Stage.id).nodup_iff.2 addressable.stages,
      (same.flatMap_right _).nodup_iff.2 addressable.ports⟩
  have alsoCircuitless : Circuitless other.dependencies.Depends :=
    circuitless.mono fun _ _ => (depends_of_perm same).1
  obtain ⟨again, appliesAgain, iteratesAgain⟩ :=
    iterates_attachIteration alsoAddressable alsoCircuitless notes
  exact ⟨again, appliesAgain, iterates.unique (iteratesAgain.of_perm same)⟩

/-- Two stages feed a third one, which feeds a last one; listed from the end. -/
def iterativeSample : Plan :=
  let graph (iteration : Iteration) : Graph :=
    (Graph.empty.add ((Blueprint.user "step" .extract).withIteration iteration)).2
  let input (id origin : Nat) : StagePort := { id := ⟨id⟩, marker := ⟨0⟩, origins := .singleton ⟨origin⟩ }
  { stages := [
      { id := ⟨3⟩, graph := graph .always, inputs := [input 5 22], outputs := [], provenance := [] },
      { id := ⟨2⟩, graph := graph (.onChangeOf []), inputs := [input 2 20, input 3 21],
        outputs := [input 4 22], provenance := [] },
      { id := ⟨1⟩, graph := graph (.onChangeOf ["region"]), inputs := [], outputs := [input 1 21],
        provenance := [] },
      { id := ⟨0⟩, graph := graph (.onChangeOf ["date"]), inputs := [], outputs := [input 0 20],
        provenance := [] }]
    nextStage := ⟨4⟩
    nextPort := ⟨6⟩ }

/-- The third stage runs again on both parameters, the last one always. -/
theorem attachIteration_joins_iterativeSample : iterativeSample.Addressable ∧
    Circuitless iterativeSample.dependencies.Depends ∧
    ∃ result : Notes Nat, iterativeSample.attachIteration.apply {} = (.ok (), result) ∧
      result.Iterates iterativeSample ∧
      (result.stage ⟨2⟩).iteration = some (.onChangeOf ["date", "region"]) ∧
      (result.stage ⟨3⟩).iteration = some .always := by
  have addressable : iterativeSample.Addressable := ⟨by decide, by decide⟩
  have circuitless : Circuitless iterativeSample.dependencies.Depends :=
    (DependencyGraph.circuits_eq_nil_iff dependencies_wellFormed).1 (by decide +kernel)
  obtain ⟨result, applies, iterates, -⟩ :=
    (attachIteration_joins (ν := Nat)).2 iterativeSample addressable circuitless {}
  have third : ((iterativeSample.attachIteration.apply ({} : Notes Nat)).2.stage ⟨2⟩).iteration =
      some (.onChangeOf ["date", "region"]) := by decide +kernel
  have last : ((iterativeSample.attachIteration.apply ({} : Notes Nat)).2.stage ⟨3⟩).iteration =
      some .always := by decide +kernel
  rw [applies] at third last
  exact ⟨addressable, circuitless, result, applies, iterates, third, last⟩

end Plan

end StagePlanner
