import StagePlanner.Preparation
import StagePlanner.Proofs.Dependency.Circuit
import StagePlanner.Proofs.Fallible
import StagePlanner.Proofs.Graph.Renaming
import StagePlanner.Proofs.Marking.Passage

/-!
# Inserting markers keeps the flow of data

`Graph.SameFlow` says that a graph became another one by adding markers and removing core
checkpoints while the number of paths between all other ports stayed the same. Every edit that
inserts markers is a sequence of splices for which this holds.
-/

namespace StagePlanner

namespace Graph

/-- One graph is the other one with further markers and without some core checkpoints, and data take
as many paths between the ports of all other operators. -/
structure SameFlow (graph result : Graph) : Prop where
  wellFormed : result.WellFormed
  acyclic : result.Acyclic
  kept : ∀ operator ∈ graph.operators, operator.isCore .checkpoint = false →
    operator ∈ result.operators
  new : ∀ operator ∈ result.operators, operator ∈ graph.operators ∨
    operator.isMarker = true ∧ graph.nextOperator.index ≤ operator.id.index
  next : graph.nextOperator.index ≤ result.nextOperator.index
  paths : ∀ producer ∈ graph.operators, ¬ producer.Passes → ∀ consumer ∈ graph.operators,
    ¬ consumer.Passes → ∀ source ∈ producer.outputs.map Port.id,
      ∀ target ∈ consumer.inputs.map Port.id,
        Nat.card (result.Path source target) = Nat.card (graph.Path source target)

variable {graph middle result : Graph}

theorem SameFlow.refl (wellFormed : graph.WellFormed) (acyclic : graph.Acyclic) :
    graph.SameFlow graph :=
  ⟨wellFormed, acyclic, fun _ member _ => member, fun _ member => .inl member, Nat.le_refl _,
    fun _ _ _ _ _ _ _ _ _ _ => rfl⟩

/-- Operators that do not pass data on stay. -/
theorem SameFlow.mem_of_not_passes (sameFlow : graph.SameFlow result) {operator : Operator}
    (member : operator ∈ graph.operators) (blocks : ¬ operator.Passes) :
    operator ∈ result.operators := by
  refine sameFlow.kept operator member ?_
  rw [Bool.eq_false_iff]
  exact fun isCheckpoint => blocks (.inr isCheckpoint)

theorem SameFlow.trans (first : graph.SameFlow middle) (second : middle.SameFlow result) :
    graph.SameFlow result where
  wellFormed := second.wellFormed
  acyclic := second.acyclic
  kept operator member other := second.kept operator (first.kept operator member other) other
  new operator member := by
    rcases second.new operator member with old | ⟨isMarker, above⟩
    · exact first.new operator old
    · exact .inr ⟨isMarker, Nat.le_trans first.next above⟩
  next := Nat.le_trans first.next second.next
  paths producer isProducer blocks consumer isConsumer stops source owned target owns := by
    rw [second.paths producer (first.mem_of_not_passes isProducer blocks) blocks consumer
      (first.mem_of_not_passes isConsumer stops) stops source owned target owns]
    exact first.paths producer isProducer blocks consumer isConsumer stops source owned target owns

/-- An operator that was below the next identifier is no new one. -/
theorem SameFlow.mem_of_below (sameFlow : graph.SameFlow result) (wellFormed : graph.WellFormed)
    {operator old : Operator} (member : operator ∈ result.operators)
    (isOld : old ∈ graph.operators) (same : operator.id = old.id) : operator = old := by
  rcases sameFlow.new operator member with there | ⟨-, above⟩
  · exact wellFormed.operator_unique there isOld same
  · have below := wellFormed.operatorsBelow old isOld
    rw [same] at above
    omega

/-- A marker that is put between ports keeps the flow. -/
theorem Interposed.sameFlow {operator : Operator} {entry exit : PortId}
    {sources targets : PortId → Prop}
    (interposed : graph.Interposed result operator entry exit sources targets)
    (wellFormed : graph.WellFormed) (acyclic : graph.Acyclic) (resultWellFormed : result.WellFormed)
    (isMarker : operator.isMarker = true)
    (isNew : graph.nextOperator.index ≤ operator.id.index)
    (next : graph.nextOperator.index ≤ result.nextOperator.index) : graph.SameFlow result where
  wellFormed := resultWellFormed
  acyclic := (interposed.acyclic_iff wellFormed resultWellFormed).2 acyclic
  kept other member _ := (interposed.operators other).2 (.inl member)
  new other member := by
    rcases (interposed.operators other).1 member with old | rfl
    · exact .inl old
    · exact .inr ⟨isMarker, isNew⟩
  next := next
  paths producer isProducer _ consumer isConsumer _ source owned target owns := by
    have stillAcyclic := (interposed.acyclic_iff wellFormed resultWellFormed).2 acyclic
    exact (interposed.card_path wellFormed resultWellFormed (.inl isMarker) stillAcyclic
      (interposed.ne_ports resultWellFormed isProducer
        (Operator.mem_ports_of_mem_portsOn .output owned))
      (interposed.ne_ports resultWellFormed isConsumer
        (Operator.mem_ports_of_mem_portsOn .input owns))).symm

/-- So does taking away a core checkpoint from between ports. -/
theorem Interposed.sameFlow_of_checkpoint {operator : Operator} {entry exit : PortId}
    {sources targets : PortId → Prop}
    (interposed : result.Interposed graph operator entry exit sources targets)
    (wellFormed : graph.WellFormed) (acyclic : graph.Acyclic) (resultWellFormed : result.WellFormed)
    (isCheckpoint : operator.isCore .checkpoint = true)
    (next : graph.nextOperator.index ≤ result.nextOperator.index) : graph.SameFlow result where
  wellFormed := resultWellFormed
  acyclic := (interposed.acyclic_iff resultWellFormed wellFormed).1 acyclic
  kept other member isOther := by
    refine ((interposed.operators other).1 member).resolve_right fun same => ?_
    rw [same, isCheckpoint] at isOther
    cases isOther
  new other member := .inl ((interposed.operators other).2 (.inl member))
  next := next
  paths producer isProducer blocks consumer isConsumer stops source owned target owns := by
    have passes : operator.Passes := .inr isCheckpoint
    have stillProducer := ((interposed.operators producer).1 isProducer).resolve_right fun same =>
      blocks (same ▸ passes)
    have stillConsumer := ((interposed.operators consumer).1 isConsumer).resolve_right fun same =>
      stops (same ▸ passes)
    exact interposed.card_path resultWellFormed wellFormed passes acyclic
      (interposed.ne_ports wellFormed stillProducer
        (Operator.mem_ports_of_mem_portsOn .output owned))
      (interposed.ne_ports wellFormed stillConsumer (Operator.mem_ports_of_mem_portsOn .input owns))

instance : IsPreorder Graph fun graph result =>
    graph.WellFormed → graph.Acyclic → graph.SameFlow result where
  refl _ := .refl
  trans _ _ _ first second wellFormed acyclic := by
    have sameFlow := first wellFormed acyclic
    exact sameFlow.trans (second sameFlow.wellFormed sameFlow.acyclic)

end Graph

namespace Blueprint

/-- A marker that is put on edges: a checkpoint, or a shuffle or a broadcast with the data that cross
it. -/
inductive IsBoundary : Blueprint → Prop
  | checkpoint (dataType : DataType) : IsBoundary (.marker .checkpoint dataType)
  | exchange {marker : Marker} (exchanges : marker = .gather ∨ marker = .broadcast)
      (crossing : Crossing) :
      IsBoundary ((Blueprint.marker marker crossing.dataType).withCrossing crossing)

variable {blueprint : Blueprint} (boundary : blueprint.IsBoundary)

include boundary

theorem IsBoundary.isMarker : blueprint.kind.marker?.isSome = true := by
  cases boundary <;> rfl

theorem IsBoundary.serial : blueprint.serial = none := by
  cases boundary <;> rfl

/-- It is a marker with one input and one output, but no terminator. -/
theorem IsBoundary.exists_marker : ∃ marker, blueprint.kind = .marker marker ∧ marker ≠ .begin ∧
    marker ≠ .finish ∧ blueprint.isPassThrough = true := by
  cases boundary with
  | checkpoint dataType => exact ⟨.checkpoint, rfl, by decide, by decide, rfl⟩
  | @exchange marker exchanges crossing =>
    refine ⟨marker, rfl, ?_, ?_, rfl⟩ <;> rcases exchanges with rfl | rfl <;> decide

end Blueprint

namespace Edit

/-- Whatever the edit leaves behind a graph without circuits has the same flow. -/
abbrev KeepsFlow {α : Type} (edit : Edit α) : Prop :=
  edit.Ensures fun graph result => graph.WellFormed → graph.Acyclic → graph.SameFlow result

/-! ### Splices -/

theorem keepsFlow_insertBefore (input : PortId) {blueprint : Blueprint}
    (isMarker : blueprint.kind.marker?.isSome = true) :
    KeepsFlow (insertBefore input blueprint) := by
  intro graph id result yields wellFormed acyclic
  have resultWellFormed := (keeps_insertBefore input blueprint).wellFormed wellFormed yields
  obtain ⟨same, -, -, interposed⟩ := yields_insertBefore wellFormed yields
  refine interposed.sameFlow wellFormed acyclic resultWellFormed isMarker (Nat.le_refl _) ?_
  rw [same.nextOperator]
  exact Nat.le_succ _

theorem keepsFlow_insertAfter (output : PortId) {blueprint : Blueprint}
    (isMarker : blueprint.kind.marker?.isSome = true) :
    KeepsFlow (insertAfter output blueprint) := by
  intro graph id result yields wellFormed acyclic
  have resultWellFormed := (keeps_insertAfter output blueprint).wellFormed wellFormed yields
  obtain ⟨same, -, -, interposed⟩ := yields_insertAfter wellFormed yields
  refine interposed.sameFlow wellFormed acyclic resultWellFormed isMarker (Nat.le_refl _) ?_
  rw [same.nextOperator]
  exact Nat.le_succ _

theorem ensures_port {relates : Graph → Graph → Prop} [IsPreorder Graph relates] (id : PortId) :
    (port id).Ensures relates :=
  (Ensures.look _).bind fun _ => Ensures.pure _

section Splices

variable {relates : Graph → Graph → Prop} [IsPreorder Graph relates]

section Bounds

variable
  (before : ∀ input blueprint, blueprint.IsBoundary → Ensures relates (insertBefore input blueprint))

include before

theorem ensures_bound {marker : Marker} (exchanges : marker = .gather ∨ marker = .broadcast)
    (input : PortId) (aggregation : Option SerialNumber) :
    Ensures relates (bound marker input aggregation) := by
  refine (ensures_port input).bind fun port => Ensures.get.bind fun graph => ?_
  exact Ensures.unless ((before input _ (.exchange exchanges _)).bind fun _ => Ensures.pure _)

theorem ensures_boundInputs (operatorClass : OperatorClass) :
    Ensures relates (boundInputs operatorClass) := by
  have secondary : Ensures relates
      (operatorClass.secondary.forM fun input => bound .broadcast input none) :=
    Ensures.forM fun input _ => ensures_bound before (.inr rfl) input _
  refine (Ensures.look _).bind fun operator => ?_
  split
  · exact (Ensures.forM fun input _ => ensures_bound before (.inl rfl) input _).bind fun _ => secondary
  · exact secondary

end Bounds

section Checkpoints

variable (before : ∀ input dataType,
  Ensures relates (insertBefore input (.marker .checkpoint dataType)))

include before

theorem ensures_checkpointInput (input : PortId) : Ensures relates (checkpointInput input) :=
  (ensures_port input).bind fun _ => (before input _).bind fun _ => Ensures.pure _

theorem ensures_checkpointBefore (input : PortId) : Ensures relates (checkpointBefore input) :=
  Ensures.get.bind fun _ => Ensures.unless (ensures_checkpointInput before input)

theorem ensures_checkpointExternalOutputs : Ensures relates checkpointExternalOutputs :=
  Ensures.get.bind fun _ => Ensures.forM fun _ _ => Ensures.forM fun input _ =>
    ensures_checkpointBefore before input.id

theorem ensures_breakBroadcast (broadcast : Operator) :
    Ensures relates (breakBroadcast broadcast) := by
  have checkpoints : ∀ inputs : List PortId, Ensures relates (inputs.forM checkpointInput) :=
    fun _ => Ensures.forM fun input _ => ensures_checkpointInput before input
  refine Ensures.get.bind fun graph => ?_
  dsimp only
  split
  · exact (Ensures.fail _).bind fun _ => checkpoints _
  · exact checkpoints _

theorem ensures_breakBroadcasts (done remaining : Nat) :
    Ensures relates (breakBroadcasts done remaining) := by
  induction remaining generalizing done with
  | zero => exact Ensures.get.bind fun _ => Ensures.pure _
  | succ remaining ih =>
    refine Ensures.get.bind fun graph => ?_
    split
    · exact Ensures.pure _
    · next broadcast _ =>
      exact (ensures_breakBroadcast before broadcast).bind fun _ => ih (done + 1)

omit before

theorem ensures_checkpointAfter
    (after : ∀ output dataType, Ensures relates (insertAfter output (.marker .checkpoint dataType)))
    (output : PortId) : Ensures relates (checkpointAfter output) :=
  Ensures.get.bind fun _ => Ensures.unless ((ensures_port output).bind fun _ =>
    (after output _).bind fun _ => Ensures.pure _)

theorem ensures_checkpointExternalInputs
    (after : ∀ output dataType, Ensures relates (insertAfter output (.marker .checkpoint dataType))) :
    Ensures relates checkpointExternalInputs :=
  Ensures.get.bind fun _ => Ensures.forM fun _ _ => Ensures.forM fun output _ =>
    ensures_checkpointAfter after output.id

end Checkpoints

end Splices

/-! ### Core checkpoints -/

/-- Where one output feeds an operator and nothing else, the edges lead through the operator that its
bypass leads around it. -/
theorem mem_edges_of_bypassed {graph result : Graph} (wellFormed : graph.WellFormed)
    {operator : Operator} {entry exit feeder : PortId} (threads : graph.Threads operator entry exit)
    (fed : ∀ source, ⟨source, entry⟩ ∈ graph.edges ↔ source = feeder)
    (sole : ∀ target, ⟨feeder, target⟩ ∈ graph.edges → target = entry)
    (edges : ∀ source target, ⟨source, target⟩ ∈ result.edges ↔
      ⟨source, target⟩ ∈ (graph.without operator).edges ∨
        ⟨source, entry⟩ ∈ graph.edges ∧ ⟨exit, target⟩ ∈ graph.edges) (source target : PortId) :
    ⟨source, target⟩ ∈ graph.edges ↔
      ⟨source, target⟩ ∈ result.edges ∧ ¬ (source = feeder ∧ ⟨exit, target⟩ ∈ graph.edges) ∨
        source = feeder ∧ target = entry ∨ source = exit ∧ ⟨exit, target⟩ ∈ graph.edges := by
  constructor
  · intro isEdge
    by_cases intoOperator : target = entry
    · exact .inr (.inl ⟨(fed source).1 (intoOperator ▸ isEdge), intoOperator⟩)
    by_cases outOfOperator : source = exit
    · exact .inr (.inr ⟨outOfOperator, outOfOperator ▸ isEdge⟩)
    obtain ⟨notEntry, notExit⟩ := threads.apart_of_edge wellFormed isEdge
    refine .inl ⟨(edges source target).2 (.inl (Graph.mem_edges_without.2 ⟨isEdge, ?_, ?_⟩)), ?_⟩
    · rw [threads.ports, List.mem_pair, not_or]
      exact ⟨notEntry, outOfOperator⟩
    · rw [threads.ports, List.mem_pair, not_or]
      exact ⟨intoOperator, notExit⟩
    · rintro ⟨rfl, -⟩
      exact intoOperator (sole target isEdge)
  · rintro (⟨isEdge, apart⟩ | ⟨rfl, rfl⟩ | ⟨rfl, feeds⟩)
    · rcases (edges source target).1 isEdge with old | ⟨into, out⟩
      · exact (Graph.mem_edges_without.1 old).1
      · exact absurd ⟨(fed source).1 into, out⟩ apart
    · exact (fed _).2 rfl
    · exact feeds

/-- Bypassing an operator undoes putting it between an output that feeds nothing else and whatever it
feeds itself. -/
theorem interposed_of_bypass {graph result : Graph} (wellFormed : graph.WellFormed)
    (acyclic : graph.Acyclic) {id : OperatorId} {done : Unit}
    (yields : (bypass id).Yields graph done result) {input feeder : PortId}
    (isInput : graph.PortAt .input ⟨id, 0⟩ input)
    (fed : ∀ source, ⟨source, input⟩ ∈ graph.edges ↔ source = feeder)
    (sole : ∀ target, ⟨feeder, target⟩ ∈ graph.edges → target = input) :
    ∃ operator ∈ graph.operators, operator.id = id ∧ ∃ output,
      (graph.without operator).SameButEdges result ∧
      result.Interposed graph operator input output (fun source => source = feeder)
        fun target => ⟨output, target⟩ ∈ graph.edges := by
  obtain ⟨operator, entry, exit, rfl, threads, left, edges⟩ := yields_bypass wellFormed yields
  have member := threads.member
  obtain ⟨other, isOther, sameId, position⟩ := isInput
  obtain rfl := wellFormed.operator_unique isOther member sameId
  rw [Operator.portsOn, threads.inputs] at position
  obtain rfl := Option.some.inj position
  have loopless := threads.loopless acyclic
  refine ⟨other, member, rfl, exit, left, ?_, ?_, threads.inputs, threads.outputs, ?_, ?_, ?_,
    mem_edges_of_bypassed wellFormed threads fed sole edges⟩
  · intro found
    rw [left.mem_operators_iff]
    constructor
    · intro isThere
      by_cases same : found.id = other.id
      · exact .inr (wellFormed.operator_unique isThere member same)
      · exact .inl ⟨isThere, same⟩
    · rintro (⟨isThere, -⟩ | rfl)
      · exact isThere
      · exact member
  · intro listed
    obtain ⟨found, isThere, same⟩ := Graph.mem_operatorIds.1 listed
    exact (left.mem_operators_iff.1 isThere).2 same
  · rintro source target rfl feeds
    exact (edges source target).2 (.inr ⟨(fed source).2 rfl, feeds⟩)
  · rintro source rfl
    obtain ⟨producer, isProducer, differs, gives⟩ :=
      threads.exists_producer wellFormed loopless ((fed source).2 rfl)
    exact ⟨producer, left.mem_operators_iff.2 ⟨isProducer, differs⟩, gives⟩
  · intro target feeds
    obtain ⟨consumer, isConsumer, differs, takes⟩ := threads.exists_consumer wellFormed loopless feeds
    exact ⟨consumer, left.mem_operators_iff.2 ⟨isConsumer, differs⟩, takes⟩

/-- Marking a checkpoint is putting a marker before its input and then bypassing it. -/
theorem exists_of_markCheckpoint {graph result : Graph} {id : OperatorId} {done : Unit}
    (yields : (markCheckpoint id).Yields graph done result) :
    ∃ input type new middle, graph.PortAt .input ⟨id, 0⟩ input ∧
      (insertBefore input (.marker .checkpoint type)).Yields graph new middle ∧
      (bypass id).Yields middle done result := by
  simp only [markCheckpoint, checkpointInput, port, yields_bind, yields_look, yields_pure] at yields
  obtain ⟨input, _, ⟨isInput, rfl⟩, _, _, ⟨_, _, ⟨_, _, ⟨-, rfl⟩, -, rfl⟩, new, middle, inserted, -, rfl⟩,
    bypassed⟩ := yields
  exact ⟨input, _, new, middle, Graph.portAt_of_inputAt isInput, inserted, bypassed⟩

/-- A core checkpoint gives way to a marker. -/
theorem yields_markCheckpoint {graph result : Graph} (wellFormed : graph.WellFormed)
    (acyclic : graph.Acyclic) {id : OperatorId}
    (isCheckpoint : ∀ operator ∈ graph.operators, operator.id = id →
      operator.isCore .checkpoint = true) {done : Unit}
    (yields : (markCheckpoint id).Yields graph done result) :
    graph.SameFlow result ∧ ∀ operator ∈ result.operators, operator.id ≠ id := by
  obtain ⟨input, type, new, middle, ⟨owner, isOwner, sameId, position⟩, inserted, bypassed⟩ :=
    exists_of_markCheckpoint yields
  have middleWellFormed := (keeps_insertBefore input _).wellFormed wellFormed inserted
  have resultWellFormed := (keeps_bypass id).wellFormed middleWellFormed bypassed
  have first := keepsFlow_insertBefore input rfl graph new _ inserted wellFormed acyclic
  obtain ⟨-, -, -, interposed⟩ := yields_insertBefore wellFormed inserted
  have owned := interposed.ne_ports middleWellFormed isOwner
    (Operator.mem_ports_of_mem_portsOn .input (List.mem_of_getElem? position))
  have stays := (interposed.operators owner).2 (.inl isOwner)
  have fed : ∀ source, ⟨source, input⟩ ∈ middle.edges ↔ source = ⟨graph.nextPort.index + 1⟩ := by
    intro source
    rw [interposed.edges]
    simp only [owned.1, and_true, and_false, false_or, and_not_self_iff]
  have sole : ∀ target, ⟨⟨graph.nextPort.index + 1⟩, target⟩ ∈ middle.edges → target = input := by
    intro target isEdge
    rcases (interposed.edges _ target).1 isEdge with ⟨old, -⟩ | ⟨old, -⟩ | ⟨-, isInput⟩
    · exact absurd rfl (interposed.ne_of_edge wellFormed middleWellFormed old).1.2
    · exact absurd rfl (interposed.ne_of_edge wellFormed middleWellFormed old).1.2
    · exact isInput
  obtain ⟨found, isFound, foundId, output, same, between⟩ := interposed_of_bypass middleWellFormed
    first.acyclic bypassed ⟨owner, stays, sameId, position⟩ fed sole
  obtain rfl := middleWellFormed.operator_unique isFound stays (foundId.trans sameId.symm)
  refine ⟨first.trans (between.sameFlow_of_checkpoint middleWellFormed first.acyclic resultWellFormed
    (isCheckpoint found isOwner foundId) (Nat.le_of_eq (congrArg Id.index same.nextOperator).symm)), ?_⟩
  intro other isThere equal
  exact between.fresh (Graph.mem_operatorIds.2 ⟨other, isThere, equal.trans foundId.symm⟩)

/-- An operator that was put before the input of another one has its place when that one is bypassed:
what fed or read the one feeds or reads the other then. -/
theorem edges_of_displaced {graph middle : Graph} (wellFormed : graph.WellFormed)
    (middleWellFormed : middle.WellFormed) {operator new : Operator} {entry exit newEntry newExit : PortId}
    (threads : graph.Threads operator entry exit) (loopless : ⟨exit, entry⟩ ∉ graph.edges)
    (interposed : graph.Interposed middle new newEntry newExit
      (fun source => ⟨source, entry⟩ ∈ graph.edges) fun target => target = entry)
    (source target : PortId) :
    ⟨source, target⟩ ∈ (middle.without operator).edges ∨
        ⟨source, entry⟩ ∈ middle.edges ∧ ⟨exit, target⟩ ∈ middle.edges ↔
      ∃ edge ∈ graph.edges, operator.replacing new edge.source = source ∧
        operator.replacing new edge.target = target := by
  have isOwner := threads.member
  obtain ⟨entered, left, others⟩ := Operator.replacing_single
    (wellFormed.nodup_ports isOwner) threads.inputs threads.outputs
    interposed.inputs interposed.outputs
  have entryApart := interposed.ne_ports middleWellFormed isOwner
    (Operator.mem_ports_of_mem_portsOn .input threads.isEntry)
  have exitApart := interposed.ne_ports middleWellFormed isOwner
    (Operator.mem_ports_of_mem_portsOn .output threads.isExit)
  rw [Graph.mem_edges_without, threads.ports]
  simp only [List.mem_pair, not_or, interposed.edges]
  constructor
  · rintro (⟨inMiddle, apart, alsoApart⟩ | ⟨intoEntry, outOfExit⟩)
    · rcases inMiddle with ⟨isEdge, -⟩ | ⟨isEdge, rfl⟩ | ⟨-, isEntered⟩
      · exact ⟨_, isEdge, others apart.1 apart.2, others alsoApart.1 alsoApart.2⟩
      · exact ⟨_, isEdge, others apart.1 apart.2, entered⟩
      · exact absurd isEntered alsoApart.1
    · have isLeft : source = newExit := by
        rcases intoEntry with ⟨isEdge, again⟩ | ⟨-, isNew⟩ | ⟨isLeft, -⟩
        · exact absurd ⟨isEdge, trivial⟩ again
        · exact absurd isNew entryApart.1
        · exact isLeft
      have isEdge : ⟨exit, target⟩ ∈ graph.edges := by
        rcases outOfExit with ⟨isEdge, -⟩ | ⟨loop, -⟩ | ⟨isNew, -⟩
        · exact isEdge
        · exact absurd loop loopless
        · exact absurd isNew exitApart.2
      refine ⟨_, isEdge, left.trans isLeft.symm, others (fun same => ?_)
        (threads.apart_of_edge wellFormed isEdge).2⟩
      exact loopless (same ▸ isEdge)
  · rintro ⟨edge, isEdge, rfl, rfl⟩
    obtain ⟨notEntry, notExit⟩ := threads.apart_of_edge wellFormed isEdge
    by_cases into : edge.target = entry
    · have notLeft : edge.source ≠ exit := fun same =>
        loopless (by rw [← same, ← into]; exact isEdge)
      rw [into, entered, others notEntry notLeft]
      exact .inl ⟨.inr (.inl ⟨into ▸ isEdge, rfl⟩), ⟨notEntry, notLeft⟩, entryApart.1.symm,
        exitApart.1.symm⟩
    · rw [others into notExit]
      by_cases out : edge.source = exit
      · rw [out, left]
        exact .inr ⟨.inr (.inr ⟨rfl, trivial⟩), .inl ⟨out ▸ isEdge, fun both => into both.2⟩⟩
      · rw [others notEntry out]
        exact .inl ⟨.inl ⟨isEdge, fun both => into both.2⟩, ⟨notEntry, out⟩, into, notExit⟩

/-- The marker stands in the place of the checkpoint. -/
theorem replaced_of_markCheckpoint {graph result : Graph} (wellFormed : graph.WellFormed)
    (acyclic : graph.Acyclic) {id : OperatorId} {done : Unit}
    (yields : (markCheckpoint id).Yields graph done result) :
    ∃ old type, old.id = id ∧ result.WellFormed ∧
      graph.Replaced result old (graph.added (.marker .checkpoint type)) := by
  obtain ⟨input, type, new, middle, ⟨owner, isOwner, sameId, position⟩, inserted, bypassed⟩ :=
    exists_of_markCheckpoint yields
  have middleWellFormed := (keeps_insertBefore input _).wellFormed wellFormed inserted
  have resultWellFormed := (keeps_bypass id).wellFormed middleWellFormed bypassed
  obtain ⟨-, -, -, interposed⟩ := yields_insertBefore wellFormed inserted
  obtain ⟨operator, entry, exit, foundId, threads, same, edges⟩ :=
    yields_bypass middleWellFormed bypassed
  have stays := (interposed.operators owner).2 (.inl isOwner)
  obtain rfl := middleWellFormed.operator_unique threads.member stays (foundId.trans sameId.symm)
  rw [Operator.portsOn, threads.inputs] at position
  obtain rfl := Option.some.inj position
  have threaded : graph.Threads operator entry exit := ⟨isOwner, threads.inputs, threads.outputs⟩
  refine ⟨operator, type, sameId, resultWellFormed, isOwner, fun other => ?_, fun isThere =>
    Graph.fresh_added wellFormed _ (Graph.mem_operatorIds.2 ⟨_, isThere, rfl⟩),
    (Operator.length_of_map_id interposed.inputs).trans (Operator.length_of_map_id threads.inputs).symm,
    (Operator.length_of_map_id interposed.outputs).trans
      (Operator.length_of_map_id threads.outputs).symm, fun source target => ?_⟩
  · rw [same.mem_operators_iff, interposed.operators]
    exact wellFormed.mem_exchanged_iff isOwner (Graph.fresh_added wellFormed _) other
  · exact (edges source target).trans (edges_of_displaced wellFormed middleWellFormed threaded
      (threaded.loopless acyclic) interposed source target)

/-- All other operators stay untouched. -/
theorem relabels_of_markCheckpoint {graph result : Graph} (wellFormed : graph.WellFormed)
    (acyclic : graph.Acyclic) {id : OperatorId}
    (isCheckpoint : ∀ operator ∈ graph.operators, operator.id = id →
      operator.isCore .checkpoint = true) {done : Unit}
    (yields : (markCheckpoint id).Yields graph done result) :
    graph.Relabels result fun operator => operator.isCore .checkpoint = false := by
  obtain ⟨old, type, sameId, resultWellFormed, replaced⟩ :=
    replaced_of_markCheckpoint wellFormed acyclic yields
  have isOld := isCheckpoint old replaced.member sameId
  have alike : old.Alike (graph.added (.marker .checkpoint type)) :=
    .marked (of_decide_eq_true isOld) rfl
  refine ⟨_, _, replaced.renamed wellFormed resultWellFormed alike, fun operator member other =>
    replaced.untouched wellFormed member ?_⟩
  rintro rfl
  exact Bool.false_ne_true (other.symm.trans isOld)

/-- All core checkpoints of a list give way to markers. -/
theorem yields_forM_markCheckpoint {start graph result : Graph} (wellFormed : start.WellFormed)
    (sameFlow : start.SameFlow graph) {targets : List Operator}
    (areTargets : ∀ operator ∈ targets, operator ∈ start.operators ∧
      operator.isCore .checkpoint = true) {done : PUnit}
    (yields : (targets.forM fun operator => markCheckpoint operator.id).Yields graph done result) :
    graph.SameFlow result ∧
      graph.Relabels result (fun operator => operator.isCore .checkpoint = false) ∧
      ∀ operator ∈ targets, operator ∉ result.operators := by
  induction targets generalizing graph with
  | nil =>
    obtain ⟨-, rfl⟩ := yields_pure.1 yields
    exact ⟨.refl sameFlow.wellFormed sameFlow.acyclic, .refl sameFlow.wellFormed, by simp⟩
  | cons operator rest ih =>
    obtain ⟨⟨member, isCheckpoint⟩, others⟩ := List.forall_mem_cons.1 areTargets
    obtain ⟨_, middle, marked, later⟩ := yields_bind.1 yields
    have isTarget : ∀ found ∈ graph.operators, found.id = operator.id →
        found.isCore .checkpoint = true := fun found isFound same =>
      (sameFlow.mem_of_below wellFormed isFound member same).symm ▸ isCheckpoint
    obtain ⟨first, gone⟩ :=
      yields_markCheckpoint sameFlow.wellFormed sameFlow.acyclic isTarget marked
    have relabels :=
      relabels_of_markCheckpoint sameFlow.wellFormed sameFlow.acyclic isTarget marked
    obtain ⟨second, relabelsLater, absent⟩ := ih (sameFlow.trans first) others later
    refine ⟨first.trans second, relabels.trans relabelsLater,
      List.forall_mem_cons.2 ⟨fun isThere => ?_, absent⟩⟩
    rcases second.new operator isThere with old | ⟨isMarker, -⟩
    · exact gone operator old rfl
    · exact Operator.not_marker_of_core isCheckpoint isMarker

/-- Marking checkpoints leaves none and touches nothing else. -/
theorem yields_markCheckpoints {graph result : Graph} (wellFormed : graph.WellFormed)
    (acyclic : graph.Acyclic) {done : Unit} (yields : markCheckpoints.Yields graph done result) :
    graph.SameFlow result ∧
      graph.Relabels result (fun operator => operator.isCore .checkpoint = false) ∧
      ∀ operator ∈ result.operators, operator.isCore .checkpoint = false := by
  obtain ⟨_, _, seen, marked⟩ := yields_bind.1 yields
  obtain ⟨rfl, rfl⟩ := yields_get.1 seen
  obtain ⟨sameFlow, relabels, absent⟩ := yields_forM_markCheckpoint wellFormed
    (.refl wellFormed acyclic) (fun operator member => List.mem_filter.1 member) marked
  refine ⟨sameFlow, relabels, fun operator member => Bool.eq_false_iff.2 fun isCheckpoint => ?_⟩
  rcases sameFlow.new operator member with old | ⟨isMarker, -⟩
  · exact absent operator (List.mem_filter.2 ⟨old, isCheckpoint⟩) member
  · exact Operator.not_marker_of_core isCheckpoint isMarker

end Edit

namespace Planner

variable {ν : Type} [Volume ν] (planner : Planner ν)

/-- What inserting markers does after the core checkpoints are gone. -/
def bounding : Edit (Option LoopOutcome) := do
  (planner.classes (← get)).forM Edit.boundInputs
  if planner.isEnabled .checkpointAfterExternalInputs then Edit.checkpointExternalInputs
  if planner.isEnabled .checkpointBeforeExternalOutputs then Edit.checkpointExternalOutputs
  if planner.isEnabled .removeCyclicBroadcasts then
    return some (← Edit.removeCyclicBroadcasts planner.stepLimit)
  else return none

theorem insertMarkers_eq : planner.insertMarkers = Edit.markCheckpoints >>= fun _ => planner.bounding :=
  rfl

/-- Bounding ensures whatever adding markers ensures. -/
theorem ensures_bounding {relates : Graph → Graph → Prop} [IsPreorder Graph relates]
    (before : ∀ input blueprint, blueprint.IsBoundary →
      Edit.Ensures relates (Edit.insertBefore input blueprint))
    (after : ∀ output blueprint, blueprint.IsBoundary →
      Edit.Ensures relates (Edit.insertAfter output blueprint)) :
    Edit.Ensures relates planner.bounding := by
  refine Edit.Ensures.get.bind fun graph => ?_
  refine (Edit.Ensures.forM fun operatorClass _ =>
    Edit.ensures_boundInputs before operatorClass).bind fun _ => ?_
  have checkpoint : ∀ input dataType,
      Edit.Ensures relates (Edit.insertBefore input (.marker .checkpoint dataType)) :=
    fun input _ => before input _ (.checkpoint _)
  refine .optional (Edit.ensures_checkpointExternalInputs fun output _ => after output _ (.checkpoint _))
    (.optional (Edit.ensures_checkpointExternalOutputs checkpoint) ?_)
  split
  · exact (Edit.ensures_breakBroadcasts checkpoint 0 planner.stepLimit).bind fun _ => .pure _
  · exact .pure _

/-- Bounding only adds markers. -/
theorem keepsFlow_bounding : Edit.KeepsFlow planner.bounding :=
  planner.ensures_bounding (fun input _ boundary => Edit.keepsFlow_insertBefore input boundary.isMarker)
    fun output _ boundary => Edit.keepsFlow_insertAfter output boundary.isMarker

/-- Inserting markers does not change the flow of data: the graph stays free of circuits, the core
checkpoints and no other operators disappear, what is new is a marker with an identifier of its own,
and between the ports of all other operators there are as many paths as before. -/
theorem insertMarkers_preserves_paths {graph result : Graph} (wellFormed : graph.WellFormed)
    (acyclic : graph.Acyclic) {outcome : Option LoopOutcome}
    (succeeds : planner.insertMarkers.apply graph = (.ok outcome, result)) :
    result.Acyclic ∧
      (∀ operator ∈ graph.operators,
        operator ∈ result.operators ↔ operator.isCore .checkpoint = false) ∧
      (∀ operator ∈ result.operators, operator ∉ graph.operators →
        operator.isMarker = true ∧ operator.id ∉ graph.operatorIds) ∧
      ∀ producer ∈ graph.operators, ¬ producer.Passes →
        ∀ consumer ∈ graph.operators, ¬ consumer.Passes →
          ∀ output ∈ producer.outputs, ∀ input ∈ consumer.inputs,
            Finite (graph.Path output.id input.id) ∧ Finite (result.Path output.id input.id) ∧
              Nat.card (result.Path output.id input.id) =
                Nat.card (graph.Path output.id input.id) := by
  rw [insertMarkers_eq] at succeeds
  obtain ⟨_, middle, marked, bounded⟩ := Edit.yields_bind.1 succeeds
  obtain ⟨first, -, unchecked⟩ := Edit.yields_markCheckpoints wellFormed acyclic marked
  have second := planner.keepsFlow_bounding middle outcome result bounded first.wellFormed
    first.acyclic
  have sameFlow := first.trans second
  refine ⟨sameFlow.acyclic, fun operator member => ⟨fun stays => ?_, sameFlow.kept operator member⟩,
    fun operator isThere isNew => ?_, ?_⟩
  · rcases second.new operator stays with old | ⟨isMarker, -⟩
    · exact unchecked operator old
    · exact Bool.eq_false_iff.2 fun isCheckpoint =>
        Operator.not_marker_of_core isCheckpoint isMarker
  · obtain ⟨isMarker, above⟩ := (sameFlow.new operator isThere).resolve_left isNew
    refine ⟨isMarker, fun listed => ?_⟩
    obtain ⟨old, isOld, same⟩ := Graph.mem_operatorIds.1 listed
    exact isNew (sameFlow.mem_of_below wellFormed isThere isOld same.symm ▸ isOld)
  · intro producer isProducer blocks consumer isConsumer stops output owned input owns
    exact ⟨Route.finite (wellFormed.finitary_flows acyclic) _,
      Route.finite (sameFlow.wellFormed.finitary_flows sameFlow.acyclic) _,
      sameFlow.paths producer isProducer blocks consumer isConsumer stops _
        (List.mem_map_of_mem owned) _ (List.mem_map_of_mem owns)⟩

/-- A table feeds a checkpoint that a grouped input and one that is consumed whole read; the latter
reads the table directly, too. -/
def markingSample : Graph :=
  let rows : DataType := .named "row"
  let row : PortShape := { name := "row", dataType := rows }
  let blueprints : List Blueprint :=
    [.marker .begin Blueprint.activationType, .externalInput "table" rows, .core .checkpoint rows,
      ((Blueprint.user "sort" .groupSort).withInput row).withOutput row,
      ((Blueprint.user "scan" .extract).withInput { row with unit := some .whole }).withOutput row,
      .externalOutput "result" rows, .marker .finish Blueprint.activationType]
  let edges : List (Nat × Nat) := [(1, 2), (3, 4), (3, 8), (5, 6), (5, 8), (7, 10), (9, 10), (11, 12)]
  let operators := blueprints.foldl (fun graph blueprint => (graph.add blueprint).2) Graph.empty
  edges.foldl (fun graph (source, target) => graph.link ⟨source⟩ ⟨target⟩) operators

theorem wellFormed_markingSample : markingSample.WellFormed where
  ascending := by decide +kernel
  operatorsBelow := by decide +kernel
  ports := by decide +kernel
  portsBelow := by decide +kernel
  sources := by
    change ∀ edge ∈ markingSample.edges.toList, _
    decide +kernel
  targets := by
    change ∀ edge ∈ markingSample.edges.toList, _
    decide +kernel

/-- The planner that knows no sizes marks the sample. -/
theorem insertMarkers_preserves_paths_sample : ∃ outcome result,
    markingSample.WellFormed ∧ markingSample.Acyclic ∧
      (({ config := .standard, estimator := .unknown } : Planner Float).insertMarkers.apply
        markingSample = (.ok outcome, result)) ∧ result.Acyclic := by
  have acyclic : markingSample.Acyclic :=
    (Graph.circuitless_dependencies_iff wellFormed_markingSample).1
      ((DependencyGraph.circuits_eq_nil_iff Graph.dependencies_wellFormed).1 (by decide +kernel))
  obtain ⟨outcome, isOutcome⟩ := exists_of_isOk (by decide +kernel :
    (({ config := .standard, estimator := .unknown } : Planner Float).insertMarkers.apply
      markingSample).1.isOk = true)
  exact ⟨outcome, _, wellFormed_markingSample, acyclic, Prod.ext isOutcome rfl,
    (insertMarkers_preserves_paths _ wellFormed_markingSample acyclic
      (Prod.ext isOutcome rfl)).1⟩

end Planner

end StagePlanner
