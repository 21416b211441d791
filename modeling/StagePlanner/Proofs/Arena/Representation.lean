import StagePlanner.Graph.Arena
import StagePlanner.Proofs.Fallible
import StagePlanner.Proofs.Graph.Lookup

/-!
# The graph in an arena

An arena represents a graph when its tables hold the operators, ports and edges of the graph
(`Arena.Represents`). Then every question about the arena has the answer that the graph gives, and every
change of the tables represents the change of the graph: adding and removing operators, entering and
striking out edges. While an operator is being removed the tables of operators and ports disagree for a
time; what holds throughout is that both indexes have the same edges and that their ends are listed
(`Arena.Indexes`).
-/

namespace StagePlanner

open Std (ExtTreeMap)

/-- The entry of an operator in the table of operators. -/
def Operator.record (operator : Operator) : OperatorRecord where
  id := operator.id
  serial := operator.serial
  kind := operator.kind
  inputs := operator.inputs.map Port.id
  outputs := operator.outputs.map Port.id
  arguments := operator.arguments
  traits := operator.traits

theorem Operator.portsOn_record (operator : Operator) (side : PortSide) :
    operator.record.portsOn side = (operator.portsOn side).map Port.id := by
  cases side <;> rfl

theorem Operator.ports_record (operator : Operator) :
    operator.record.ports = operator.ports.map Port.id :=
  List.map_append.symm

/-- The entry of a port in the table of ports. -/
def PortPlace.record (place : PortPlace) : PortRecord :=
  { place.port with owner := place.owner.id, side := place.side }

/-- Where a port is once an operator was added: among its outputs, among its inputs or where it was. -/
theorem Graph.WellFormed.map_record_place?_add {graph : Graph} (wellFormed : graph.WellFormed)
    (blueprint : Blueprint) (id : PortId) :
    ((graph.add blueprint).2.place? id).map PortPlace.record =
      (((Graph.assignPorts ⟨graph.nextPort.index + blueprint.inputs.length⟩
        blueprint.outputs).find? fun port => port.id = id).map fun port =>
          { port with owner := graph.nextOperator, side := .output }).or
      ((((Graph.assignPorts graph.nextPort blueprint.inputs).find? fun port => port.id = id).map
        fun port => { port with owner := graph.nextOperator, side := .input }).or
          ((graph.place? id).map PortPlace.record)) := by
  rw [Graph.place?_add]
  cases old : graph.place? id with
  | some place =>
    obtain ⟨isOwner, owned⟩ := Graph.mem_portsOn_of_place? old
    obtain ⟨port, isPort, rfl⟩ := List.mem_map.1 (Operator.mem_ports_of_mem_portsOn _ owned)
    have below := wellFormed.portsBelow place.owner isOwner port isPort
    rw [Graph.find?_assignPorts_eq_none (.inl below),
      Graph.find?_assignPorts_eq_none (.inl (Nat.lt_add_right _ below))]
    rfl
  | none =>
    have inputs : (graph.added blueprint).inputs =
      Graph.assignPorts graph.nextPort blueprint.inputs := rfl
    have outputs : (graph.added blueprint).outputs =
      Graph.assignPorts ⟨graph.nextPort.index + blueprint.inputs.length⟩ blueprint.outputs := rfl
    rw [Option.none_or, Graph.placeOn?, inputs, outputs]
    cases isInput : (Graph.assignPorts graph.nextPort blueprint.inputs).find?
        fun port => port.id = id with
    | some port =>
      have bounds : id.index < graph.nextPort.index + blueprint.inputs.length := by
        by_contra beyond
        rw [Graph.find?_assignPorts_eq_none (.inr (Nat.not_lt.1 beyond))] at isInput
        cases isInput
      rw [Graph.find?_assignPorts_eq_none (.inl bounds)]
      rfl
    | none =>
      cases (Graph.assignPorts ⟨graph.nextPort.index + blueprint.inputs.length⟩
        blueprint.outputs).find? fun port => port.id = id <;> rfl

namespace Arena

/-! ### Indexes -/

section Tables

variable {table : ExtTreeMap PortId (OrderedSet PortId)} {key place item other : PortId}

theorem mem_entered :
    other ∈ (table.alter key fun found => some ((found.getD ∅).insert item))[place]?.getD ∅ ↔
      other ∈ table[place]?.getD ∅ ∨ place = key ∧ other = item := by
  simp only [ExtTreeMap.getElem?_alter, Std.compare_eq_iff_eq]
  split
  · next same =>
    subst same
    rw [Option.getD_some, OrderedSet.mem_insert, or_comm]
    simp
  · next different =>
    have apart : ¬ place = key := fun same => different same.symm
    simp [apart]

theorem mem_struck :
    other ∈ (table.modify key fun found => found.erase item)[place]?.getD ∅ ↔
      other ∈ table[place]?.getD ∅ ∧ ¬ (place = key ∧ other = item) := by
  simp only [ExtTreeMap.getElem?_modify, Std.compare_eq_iff_eq]
  split
  · next same =>
    subst same
    cases table[key]? with
    | none => simp
    | some found => simp
  · next different =>
    have apart : ¬ place = key := fun same => different same.symm
    simp [apart]

end Tables

/-- Both indexes have certain edges, which run from outputs to inputs. -/
structure Indexes (arena : Arena) (isEdge : Edge → Prop) : Prop where
  targets : ∀ source target, target ∈ arena.targets source ↔ isEdge ⟨source, target⟩
  sources : ∀ source target, source ∈ arena.sources target ↔ isEdge ⟨source, target⟩
  areOutputs : ∀ edge, isEdge edge → arena.ports[edge.source]?.map PortRecord.side = some .output
  areInputs : ∀ edge, isEdge edge → arena.ports[edge.target]?.map PortRecord.side = some .input

namespace Indexes

variable {arena : Arena} {isEdge : Edge → Prop}

theorem congr {other : Edge → Prop} (indexes : arena.Indexes isEdge)
    (same : ∀ edge, isEdge edge ↔ other edge) : arena.Indexes other := by
  have equal : isEdge = other := funext fun edge => propext (same edge)
  exact equal ▸ indexes

theorem link (indexes : arena.Indexes isEdge) {source target : PortId}
    (isOutput : arena.ports[source]?.map PortRecord.side = some .output)
    (isInput : arena.ports[target]?.map PortRecord.side = some .input) :
    (arena.link source target).Indexes fun edge => isEdge edge ∨ edge = ⟨source, target⟩ where
  targets start finish := by
    rw [Edge.mk.injEq, ← indexes.targets]
    exact mem_entered
  sources start finish := by
    rw [Edge.mk.injEq, ← indexes.sources, and_comm]
    exact mem_entered
  areOutputs edge isThere := by
    rcases isThere with old | rfl
    · exact indexes.areOutputs edge old
    · exact isOutput
  areInputs edge isThere := by
    rcases isThere with old | rfl
    · exact indexes.areInputs edge old
    · exact isInput

theorem unlink (indexes : arena.Indexes isEdge) (source target : PortId) :
    (arena.unlink source target).Indexes fun edge => isEdge edge ∧ edge ≠ ⟨source, target⟩ where
  targets start finish := by
    rw [ne_eq, Edge.mk.injEq, ← indexes.targets]
    exact mem_struck
  sources start finish := by
    rw [ne_eq, Edge.mk.injEq, ← indexes.sources, and_comm (a := start = source)]
    exact mem_struck
  areOutputs edge isThere := indexes.areOutputs edge isThere.1
  areInputs edge isThere := indexes.areInputs edge isThere.1

/-- The opposites of a port are the other ends of its edges. -/
theorem mem_opposites (indexes : arena.Indexes isEdge) {port other : PortId} :
    other ∈ arena.opposites port ↔ isEdge ⟨port, other⟩ ∨ isEdge ⟨other, port⟩ := by
  have output : isEdge ⟨port, other⟩ → arena.ports[port]?.map PortRecord.side = some .output :=
    indexes.areOutputs ⟨port, other⟩
  have input : isEdge ⟨other, port⟩ → arena.ports[port]?.map PortRecord.side = some .input :=
    indexes.areInputs ⟨other, port⟩
  rw [opposites]
  split
  · next isInput =>
    rw [OrderedSet.mem_toList, indexes.sources]
    refine ⟨.inr, fun isEdge => isEdge.resolve_left fun leaves => ?_⟩
    cases isInput.symm.trans (output leaves)
  · next isOutput =>
    rw [OrderedSet.mem_toList, indexes.targets]
    refine ⟨.inl, fun isEdge => isEdge.resolve_right fun reaches => ?_⟩
    cases isOutput.symm.trans (input reaches)
  · next nowhere =>
    refine ⟨fun member => absurd member List.not_mem_nil, ?_⟩
    rintro (leaves | reaches)
    · cases nowhere.symm.trans (output leaves)
    · cases nowhere.symm.trans (input reaches)

end Indexes

/-- Two arenas differ in their indexes only. -/
def SameButIndexes (arena result : Arena) : Prop :=
  ∃ downstream upstream, result = { arena with downstream, upstream }

theorem SameButIndexes.refl (arena : Arena) : arena.SameButIndexes arena := ⟨_, _, rfl⟩

theorem SameButIndexes.trans {arena middle result : Arena} (first : arena.SameButIndexes middle)
    (second : middle.SameButIndexes result) : arena.SameButIndexes result := by
  obtain ⟨_, _, rfl⟩ := first
  obtain ⟨downstream, upstream, rfl⟩ := second
  exact ⟨downstream, upstream, rfl⟩

theorem sameButIndexes_detach (arena : Arena) (port : PortId) :
    arena.SameButIndexes (arena.detach port) := by
  rw [detach]
  induction arena.opposites port generalizing arena with
  | nil => exact .refl arena
  | cons other rest ih =>
    have step : arena.SameButIndexes ((arena.unlink port other).unlink other port) := ⟨_, _, rfl⟩
    exact step.trans (ih _)

namespace Indexes

variable {arena : Arena} {isEdge : Edge → Prop}

theorem detach (indexes : arena.Indexes isEdge) (port : PortId) :
    (arena.detach port).Indexes fun edge => isEdge edge ∧ edge.touches port = false := by
  have strikes : ∀ (others : List PortId) {arena : Arena} {isEdge : Edge → Prop},
      arena.Indexes isEdge →
        (others.foldl (fun arena other => (arena.unlink port other).unlink other port) arena).Indexes
          fun edge => isEdge edge ∧ ∀ other ∈ others, edge ≠ ⟨port, other⟩ ∧ edge ≠ ⟨other, port⟩ := by
    intro others
    induction others with
    | nil => exact fun indexes => indexes.congr fun edge => by simp
    | cons other rest ih =>
      intro arena isEdge indexes
      refine (ih ((indexes.unlink port other).unlink other port)).congr fun edge => ?_
      rw [List.forall_mem_cons, and_assoc, and_assoc, and_assoc]
  refine (strikes (arena.opposites port) indexes).congr fun edge => and_congr_right fun isThere => ?_
  simp only [indexes.mem_opposites, Edge.touches, Bool.or_eq_false_iff, decide_eq_false_iff_not]
  constructor
  · intro untouched
    refine ⟨?_, ?_⟩
    · rintro rfl
      exact (untouched edge.target (.inl isThere)).1 rfl
    · rintro rfl
      exact (untouched edge.source (.inr isThere)).2 rfl
  · rintro ⟨notSource, notTarget⟩ other -
    exact ⟨fun same => notSource (congrArg Edge.source same),
      fun same => notTarget (congrArg Edge.target same)⟩

theorem dropPort (indexes : arena.Indexes isEdge) (port : PortId) :
    (arena.dropPort port).Indexes fun edge => isEdge edge ∧ edge.touches port = false := by
  have detached := indexes.detach port
  have kept : ∀ other : PortId, other ≠ port →
      (arena.dropPort port).ports[other]? = (arena.detach port).ports[other]? := by
    intro other different
    show ((arena.detach port).ports.erase port)[other]? = _
    simp only [ExtTreeMap.getElem?_erase, Std.compare_eq_iff_eq, different.symm, if_false]
  have apart : ∀ edge : Edge, edge.touches port = false → edge.source ≠ port ∧ edge.target ≠ port := by
    intro edge untouched
    simpa [Edge.touches] using untouched
  exact {
    targets := detached.targets
    sources := detached.sources
    areOutputs := fun edge isThere => by
      rw [kept _ (apart edge isThere.2).1]
      exact detached.areOutputs edge isThere
    areInputs := fun edge isThere => by
      rw [kept _ (apart edge isThere.2).2]
      exact detached.areInputs edge isThere }

theorem dropPorts (indexes : arena.Indexes isEdge) (ports : List PortId) :
    (ports.foldl Arena.dropPort arena).Indexes fun edge =>
      isEdge edge ∧ ∀ port ∈ ports, edge.touches port = false := by
  induction ports generalizing arena isEdge with
  | nil => exact indexes.congr fun edge => by simp
  | cons port rest ih =>
    refine (ih (indexes.dropPort port)).congr fun edge => ?_
    rw [List.forall_mem_cons, and_assoc]

end Indexes

/-- Ports that are removed leave the table of operators and the counters as they are. -/
theorem exists_dropPorts (arena : Arena) (ports : List PortId) :
    ∃ table downstream upstream,
      ports.foldl dropPort arena = { arena with ports := table, downstream, upstream } ∧
        ∀ port : PortId, table[port]? = if port ∈ ports then none else arena.ports[port]? := by
  induction ports generalizing arena with
  | nil => exact ⟨_, _, _, rfl, fun port => by simp⟩
  | cons first rest ih =>
    obtain ⟨table, downstream, upstream, isResult, found⟩ := ih (arena.dropPort first)
    obtain ⟨_, _, isDetached⟩ := arena.sameButIndexes_detach first
    refine ⟨table, downstream, upstream, ?_, fun port => ?_⟩
    · rw [List.foldl_cons, isResult, dropPort, isDetached]
    · rw [found, dropPort, isDetached]
      simp only [ExtTreeMap.getElem?_erase, Std.compare_eq_iff_eq, List.mem_cons]
      by_cases isRest : port ∈ rest
      · simp [isRest]
      · by_cases isFirst : first = port
        · simp [isFirst]
        · have apart : ¬ port = first := fun same => isFirst same.symm
          simp [isRest, isFirst, apart]

/-! ### Adding ports -/

/-- Ports that are added to the table get the identifiers that follow. -/
theorem exists_addPorts (arena : Arena) (owner : OperatorId) (side : PortSide)
    (shapes : List PortShape) : ∃ table,
      arena.addPorts owner side shapes = ((Graph.assignPorts arena.nextPort shapes).map Port.id,
        { arena with ports := table, nextPort := ⟨arena.nextPort.index + shapes.length⟩ }) ∧
      ∀ id : PortId, table[id]? =
        (((Graph.assignPorts arena.nextPort shapes).find? fun port => port.id = id).map
          fun port => { port with owner, side }).or arena.ports[id]? := by
  induction shapes generalizing arena with
  | nil => exact ⟨_, rfl, fun id => rfl⟩
  | cons shape rest ih =>
    obtain ⟨table, isResult, found⟩ := ih { arena with
      ports := arena.ports.insert arena.nextPort { shape with id := arena.nextPort, owner, side }
      nextPort := arena.nextPort.next }
    refine ⟨table, ?_, fun id => ?_⟩
    · have count : arena.nextPort.next.index + rest.length =
          arena.nextPort.index + (shape :: rest).length := Nat.succ_add_eq_add_succ _ _
      rw [addPorts, isResult, Graph.assignPorts_cons, ← count]
      rfl
    · rw [found, Graph.assignPorts_cons, List.find?_cons]
      simp only [ExtTreeMap.getElem?_insert, Std.compare_eq_iff_eq]
      split
      · next same =>
        subst same
        have below : arena.nextPort.index < arena.nextPort.next.index := Nat.lt_succ_self _
        rw [Graph.find?_assignPorts_eq_none (.inl below), decide_eq_true rfl]
        rfl
      · next different => rw [decide_eq_false different]

/-- The entry of an operator that is added. -/
def added (arena : Arena) (blueprint : Blueprint) : OperatorRecord where
  id := arena.nextOperator
  serial := blueprint.serial.getD arena.nextSerial
  kind := blueprint.kind
  inputs := (Graph.assignPorts arena.nextPort blueprint.inputs).map Port.id
  outputs := (Graph.assignPorts ⟨arena.nextPort.index + blueprint.inputs.length⟩
    blueprint.outputs).map Port.id
  arguments := blueprint.arguments
  traits := blueprint.traits

/-- An operator that is added has an entry of its own and one for each port. -/
theorem exists_add (arena : Arena) (blueprint : Blueprint) : ∃ table,
    (arena.add blueprint).2 = { arena with
      operators := arena.operators.insert arena.nextOperator (arena.added blueprint)
      ports := table
      nextOperator := arena.nextOperator.next
      nextPort := ⟨arena.nextPort.index + blueprint.inputs.length + blueprint.outputs.length⟩
      nextSerial := blueprint.serial.elim arena.nextSerial.next arena.serialAfter } ∧
    ∀ id : PortId, table[id]? =
      (((Graph.assignPorts ⟨arena.nextPort.index + blueprint.inputs.length⟩
        blueprint.outputs).find? fun port => port.id = id).map fun port =>
          { port with owner := arena.nextOperator, side := .output }).or
      ((((Graph.assignPorts arena.nextPort blueprint.inputs).find? fun port => port.id = id).map
        fun port => { port with owner := arena.nextOperator, side := .input }).or arena.ports[id]?) := by
  obtain ⟨withInputs, isInputs, foundInputs⟩ := exists_addPorts
    { arena with
      nextOperator := arena.nextOperator.next
      nextSerial := blueprint.serial.elim arena.nextSerial.next arena.serialAfter }
    arena.nextOperator .input blueprint.inputs
  obtain ⟨withPorts, isOutputs, foundOutputs⟩ := exists_addPorts
    { arena with
      ports := withInputs
      nextOperator := arena.nextOperator.next
      nextPort := ⟨arena.nextPort.index + blueprint.inputs.length⟩
      nextSerial := blueprint.serial.elim arena.nextSerial.next arena.serialAfter }
    arena.nextOperator .output blueprint.outputs
  refine ⟨withPorts, ?_, fun id => ?_⟩
  · rw [Arena.add, isInputs]
    dsimp only
    rw [isOutputs]
    rfl
  · rw [foundOutputs, foundInputs]

/-! ### Representation -/

section Ports

variable {arena : Arena} {graph : Graph} (wellFormed : graph.WellFormed)
  (ports : ∀ id : PortId, arena.ports[id]? = (graph.place? id).map PortPlace.record)

include wellFormed ports

theorem side_of_listed (side : PortSide) {port : PortId}
    (listed : ∃ operator ∈ graph.operators, port ∈ (operator.portsOn side).map Port.id) :
    arena.ports[port]?.map PortRecord.side = some side := by
  obtain ⟨operator, member, owned⟩ := listed
  obtain ⟨place, found, -, rfl⟩ := wellFormed.exists_place? member side owned
  rw [ports, found]
  rfl

/-- The ends of the edges are listed if the ports are those of the graph. -/
theorem indexes_of_ports
    (targets : ∀ source target, target ∈ arena.targets source ↔ ⟨source, target⟩ ∈ graph.edges)
    (sources : ∀ source target, source ∈ arena.sources target ↔ ⟨source, target⟩ ∈ graph.edges) :
    arena.Indexes (· ∈ graph.edges) where
  targets := targets
  sources := sources
  areOutputs edge isEdge := side_of_listed wellFormed ports .output
    (wellFormed.sources edge isEdge)
  areInputs edge isEdge := side_of_listed wellFormed ports .input
    (wellFormed.targets edge isEdge)

end Ports

/-- The tables hold a well-formed graph. -/
structure Represents (arena : Arena) (graph : Graph) : Prop where
  wellFormed : graph.WellFormed
  operators : ∀ id : OperatorId, arena.operators[id]? = (graph.operator? id).map Operator.record
  ports : ∀ id : PortId, arena.ports[id]? = (graph.place? id).map PortPlace.record
  indexes : arena.Indexes (· ∈ graph.edges)
  nextOperator : arena.nextOperator = graph.nextOperator
  nextPort : arena.nextPort = graph.nextPort
  nextSerial : arena.nextSerial = graph.nextSerial

/-- The empty tables hold the empty graph, whatever serial number comes next. -/
theorem represents_empty (serial : SerialNumber) :
    ({ nextSerial := serial } : Arena).Represents { nextSerial := serial } where
  wellFormed := Graph.wellFormed_of_no_operators rfl rfl
  operators _ := ExtTreeMap.getElem?_empty
  ports _ := ExtTreeMap.getElem?_empty
  indexes := {
    targets := fun _ _ => by simp [targets]
    sources := fun _ _ => by simp [sources]
    areOutputs := fun _ isThere => absurd isThere OrderedSet.not_mem_empty
    areInputs := fun _ isThere => absurd isThere OrderedSet.not_mem_empty }
  nextOperator := rfl
  nextPort := rfl
  nextSerial := rfl

namespace Represents

variable {arena : Arena} {graph : Graph} (represents : arena.Represents graph)

include represents

/-! ### Questions -/

theorem operator_eq (id : OperatorId) :
    arena.operator id = (graph.operator id).map Operator.record := by
  rw [Arena.operator, Graph.operator, represents.operators]
  cases graph.operator? id <;> rfl

theorem operator_iff {id : OperatorId} {record : OperatorRecord} :
    arena.operators[id]? = some record ↔
      ∃ operator ∈ graph.operators, operator.id = id ∧ operator.record = record := by
  rw [represents.operators, Option.map_eq_some_iff]
  simp only [represents.wellFormed.operator?_eq_some_iff, and_assoc]

theorem mem_operators_iff {id : OperatorId} :
    id ∈ arena.operators ↔ ∃ operator ∈ graph.operators, operator.id = id := by
  simp only [ExtTreeMap.mem_iff_isSome_getElem?, Option.isSome_iff_exists, represents.operator_iff]
  constructor
  · rintro ⟨_, operator, member, same, -⟩
    exact ⟨operator, member, same⟩
  · rintro ⟨operator, member, same⟩
    exact ⟨_, operator, member, same, rfl⟩

theorem port_eq (id : PortId) : arena.port id = (graph.place id).map PortPlace.record := by
  rw [Arena.port, Graph.place, represents.ports]
  cases graph.place? id <;> rfl

theorem inputAt_eq (id : OperatorId) (index : Nat) :
    arena.inputAt id index = graph.inputAt id index := by
  rw [Arena.inputAt, Graph.inputAt, represents.operator_eq]
  cases graph.operator id with
  | error cause => rfl
  | ok operator =>
    simp only [Except.map, bind, Except.bind, Operator.record, List.getElem?_map]
    cases operator.inputs[index]? <;> rfl

theorem outputAt_eq (id : OperatorId) (index : Nat) :
    arena.outputAt id index = graph.outputAt id index := by
  rw [Arena.outputAt, Graph.outputAt, represents.operator_eq]
  cases graph.operator id with
  | error cause => rfl
  | ok operator =>
    simp only [Except.map, bind, Except.bind, Operator.record, List.getElem?_map]
    cases operator.outputs[index]? <;> rfl

theorem opposites_eq (port : PortId) : arena.opposites port = graph.opposites port := by
  have side : arena.ports[port]?.map PortRecord.side = (graph.place? port).map PortPlace.side := by
    rw [represents.ports, Option.map_map]
    rfl
  rw [Arena.opposites, Graph.opposites, side]
  cases (graph.place? port).map PortPlace.side with
  | none => rfl
  | some side =>
    cases side with
    | input =>
      refine OrderedSet.ascending_ext (arena.sources port).ascending (graph.producers_ascending port)
        fun source => ?_
      rw [OrderedSet.mem_toList, represents.indexes.sources, Graph.mem_producers]
    | output =>
      refine OrderedSet.ascending_ext (arena.targets port).ascending (graph.consumers_ascending port)
        fun target => ?_
      rw [OrderedSet.mem_toList, represents.indexes.targets, Graph.mem_consumers]

theorem edges_eq : arena.edges = graph.edges.toList := by
  refine OrderedSet.ascending_ext ?_ graph.edges.ascending fun edge => ?_
  · refine List.pairwise_flatMap.2 ⟨fun entry _ => ?_, ExtTreeMap.ordered_keys_toList.imp ?_⟩
    · exact List.pairwise_map.2 (entry.2.ascending.imp fun {before after} ascends =>
        (Edge.compare_of_source ⟨entry.1, before⟩ ⟨entry.1, after⟩ rfl).trans ascends)
    · intro before after ascends left isLeft right isRight
      obtain ⟨_, -, rfl⟩ := List.mem_map.1 isLeft
      obtain ⟨_, -, rfl⟩ := List.mem_map.1 isRight
      show (compare before.1 after.1).then _ = .lt
      rw [ascends]
      rfl
  · rw [OrderedSet.mem_toList, ← represents.indexes.targets, targets, edges, List.mem_flatMap]
    constructor
    · rintro ⟨⟨source, found⟩, isEntry, isTarget⟩
      obtain ⟨target, listed, rfl⟩ := List.mem_map.1 isTarget
      rw [ExtTreeMap.mem_toList_iff_getElem?_eq_some.1 isEntry]
      exact listed
    · intro listed
      cases found : arena.downstream[edge.source]? with
      | none =>
        rw [found] at listed
        exact absurd listed OrderedSet.not_mem_empty
      | some targets =>
        rw [found] at listed
        exact ⟨⟨edge.source, targets⟩, ExtTreeMap.mem_toList_iff_getElem?_eq_some.2 found,
          List.mem_map.2 ⟨edge.target, listed, rfl⟩⟩

/-- Outputs may be connected with inputs. -/
theorem connected_eq {source target : PortId}
    (isOutput : ∃ operator ∈ graph.operators, source ∈ operator.outputs.map Port.id)
    (isInput : ∃ operator ∈ graph.operators, target ∈ operator.inputs.map Port.id) :
    arena.connected source target = .ok (arena.link source target) := by
  obtain ⟨producer, isProducer, gives⟩ := isOutput
  obtain ⟨consumer, isConsumer, takes⟩ := isInput
  obtain ⟨start, starts, -, startSide⟩ := represents.wellFormed.exists_place? isProducer .output gives
  obtain ⟨finish, finishes, -, finishSide⟩ := represents.wellFormed.exists_place? isConsumer .input takes
  rw [connected, represents.port_eq, represents.port_eq, Graph.place_eq_ok.2 starts,
    Graph.place_eq_ok.2 finishes]
  show (if start.side ≠ .output || finish.side ≠ .input then throw (.wrongDirection source target)
    else pure (arena.link source target) : Except GraphFault Arena) = _
  rw [startSide, finishSide]
  rfl

/-- The ports of an operator are read off the table of ports. -/
theorem mapM_port {operator : Operator} (member : operator ∈ graph.operators) (side : PortSide) :
    ∃ records : List PortRecord, ((operator.portsOn side).map Port.id).mapM arena.port = .ok records ∧
      (records.map fun record => record.toPortShape) =
        (operator.portsOn side).map fun port => port.toPortShape := by
  refine ⟨(operator.portsOn side).map fun port => PortPlace.record { port, owner := operator, side }, ?_,
    by rw [List.map_map]; rfl⟩
  rw [mapM_eq_ok_iff, List.forall₂_map_left_iff, List.forall₂_map_right_iff, List.forall₂_same]
  intro port listed
  rw [represents.port_eq, Graph.place_eq_ok.2 (represents.wellFormed.place?_of_mem member listed)]
  rfl

theorem blueprint_eq (id : OperatorId) :
    arena.blueprint id = (graph.operator id).map Operator.blueprint := by
  rw [Arena.blueprint, represents.operator_eq]
  cases found : graph.operator id with
  | error cause => rfl
  | ok operator =>
    obtain ⟨member, -⟩ := Graph.mem_of_operator found
    obtain ⟨inputs, areInputs, inputShapes⟩ := represents.mapM_port member .input
    obtain ⟨outputs, areOutputs, outputShapes⟩ := represents.mapM_port member .output
    show (((operator.portsOn .input).map Port.id).mapM arena.port >>= fun inputs =>
      ((operator.portsOn .output).map Port.id).mapM arena.port >>= fun outputs =>
        pure { operator.blueprint with
          inputs := inputs.map fun record : PortRecord => record.toPortShape
          outputs := outputs.map fun record : PortRecord => record.toPortShape }) = Except.ok operator.blueprint
    rw [areInputs, areOutputs]
    show Except.ok { operator.blueprint with
      inputs := inputs.map fun record : PortRecord => record.toPortShape
      outputs := outputs.map fun record : PortRecord => record.toPortShape } = _
    rw [inputShapes, outputShapes]
    rfl

/-! ### Changes -/

theorem add_fst (blueprint : Blueprint) : (arena.add blueprint).1 = (graph.add blueprint).1 :=
  represents.nextOperator

theorem add (blueprint : Blueprint) : (arena.add blueprint).2.Represents (graph.add blueprint).2 := by
  obtain ⟨table, isResult, found⟩ := exists_add arena blueprint
  have grown := represents.wellFormed.add blueprint
  have ports : ∀ id : PortId,
      table[id]? = ((graph.add blueprint).2.place? id).map PortPlace.record := by
    intro id
    rw [found, represents.wellFormed.map_record_place?_add, represents.ports, represents.nextOperator,
      represents.nextPort]
  rw [isResult]
  exact {
    wellFormed := grown
    operators := fun id => by
      rw [represents.wellFormed.operator?_add]
      simp only [ExtTreeMap.getElem?_insert, Std.compare_eq_iff_eq, represents.operators,
        represents.nextOperator]
      split
      · rw [Option.map_some, Arena.added, represents.nextOperator, represents.nextPort,
          represents.nextSerial]
        rfl
      · rfl
    ports
    indexes := indexes_of_ports grown ports represents.indexes.targets represents.indexes.sources
    nextOperator := congrArg Id.next represents.nextOperator
    nextPort := by rw [represents.nextPort]; rfl
    nextSerial := by
      show blueprint.serial.elim arena.nextSerial.next arena.serialAfter =
        blueprint.serial.elim graph.nextSerial.next graph.serialAfter
      rw [represents.nextSerial]
      cases blueprint.serial with
      | none => rfl
      | some chosen => rw [Option.elim_some, Arena.serialAfter, represents.nextSerial]; rfl }

theorem link {source target : PortId}
    (isOutput : ∃ operator ∈ graph.operators, source ∈ operator.outputs.map Port.id)
    (isInput : ∃ operator ∈ graph.operators, target ∈ operator.inputs.map Port.id) :
    (arena.link source target).Represents (graph.link source target) :=
  { represents with
    wellFormed := represents.wellFormed.link isOutput isInput
    indexes := (represents.indexes.link
      (side_of_listed represents.wellFormed represents.ports .output isOutput)
      (side_of_listed represents.wellFormed represents.ports .input isInput)).congr
        fun edge => by rw [Graph.link, OrderedSet.mem_insert, or_comm] }

theorem unlink (source target : PortId) :
    (arena.unlink source target).Represents (graph.unlink source target) :=
  { represents with
    wellFormed := represents.wellFormed.unlink source target
    indexes := (represents.indexes.unlink source target).congr fun edge => by
      rw [Graph.unlink, OrderedSet.mem_erase] }

theorem detach (port : PortId) : (arena.detach port).Represents (graph.detach [port]) := by
  have indexes := represents.indexes.detach port
  obtain ⟨_, _, isResult⟩ := arena.sameButIndexes_detach port
  rw [isResult] at indexes ⊢
  exact { represents with
    wellFormed := represents.wellFormed.detach [port]
    indexes := indexes.congr fun edge => by simp [Graph.detach] }

theorem without {operator : Operator} (member : operator ∈ graph.operators) :
    (arena.without operator.record).Represents (graph.without operator) := by
  have indexes : ({ arena with operators := arena.operators.erase operator.record.id } : Arena).Indexes
      (· ∈ graph.edges) := { represents.indexes with }
  have remaining := indexes.dropPorts operator.record.ports
  obtain ⟨table, _, _, isResult, found⟩ := exists_dropPorts
    { arena with operators := arena.operators.erase operator.record.id } operator.record.ports
  rw [Arena.without, isResult]
  rw [isResult] at remaining
  exact { represents with
    wellFormed := represents.wellFormed.without member
    operators := fun id => by
      rw [Graph.operator?_without]
      simp only [ExtTreeMap.getElem?_erase, Std.compare_eq_iff_eq, represents.operators]
      show (if operator.id = id then none else _) = _
      split <;> rfl
    ports := fun port => by
      rw [found, represents.wellFormed.place?_without member, operator.ports_record, represents.ports]
      split <;> rfl
    indexes := remaining.congr fun edge => by
      simp [Graph.without, Graph.detach, operator.ports_record] }

end Represents

end Arena

end StagePlanner
