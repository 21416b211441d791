import Mathlib.Data.List.Nodup
import Mathlib.Logic.Relation
import StagePlanner.Graph.Flow
import StagePlanner.Proofs.Circuitless
import StagePlanner.Proofs.Dependency.Order
import StagePlanner.Proofs.Keyed

/-!
# Wiring of operator graphs

A graph stores edges between ports. Statements about graphs speak of terminals instead, places
at operators, since these keep their meaning when operators are copied and ports get new
identifiers. `Graph.WellFormed` is what every graph built by edits satisfies, and under it

* `mem_predecessors` and `mem_successors` read neighbours off the wires,
* `depends_dependencies` reads the dependencies of operators off the wires.
-/

namespace StagePlanner

open Relation

/-- The place of a port: an operator and a position among its outputs or its inputs. -/
structure Terminal where
  operator : OperatorId
  index : Nat
  deriving DecidableEq, Repr

/-- The ports of an operator on one side. -/
def Operator.portsOn (operator : Operator) : PortSide → List Port
  | .input => operator.inputs
  | .output => operator.outputs

theorem Operator.mem_ports_iff {operator : Operator} {port : Port} :
    port ∈ operator.ports ↔ ∃ side, port ∈ operator.portsOn side := by
  rw [Operator.ports, List.mem_append]
  constructor
  · rintro (isInput | isOutput)
    · exact ⟨.input, isInput⟩
    · exact ⟨.output, isOutput⟩
  · rintro ⟨_ | _, listed⟩
    · exact .inl listed
    · exact .inr listed

theorem Operator.mem_ports_of_mem_portsOn {operator : Operator} (side : PortSide) {port : PortId}
    (member : port ∈ (operator.portsOn side).map Port.id) :
    port ∈ operator.ports.map Port.id := by
  rw [Operator.ports, List.map_append]
  cases side with
  | input => exact List.mem_append_left _ member
  | output => exact List.mem_append_right _ member

namespace Graph

/-- What edits keep true of a graph. -/
structure WellFormed (graph : Graph) : Prop where
  /-- Operators are listed by ascending identifier. -/
  ascending : graph.operators.Pairwise fun before after => before.id.index < after.id.index
  /-- The next identifier is beyond all that were given out. -/
  operatorsBelow : ∀ operator ∈ graph.operators, operator.id.index < graph.nextOperator.index
  /-- Every port belongs to one operator, on one side and at one position. -/
  ports : (graph.operators.flatMap fun operator => operator.ports.map Port.id).Nodup
  portsBelow : ∀ operator ∈ graph.operators, ∀ port ∈ operator.ports,
    port.id.index < graph.nextPort.index
  /-- Edges start at outputs of the graph. -/
  sources : ∀ edge ∈ graph.edges, ∃ operator ∈ graph.operators,
    edge.source ∈ operator.outputs.map Port.id
  /-- Edges end at inputs of the graph. -/
  targets : ∀ edge ∈ graph.edges, ∃ operator ∈ graph.operators,
    edge.target ∈ operator.inputs.map Port.id

/-- A port is the one on a given side at a terminal. -/
def PortAt (graph : Graph) (side : PortSide) (terminal : Terminal) (port : PortId) : Prop :=
  ∃ operator ∈ graph.operators, operator.id = terminal.operator ∧
    ((operator.portsOn side).map Port.id)[terminal.index]? = some port

/-- An edge runs from the output at the first terminal to the input at the second one. -/
def Wired (graph : Graph) (source target : Terminal) : Prop :=
  ∃ output input, graph.PortAt .output source output ∧ graph.PortAt .input target input ∧
    { source := output, target := input } ∈ graph.edges

instance (graph : Graph) (side : PortSide) (terminal : Terminal) (port : PortId) :
    Decidable (graph.PortAt side terminal port) :=
  List.decidableBEx _ graph.operators

theorem wired_iff_exists_edge {graph : Graph} {source target : Terminal} :
    graph.Wired source target ↔ ∃ edge ∈ graph.edges.toList,
      graph.PortAt .output source edge.source ∧ graph.PortAt .input target edge.target := by
  constructor
  · rintro ⟨output, input, sourceAt, targetAt, isEdge⟩
    exact ⟨_, isEdge, sourceAt, targetAt⟩
  · rintro ⟨⟨output, input⟩, isEdge, sourceAt, targetAt⟩
    exact ⟨output, input, sourceAt, targetAt, isEdge⟩

instance (graph : Graph) (source target : Terminal) : Decidable (graph.Wired source target) :=
  decidable_of_iff' _ wired_iff_exists_edge

/-- Some output of the first operator is wired to some input of the second one. -/
def Feeds (graph : Graph) (source target : OperatorId) : Prop :=
  ∃ output input, graph.Wired ⟨source, output⟩ ⟨target, input⟩

/-- No operator feeds itself, directly or through others. -/
def Acyclic (graph : Graph) : Prop := Circuitless graph.Feeds

variable {graph : Graph}

theorem Wired.feeds {source target : Terminal} (wired : graph.Wired source target) :
    graph.Feeds source.operator target.operator :=
  ⟨source.index, target.index, wired⟩

/-! ### Looking operators and ports up -/

theorem placeOn?_eq_some {operator : Operator} {port : PortId} {place : PortPlace}
    (found : placeOn? operator port = some place) :
    place.owner = operator ∧ place.port ∈ operator.portsOn place.side ∧ place.port.id = port := by
  rw [placeOn?] at found
  split at found
  · next input inputFound =>
    obtain rfl := Option.some.inj found
    exact ⟨rfl, List.mem_of_find?_eq_some inputFound, by simpa using List.find?_some inputFound⟩
  · obtain ⟨output, outputFound, rfl⟩ := Option.map_eq_some_iff.1 found
    exact ⟨rfl, List.mem_of_find?_eq_some outputFound, by simpa using List.find?_some outputFound⟩

theorem placeOn?_eq_none {operator : Operator} {port : PortId} (nowhere : placeOn? operator port = none) :
    port ∉ operator.ports.map Port.id := by
  intro owned
  rw [placeOn?] at nowhere
  split at nowhere
  · cases nowhere
  · next noInput =>
    have noOutput := Option.map_eq_none_iff.1 nowhere
    rw [List.find?_eq_none] at noInput noOutput
    obtain ⟨found, isFound, same⟩ := List.mem_map.1 owned
    rcases List.mem_append.1 isFound with isInput | isOutput
    · exact absurd same (by simpa using noInput found isInput)
    · exact absurd same (by simpa using noOutput found isOutput)

/-- Where a port is found, it is listed. -/
theorem place?_eq_some {port : PortId} {place : PortPlace} (found : graph.place? port = some place) :
    place.owner ∈ graph.operators ∧ place.port ∈ place.owner.portsOn place.side ∧
      place.port.id = port := by
  obtain ⟨operator, member, onOperator⟩ := List.exists_of_findSome?_eq_some found
  obtain ⟨rfl, listed, same⟩ := placeOn?_eq_some onOperator
  exact ⟨member, listed, same⟩

/-- The place of a port lists it on its side of its owner. -/
theorem mem_portsOn_of_place? {port : PortId} {place : PortPlace}
    (found : graph.place? port = some place) :
    place.owner ∈ graph.operators ∧ port ∈ (place.owner.portsOn place.side).map Port.id := by
  obtain ⟨member, listed, same⟩ := place?_eq_some found
  exact ⟨member, List.mem_map.2 ⟨place.port, listed, same⟩⟩

namespace WellFormed

theorem nodup_operatorIds (wellFormed : graph.WellFormed) : graph.operatorIds.Nodup := by
  refine List.pairwise_map.2 (wellFormed.ascending.imp fun before same => ?_)
  exact Nat.ne_of_lt before (congrArg Id.index same)

theorem operator_unique (wellFormed : graph.WellFormed) {left right : Operator}
    (leftMember : left ∈ graph.operators) (rightMember : right ∈ graph.operators)
    (same : left.id = right.id) : left = right :=
  List.inj_on_of_nodup_map wellFormed.nodup_operatorIds leftMember rightMember same

theorem operator?_eq_some_iff (wellFormed : graph.WellFormed) {id : OperatorId}
    {operator : Operator} :
    graph.operator? id = some operator ↔ operator ∈ graph.operators ∧ operator.id = id :=
  find?_key_eq_some_iff wellFormed.nodup_operatorIds

/-- A port belongs to one operator. -/
theorem owner_unique (wellFormed : graph.WellFormed) {left right : Operator} {port : PortId}
    (leftMember : left ∈ graph.operators) (rightMember : right ∈ graph.operators)
    (leftPort : port ∈ left.ports.map Port.id) (rightPort : port ∈ right.ports.map Port.id) :
    left = right := by
  by_contra different
  have apart := (List.nodup_flatMap.1 wellFormed.ports).2
  have symmetric : Std.Symm (Function.onFun List.Disjoint fun operator : Operator =>
      operator.ports.map Port.id) := ⟨fun _ _ disjoint => List.Disjoint.symm disjoint⟩
  exact apart.forall leftMember rightMember different leftPort rightPort

/-- The ports that an operator lists have distinct identifiers. -/
theorem nodup_ports (wellFormed : graph.WellFormed) {operator : Operator}
    (member : operator ∈ graph.operators) : (operator.ports.map Port.id).Nodup :=
  (List.nodup_flatMap.1 wellFormed.ports).1 operator member

theorem portsOn_nodup (wellFormed : graph.WellFormed) {operator : Operator}
    (member : operator ∈ graph.operators) (side : PortSide) :
    ((operator.portsOn side).map Port.id).Nodup := by
  have nodup := wellFormed.nodup_ports member
  rw [Operator.ports, List.map_append] at nodup
  cases side with
  | input => exact (List.nodup_append.1 nodup).1
  | output => exact (List.nodup_append.1 nodup).2.1

/-- A port lies at one terminal. -/
theorem portAt_unique (wellFormed : graph.WellFormed) {side : PortSide} {left right : Terminal}
    {port : PortId} (leftAt : graph.PortAt side left port) (rightAt : graph.PortAt side right port) :
    left = right := by
  obtain ⟨owner, ownerMember, leftId, leftFound⟩ := leftAt
  obtain ⟨other, otherMember, rightId, rightFound⟩ := rightAt
  obtain rfl := wellFormed.owner_unique ownerMember otherMember
    (Operator.mem_ports_of_mem_portsOn side (List.mem_of_getElem? leftFound))
    (Operator.mem_ports_of_mem_portsOn side (List.mem_of_getElem? rightFound))
  obtain ⟨bound, -⟩ := List.getElem?_eq_some_iff.1 leftFound
  have indexes := (List.getElem?_inj bound (wellFormed.portsOn_nodup ownerMember side)).1
    (leftFound.trans rightFound.symm)
  cases left; cases right
  cases leftId; cases rightId; cases indexes
  rfl

/-- One port lies at a terminal. -/
theorem portAt_functional (wellFormed : graph.WellFormed) {side : PortSide} {terminal : Terminal}
    {left right : PortId} (leftAt : graph.PortAt side terminal left)
    (rightAt : graph.PortAt side terminal right) : left = right := by
  obtain ⟨owner, ownerMember, leftId, leftFound⟩ := leftAt
  obtain ⟨other, otherMember, rightId, rightFound⟩ := rightAt
  obtain rfl := wellFormed.operator_unique ownerMember otherMember (leftId.trans rightId.symm)
  exact Option.some.inj (leftFound.symm.trans rightFound)

theorem owner?_eq_some_iff (wellFormed : graph.WellFormed) {port : PortId} {operator : Operator} :
    graph.owner? port = some operator ↔
      operator ∈ graph.operators ∧ port ∈ operator.ports.map Port.id := by
  constructor
  · intro found
    obtain ⟨place, placeFound, rfl⟩ := Option.map_eq_some_iff.1 found
    obtain ⟨member, listed⟩ := mem_portsOn_of_place? placeFound
    exact ⟨member, Operator.mem_ports_of_mem_portsOn place.side listed⟩
  · rintro ⟨member, owns⟩
    cases found : graph.place? port with
    | none => exact absurd owns (placeOn?_eq_none (List.findSome?_eq_none_iff.1 found operator member))
    | some place =>
      obtain ⟨isOwner, listed⟩ := mem_portsOn_of_place? found
      rw [owner?, found, Option.map_some, wellFormed.owner_unique isOwner member
        (Operator.mem_ports_of_mem_portsOn place.side listed) owns]

/-- The port at a terminal is owned by the operator of the terminal. -/
theorem owner?_of_portAt (wellFormed : graph.WellFormed) {side : PortSide} {terminal : Terminal}
    {port : PortId} (found : graph.PortAt side terminal port) :
    ∃ operator, graph.owner? port = some operator ∧ operator.id = terminal.operator := by
  obtain ⟨operator, member, same, position⟩ := found
  exact ⟨operator, wellFormed.owner?_eq_some_iff.2
    ⟨member, Operator.mem_ports_of_mem_portsOn side (List.mem_of_getElem? position)⟩, same⟩

/-- Every edge is a wire. -/
theorem exists_wired (wellFormed : graph.WellFormed) {edge : Edge} (member : edge ∈ graph.edges) :
    ∃ source target, graph.PortAt .output source edge.source ∧
      graph.PortAt .input target edge.target ∧
      graph.Wired source target := by
  obtain ⟨producer, producerMember, output⟩ := wellFormed.sources edge member
  obtain ⟨consumer, consumerMember, input⟩ := wellFormed.targets edge member
  obtain ⟨outputIndex, outputFound⟩ := List.mem_iff_getElem?.1 output
  obtain ⟨inputIndex, inputFound⟩ := List.mem_iff_getElem?.1 input
  have sourceAt : graph.PortAt .output ⟨producer.id, outputIndex⟩ edge.source :=
    ⟨producer, producerMember, rfl, outputFound⟩
  have targetAt : graph.PortAt .input ⟨consumer.id, inputIndex⟩ edge.target :=
    ⟨consumer, consumerMember, rfl, inputFound⟩
  exact ⟨_, _, sourceAt, targetAt, _, _, sourceAt, targetAt, member⟩

end WellFormed

/-! ### Neighbours -/

theorem mem_producers {source target : PortId} :
    source ∈ graph.producers target ↔ { source, target } ∈ graph.edges := by
  simp only [producers, List.mem_map, List.mem_filter, decide_eq_true_eq, OrderedSet.mem_toList]
  constructor
  · rintro ⟨⟨first, second⟩, ⟨member, rfl⟩, rfl⟩
    exact member
  · intro member
    exact ⟨_, ⟨member, rfl⟩, rfl⟩

theorem mem_consumers {source target : PortId} :
    target ∈ graph.consumers source ↔ { source, target } ∈ graph.edges := by
  simp only [consumers, List.mem_map, List.mem_filter, decide_eq_true_eq, OrderedSet.mem_toList]
  constructor
  · rintro ⟨⟨first, second⟩, ⟨member, rfl⟩, rfl⟩
    exact member
  · intro member
    exact ⟨_, ⟨member, rfl⟩, rfl⟩

theorem mem_ownersOf {ports : List PortId} {id : OperatorId} :
    id ∈ graph.ownersOf ports ↔
      ∃ port ∈ ports, ∃ operator, graph.owner? port = some operator ∧ operator.id = id := by
  simp only [ownersOf, OrderedSet.mem_ofList, List.mem_filterMap, Option.map_eq_some_iff]

theorem Feeds.operators {source target : OperatorId} (feeds : graph.Feeds source target) :
    (∃ operator ∈ graph.operators, operator.id = source) ∧
      ∃ operator ∈ graph.operators, operator.id = target := by
  obtain ⟨_, _, _, _, ⟨producer, producerMember, isProducer, -⟩,
    ⟨consumer, consumerMember, isConsumer, -⟩, -⟩ := feeds
  exact ⟨⟨producer, producerMember, isProducer⟩, ⟨consumer, consumerMember, isConsumer⟩⟩

/-- The predecessors of an operator are the operators that feed it. -/
theorem mem_predecessors (wellFormed : graph.WellFormed) {source target : OperatorId} :
    source ∈ graph.predecessors target ↔ graph.Feeds source target := by
  constructor
  · intro member
    rw [predecessors] at member
    split at member
    · exact absurd member OrderedSet.not_mem_empty
    · next consumer found =>
      obtain ⟨consumerMember, rfl⟩ := wellFormed.operator?_eq_some_iff.1 found
      obtain ⟨output, outputMember, producer, owned, rfl⟩ := mem_ownersOf.1 member
      obtain ⟨input, inputMember, produces⟩ := List.mem_flatMap.1 outputMember
      obtain ⟨origin, _, originAt, _, _⟩ := wellFormed.exists_wired (mem_producers.1 produces)
      obtain ⟨owner, ownerFound, ownerId⟩ := wellFormed.owner?_of_portAt originAt
      obtain rfl := Option.some.inj (ownerFound.symm.trans owned)
      obtain ⟨position, positionFound⟩ := List.mem_iff_getElem?.1 (List.mem_map_of_mem inputMember)
      refine ⟨origin.index, position, output, input.id, ?_,
        ⟨consumer, consumerMember, rfl, positionFound⟩, mem_producers.1 produces⟩
      rw [ownerId]
      exact originAt
  · rintro ⟨outputIndex, inputIndex, output, input, outputAt, inputAt, edge⟩
    obtain ⟨producer, producerFound, isProducer⟩ := wellFormed.owner?_of_portAt outputAt
    obtain ⟨consumer, consumerMember, isConsumer, inputFound⟩ := inputAt
    obtain ⟨port, portMember, rfl⟩ := List.mem_map.1 (List.mem_of_getElem? inputFound)
    rw [predecessors, wellFormed.operator?_eq_some_iff.2 ⟨consumerMember, isConsumer⟩]
    exact mem_ownersOf.2 ⟨output, List.mem_flatMap.2 ⟨port, portMember, mem_producers.2 edge⟩,
      producer, producerFound, isProducer⟩

/-- The successors of an operator are the operators that it feeds. -/
theorem mem_successors (wellFormed : graph.WellFormed) {source target : OperatorId} :
    target ∈ graph.successors source ↔ graph.Feeds source target := by
  constructor
  · intro member
    rw [successors] at member
    split at member
    · exact absurd member OrderedSet.not_mem_empty
    · next producer found =>
      obtain ⟨producerMember, rfl⟩ := wellFormed.operator?_eq_some_iff.1 found
      obtain ⟨input, inputMember, consumer, owned, rfl⟩ := mem_ownersOf.1 member
      obtain ⟨output, outputMember, consumes⟩ := List.mem_flatMap.1 inputMember
      obtain ⟨_, goal, _, goalAt, _⟩ := wellFormed.exists_wired (mem_consumers.1 consumes)
      obtain ⟨owner, ownerFound, ownerId⟩ := wellFormed.owner?_of_portAt goalAt
      obtain rfl := Option.some.inj (ownerFound.symm.trans owned)
      obtain ⟨position, positionFound⟩ := List.mem_iff_getElem?.1 (List.mem_map_of_mem outputMember)
      refine ⟨position, goal.index, output.id, input, ⟨producer, producerMember, rfl, positionFound⟩,
        ?_, mem_consumers.1 consumes⟩
      rw [ownerId]
      exact goalAt
  · rintro ⟨outputIndex, inputIndex, output, input, outputAt, inputAt, edge⟩
    obtain ⟨consumer, consumerFound, isConsumer⟩ := wellFormed.owner?_of_portAt inputAt
    obtain ⟨producer, producerMember, isProducer, outputFound⟩ := outputAt
    obtain ⟨port, portMember, rfl⟩ := List.mem_map.1 (List.mem_of_getElem? outputFound)
    rw [successors, wellFormed.operator?_eq_some_iff.2 ⟨producerMember, isProducer⟩]
    exact mem_ownersOf.2 ⟨input, List.mem_flatMap.2 ⟨port, portMember, mem_consumers.2 edge⟩,
      consumer, consumerFound, isConsumer⟩

/-- An operator feeds another one when an edge runs from its outputs to the inputs of the other. -/
theorem feeds_iff_exists_edge {source target : OperatorId} :
    graph.Feeds source target ↔ ∃ output input, ⟨output, input⟩ ∈ graph.edges ∧
      (∃ producer ∈ graph.operators, producer.id = source ∧
        output ∈ producer.outputs.map Port.id) ∧
      ∃ consumer ∈ graph.operators, consumer.id = target ∧ input ∈ consumer.inputs.map Port.id := by
  constructor
  · rintro ⟨_, _, output, input, ⟨producer, isProducer, first, outputAt⟩,
      ⟨consumer, isConsumer, second, inputAt⟩, isEdge⟩
    exact ⟨output, input, isEdge, ⟨producer, isProducer, first, List.mem_of_getElem? outputAt⟩,
      consumer, isConsumer, second, List.mem_of_getElem? inputAt⟩
  · rintro ⟨output, input, isEdge, ⟨producer, isProducer, rfl, owned⟩, consumer, isConsumer, rfl,
      owns⟩
    obtain ⟨first, outputAt⟩ := List.mem_iff_getElem?.1 owned
    obtain ⟨second, inputAt⟩ := List.mem_iff_getElem?.1 owns
    exact ⟨first, second, output, input, ⟨producer, isProducer, rfl, outputAt⟩,
      ⟨consumer, isConsumer, rfl, inputAt⟩, isEdge⟩

/-! ### Dependencies -/

theorem mem_operatorIds {id : OperatorId} :
    id ∈ graph.operatorIds ↔ ∃ operator ∈ graph.operators, operator.id = id := by
  simp [operatorIds]

/-- An operator depends on the operators that feed it. -/
theorem depends_dependencies (wellFormed : graph.WellFormed) {target source : OperatorId} :
    graph.dependencies.Depends target source ↔ graph.Feeds source target := by
  rw [dependencies, DependencyGraph.depends_ofLists, List.mem_flatMap]
  constructor
  · rintro ⟨id, -, member⟩
    obtain ⟨predecessor, isPredecessor, same⟩ := List.mem_map.1 member
    cases same
    exact (mem_predecessors wellFormed).1 isPredecessor
  · intro feeds
    exact ⟨target, mem_operatorIds.2 feeds.operators.2,
      List.mem_map.2 ⟨source, (mem_predecessors wellFormed).2 feeds, rfl⟩⟩

theorem mem_vertices_dependencies (wellFormed : graph.WellFormed) {id : OperatorId} :
    id ∈ graph.dependencies.vertices ↔ id ∈ graph.operatorIds := by
  refine DependencyGraph.mem_vertices_ofLists fun arc member => ?_
  obtain ⟨target, targetMember, inRow⟩ := List.mem_flatMap.1 member
  obtain ⟨source, isPredecessor, rfl⟩ := List.mem_map.1 inRow
  exact ⟨targetMember,
    mem_operatorIds.2 ((mem_predecessors wellFormed).1 isPredecessor).operators.1⟩

theorem dependencies_wellFormed : graph.dependencies.WellFormed :=
  DependencyGraph.ofLists_wellFormed

/-- The dependencies of a graph have no circuit exactly when the graph has none. -/
theorem circuitless_dependencies_iff (wellFormed : graph.WellFormed) :
    Circuitless graph.dependencies.Depends ↔ graph.Acyclic := by
  constructor
  · intro circuitless
    exact circuitless.converse.mono fun _ _ feeds => (depends_dependencies wellFormed).2 feeds
  · intro acyclic
    exact (Circuitless.converse acyclic).mono fun _ _ depends =>
      (depends_dependencies wellFormed).1 depends

end Graph

end StagePlanner
