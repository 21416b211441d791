import StagePlanner.Proofs.Graph.Editing

/-!
# Graphs restricted to some operators

Removing operators leaves the graph restricted to the others (`Graph.Restricts`): wires stay between
operators that stay. Restrictions compose.
-/

namespace StagePlanner

namespace Graph

variable {graph : Graph}

theorem portAt_without {operator : Operator} {side : PortSide} {terminal : Terminal} {port : PortId} :
    (graph.without operator).PortAt side terminal port ↔
      graph.PortAt side terminal port ∧ terminal.operator ≠ operator.id := by
  constructor
  · rintro ⟨owner, member, same, position⟩
    obtain ⟨old, differ⟩ := mem_operators_without.1 member
    exact ⟨⟨owner, old, same, position⟩, same ▸ differ⟩
  · rintro ⟨⟨owner, member, same, position⟩, differ⟩
    exact ⟨owner, mem_operators_without.2 ⟨member, same ▸ differ⟩, same, position⟩

/-- Removing an operator removes the wires at it. -/
theorem wired_without (wellFormed : graph.WellFormed) {operator : Operator}
    (member : operator ∈ graph.operators) {source target : Terminal} :
    (graph.without operator).Wired source target ↔ graph.Wired source target ∧
      source.operator ≠ operator.id ∧ target.operator ≠ operator.id := by
  have owned : ∀ {side terminal port}, graph.PortAt side terminal port →
      terminal.operator ≠ operator.id → port ∉ operator.ports.map Port.id := by
    rintro side terminal port ⟨owner, isOwner, same, position⟩ differ owns
    have equal := wellFormed.owner_unique isOwner member
      (Operator.mem_ports_of_mem_portsOn side (List.mem_of_getElem? position)) owns
    exact differ (same ▸ congrArg Operator.id equal)
  constructor
  · rintro ⟨output, input, sourceAt, targetAt, edge⟩
    obtain ⟨oldSource, sourceDiffers⟩ := portAt_without.1 sourceAt
    obtain ⟨oldTarget, targetDiffers⟩ := portAt_without.1 targetAt
    exact ⟨⟨output, input, oldSource, oldTarget, (mem_edges_without.1 edge).1⟩, sourceDiffers,
      targetDiffers⟩
  · rintro ⟨⟨output, input, sourceAt, targetAt, edge⟩, sourceDiffers, targetDiffers⟩
    exact ⟨output, input, portAt_without.2 ⟨sourceAt, sourceDiffers⟩,
      portAt_without.2 ⟨targetAt, targetDiffers⟩, mem_edges_without.2
        ⟨edge, owned sourceAt sourceDiffers, owned targetAt targetDiffers⟩⟩

/-- The first graph is the second one restricted to the operators that stay. -/
structure Restricts (result graph : Graph) (stays : OperatorId → Prop) : Prop where
  wellFormed : result.WellFormed
  operators : ∀ operator, operator ∈ result.operators ↔
    operator ∈ graph.operators ∧ stays operator.id
  wired : ∀ source target, result.Wired source target ↔
    graph.Wired source target ∧ stays source.operator ∧ stays target.operator

theorem Restricts.congr {result : Graph} {stays other : OperatorId → Prop}
    (restricts : result.Restricts graph stays) (same : ∀ id, stays id ↔ other id) :
    result.Restricts graph other := by
  have equal : stays = other := funext fun id => propext (same id)
  rwa [equal] at restricts

theorem WellFormed.restricts_refl (wellFormed : graph.WellFormed) :
    graph.Restricts graph fun _ => True :=
  ⟨wellFormed, by simp, by simp⟩

theorem Restricts.trans {last middle : Graph} {first second : OperatorId → Prop}
    (later : last.Restricts middle second) (earlier : middle.Restricts graph first) :
    last.Restricts graph fun id => first id ∧ second id where
  wellFormed := later.wellFormed
  operators operator := by
    rw [later.operators, earlier.operators, and_assoc]
  wired source target := by
    rw [later.wired, earlier.wired]
    constructor
    · rintro ⟨⟨wired, sourceFirst, targetFirst⟩, sourceSecond, targetSecond⟩
      exact ⟨wired, ⟨sourceFirst, sourceSecond⟩, targetFirst, targetSecond⟩
    · rintro ⟨wired, ⟨sourceFirst, sourceSecond⟩, targetFirst, targetSecond⟩
      exact ⟨⟨wired, sourceFirst, targetFirst⟩, sourceSecond, targetSecond⟩

theorem WellFormed.restricts_without (wellFormed : graph.WellFormed) {operator : Operator}
    (member : operator ∈ graph.operators) :
    (graph.without operator).Restricts graph fun id => id ≠ operator.id where
  wellFormed := wellFormed.without member
  operators _ := mem_operators_without
  wired _ _ := wired_without wellFormed member

/-- Removing several operators restricts the graph to the others. -/
theorem WellFormed.restricts_foldl_without {operators : List Operator}
    (wellFormed : graph.WellFormed) (members : ∀ operator ∈ operators, operator ∈ graph.operators)
    (distinct : operators.Nodup) :
    (operators.foldl Graph.without graph).Restricts graph fun id =>
      id ∉ operators.map Operator.id := by
  induction operators generalizing graph with
  | nil => exact wellFormed.restricts_refl.congr (by simp)
  | cons operator rest ih =>
    obtain ⟨fresh, restDistinct⟩ := List.nodup_cons.1 distinct
    have first := wellFormed.restricts_without (members operator List.mem_cons_self)
    have others := ih first.wellFormed (fun other member => ?_) restDistinct
    · exact (others.trans first).congr fun id => by simp
    · have isOther := members other (List.mem_cons_of_mem _ member)
      refine (first.operators other).2 ⟨isOther, fun same => fresh ?_⟩
      rwa [← wellFormed.operator_unique isOther (members operator List.mem_cons_self) same]

/-- Between operators that stay the edges are the same. -/
theorem Restricts.mem_edges_iff {result : Graph} {stays : OperatorId → Prop}
    (restricts : result.Restricts graph stays) (wellFormed : graph.WellFormed)
    {producer consumer : Operator} (isProducer : producer ∈ result.operators)
    (isConsumer : consumer ∈ result.operators) {output input : PortId}
    (gives : output ∈ producer.outputs.map Port.id) (takes : input ∈ consumer.inputs.map Port.id) :
    ⟨output, input⟩ ∈ result.edges ↔ ⟨output, input⟩ ∈ graph.edges := by
  obtain ⟨first, isOutput⟩ := List.mem_iff_getElem?.1 gives
  obtain ⟨second, isInput⟩ := List.mem_iff_getElem?.1 takes
  have wired : ∀ {graph : Graph}, graph.WellFormed → producer ∈ graph.operators →
      consumer ∈ graph.operators →
        (graph.Wired ⟨producer.id, first⟩ ⟨consumer.id, second⟩ ↔ ⟨output, input⟩ ∈ graph.edges) := by
    intro graph wellFormed isProducer isConsumer
    have sourceAt : graph.PortAt .output ⟨producer.id, first⟩ output :=
      ⟨producer, isProducer, rfl, isOutput⟩
    have targetAt : graph.PortAt .input ⟨consumer.id, second⟩ input :=
      ⟨consumer, isConsumer, rfl, isInput⟩
    constructor
    · rintro ⟨source, target, isSource, isTarget, isEdge⟩
      rwa [wellFormed.portAt_functional isSource sourceAt,
        wellFormed.portAt_functional isTarget targetAt] at isEdge
    · exact fun isEdge => ⟨output, input, sourceAt, targetAt, isEdge⟩
  obtain ⟨oldProducer, producerStays⟩ := (restricts.operators producer).1 isProducer
  obtain ⟨oldConsumer, consumerStays⟩ := (restricts.operators consumer).1 isConsumer
  rw [← wired restricts.wellFormed isProducer isConsumer, ← wired wellFormed oldProducer oldConsumer,
    restricts.wired]
  exact and_iff_left ⟨producerStays, consumerStays⟩

theorem Restricts.feeds_iff {result : Graph} {stays : OperatorId → Prop}
    (restricts : result.Restricts graph stays) {source target : OperatorId} :
    result.Feeds source target ↔ graph.Feeds source target ∧ stays source ∧ stays target := by
  constructor
  · rintro ⟨output, input, wired⟩
    obtain ⟨was, stay⟩ := (restricts.wired _ _).1 wired
    exact ⟨⟨output, input, was⟩, stay⟩
  · rintro ⟨⟨output, input, wired⟩, stay⟩
    exact ⟨output, input, (restricts.wired _ _).2 ⟨wired, stay⟩⟩

theorem Restricts.acyclic {result : Graph} {stays : OperatorId → Prop}
    (restricts : result.Restricts graph stays) (acyclic : graph.Acyclic) : result.Acyclic :=
  Circuitless.mono acyclic fun _ _ feeds => (restricts.feeds_iff.1 feeds).1

end Graph

end StagePlanner
