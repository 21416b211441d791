import StagePlanner.Proofs.Graph.Editing

/-!
# What lookups find

An operator is found by its identifier, a port at the place where it is listed, and the opposites of a
port in ascending order. The changes that edits are made of change these answers only for what they
add or remove.
-/

namespace StagePlanner

/-- The edges of one output are ordered like the inputs that they reach. -/
theorem Edge.compare_of_source (left right : Edge) (same : left.source = right.source) :
    compare left right = compare left.target right.target := by
  have self : compare left.source right.source = .eq := same ▸ Std.ReflCmp.compare_self
  show (compare left.source right.source).then (compare left.target right.target) = _
  rw [self]
  rfl

/-- The edges of one input are ordered like the outputs that they leave. -/
theorem Edge.compare_of_target (left right : Edge) (same : left.target = right.target) :
    compare left right = compare left.source right.source := by
  have self : compare left.target right.target = .eq := same ▸ Std.ReflCmp.compare_self
  show (compare left.source right.source).then (compare left.target right.target) = _
  rw [self]
  cases compare left.source right.source <;> rfl

namespace Graph

variable {graph : Graph}

theorem producers_ascending (graph : Graph) (target : PortId) :
    (graph.producers target).Pairwise fun before after => compare before after = .lt := by
  refine List.pairwise_map.2 ((graph.edges.ascending.filter _).imp_of_mem ?_)
  intro before after isBefore isAfter ascends
  have first : before.target = target := of_decide_eq_true (List.mem_filter.1 isBefore).2
  have second : after.target = target := of_decide_eq_true (List.mem_filter.1 isAfter).2
  rwa [Edge.compare_of_target _ _ (first.trans second.symm)] at ascends

theorem consumers_ascending (graph : Graph) (source : PortId) :
    (graph.consumers source).Pairwise fun before after => compare before after = .lt := by
  refine List.pairwise_map.2 ((graph.edges.ascending.filter _).imp_of_mem ?_)
  intro before after isBefore isAfter ascends
  have first : before.source = source := of_decide_eq_true (List.mem_filter.1 isBefore).2
  have second : after.source = source := of_decide_eq_true (List.mem_filter.1 isAfter).2
  rwa [Edge.compare_of_source _ _ (first.trans second.symm)] at ascends

/-- A port is found where it is listed. -/
theorem WellFormed.place?_of_mem (wellFormed : graph.WellFormed) {operator : Operator}
    (member : operator ∈ graph.operators) {side : PortSide} {port : Port}
    (listed : port ∈ operator.portsOn side) :
    graph.place? port.id = some { port, owner := operator, side } := by
  obtain ⟨place, found, rfl, rfl⟩ := wellFormed.exists_place? member side (List.mem_map_of_mem listed)
  obtain ⟨-, alsoListed, same⟩ := place?_eq_some found
  obtain rfl := List.inj_on_of_nodup_map (wellFormed.portsOn_nodup member _) alsoListed listed same
  exact found

theorem WellFormed.place?_eq_some_iff (wellFormed : graph.WellFormed) {port : PortId} {place : PortPlace} :
    graph.place? port = some place ↔ place.owner ∈ graph.operators ∧
      place.port ∈ place.owner.portsOn place.side ∧ place.port.id = port := by
  refine ⟨place?_eq_some, ?_⟩
  rintro ⟨member, listed, rfl⟩
  exact wellFormed.place?_of_mem member listed

/-! ### After changes -/

/-- Ports that get their identifiers in order are not found beyond the range of these. -/
theorem find?_assignPorts_eq_none {first id : PortId} {shapes : List PortShape}
    (beyond : id.index < first.index ∨ first.index + shapes.length ≤ id.index) :
    ((assignPorts first shapes).find? fun port => port.id = id) = none := by
  refine List.find?_eq_none.2 fun port member same => ?_
  have listed := List.mem_map_of_mem (f := Port.id) member
  rw [map_id_assignPorts, of_decide_eq_true same] at listed
  have bounds := Id.bounds_of_mem_run listed
  omega

theorem WellFormed.operator?_add (wellFormed : graph.WellFormed) (blueprint : Blueprint)
    (id : OperatorId) : (graph.add blueprint).2.operator? id =
      if graph.nextOperator = id then some (graph.added blueprint) else graph.operator? id := by
  refine Option.ext fun operator => ?_
  rw [(wellFormed.add blueprint).operator?_eq_some_iff, operators_add, List.mem_append,
    List.mem_singleton]
  split
  · next same =>
    constructor
    · rintro ⟨old | rfl, equal⟩
      · have below := wellFormed.operatorsBelow operator old
        rw [equal, ← same] at below
        exact absurd below (Nat.lt_irrefl _)
      · rfl
    · rintro ⟨⟩
      exact ⟨.inr rfl, same⟩
  · next different =>
    rw [wellFormed.operator?_eq_some_iff]
    constructor
    · rintro ⟨old | rfl, equal⟩
      · exact ⟨old, equal⟩
      · exact absurd equal different
    · rintro ⟨old, equal⟩
      exact ⟨.inl old, equal⟩

theorem place?_add (graph : Graph) (blueprint : Blueprint) (port : PortId) :
    (graph.add blueprint).2.place? port =
      (graph.place? port).or (placeOn? (graph.added blueprint) port) := by
  rw [place?, operators_add, List.findSome?_append, List.findSome?_singleton, place?]

theorem operator?_without (graph : Graph) (operator : Operator) (id : OperatorId) :
    (graph.without operator).operator? id = if operator.id = id then none else graph.operator? id := by
  have same : (graph.without operator).operator? id =
      graph.operators.find? fun other => other.id ≠ operator.id && other.id = id := by
    rw [operator?, without, detach, List.find?_filter]
    refine congrArg (List.find? · _) (funext fun other => ?_)
    simp
  rw [same]
  split
  · next equal =>
    refine List.find?_eq_none.2 fun other _ both => ?_
    simp only [ne_eq, Bool.and_eq_true, decide_eq_true_eq] at both
    exact both.1 (both.2.trans equal.symm)
  · next different =>
    rw [operator?]
    refine congrArg (List.find? · _) (funext fun other => ?_)
    simp only [ne_eq, Bool.and_eq_right_iff_imp, decide_eq_true_eq]
    rintro rfl equal
    exact different equal.symm

theorem WellFormed.place?_without (wellFormed : graph.WellFormed) {operator : Operator}
    (member : operator ∈ graph.operators) (port : PortId) :
    (graph.without operator).place? port =
      if port ∈ operator.ports.map Port.id then none else graph.place? port := by
  refine Option.ext fun place => ?_
  rw [(wellFormed.without member).place?_eq_some_iff, mem_operators_without]
  split
  · next owned =>
    refine ⟨?_, nofun⟩
    rintro ⟨⟨isOwner, different⟩, listed, rfl⟩
    have alsoOwned := Operator.mem_ports_of_mem_portsOn place.side (List.mem_map_of_mem listed)
    exact absurd (congrArg Operator.id (wellFormed.owner_unique isOwner member alsoOwned owned)) different
  · next unowned =>
    rw [wellFormed.place?_eq_some_iff]
    refine ⟨fun found => ⟨found.1.1, found.2⟩, ?_⟩
    rintro ⟨isOwner, listed, rfl⟩
    refine ⟨⟨isOwner, fun same => unowned ?_⟩, listed, rfl⟩
    rw [← wellFormed.operator_unique isOwner member same]
    exact Operator.mem_ports_of_mem_portsOn place.side (List.mem_map_of_mem listed)

end Graph

end StagePlanner
