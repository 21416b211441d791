import StagePlanner.Proofs.Graph.Renaming
import StagePlanner.Proofs.Preparation.Circuits

/-!
# Redundant terminators

A terminator is redundant at an opposite beside something that is no terminator of its kind, and
beside an earlier one (`Graph.Redundant`). Dropping redundant terminators leaves every port of an
operator that stays connected (`Graph.Clears`), so it keeps a graph closed (`Graph.Pares`), and each
terminator that is left stands alone at its opposites.
-/

namespace StagePlanner

/-- The side on which a terminator faces the rest of a graph. -/
def Marker.facing? : Marker → Option PortSide
  | .begin => some .output
  | .finish => some .input
  | _ => none

namespace Graph

/-- A terminator is redundant at an opposite of one of its ports. -/
def Redundant (graph : Graph) (terminator : Marker) (side : PortSide)
    (port opposite : PortId) : Prop :=
  ∃ operator ∈ graph.operators, ∃ other ∈ (operator.portsOn side).map Port.id,
    side.edge other opposite ∈ graph.edges ∧ other ≠ port ∧
      (operator.isMarkerOf terminator = false ∨ other.index < port.index)

/-- A port is the one with which a terminator faces the rest of a graph. -/
def Terminates (graph : Graph) (side : PortSide) (port : PortId) : Prop :=
  ∃ operator ∈ graph.operators, ∃ terminator : Marker, terminator.facing? = some side ∧
    operator.isMarkerOf terminator = true ∧ port ∈ (operator.portsOn side).map Port.id

/-- Operators and edges of terminators are taken away from a closed graph, which stays closed. -/
structure Pares (graph result : Graph) : Prop where
  closed : result.Closed
  operators : ∀ operator ∈ result.operators, operator ∈ graph.operators
  edges : ∀ edge ∈ result.edges, edge ∈ graph.edges
  kept : ∀ edge ∈ graph.edges, edge ∈ result.edges ∨
    ∃ side port opposite, graph.Terminates side port ∧ edge = side.edge port opposite

/-- A number of terminators and some edges of terminators are taken away; a port that is connected
stays so if its operator stays. -/
structure Clears (graph result : Graph) (removed : Nat) : Prop where
  framed : result.Framed
  operators : result.operators.Sublist graph.operators
  length : result.operators.length + removed = graph.operators.length
  gone : ∀ operator ∈ graph.operators, operator ∉ result.operators → operator.IsTerminator
  edges : ∀ edge ∈ result.edges, edge ∈ graph.edges
  kept : ∀ edge ∈ graph.edges, edge ∈ result.edges ∨
    ∃ side port opposite, graph.Terminates side port ∧ edge = side.edge port opposite
  connected : ∀ operator ∈ result.operators, ∀ side : PortSide,
    ∀ port ∈ (operator.portsOn side).map Port.id,
      (∃ opposite, side.edge port opposite ∈ graph.edges) →
        ∃ opposite, side.edge port opposite ∈ result.edges

/-- The operator with a given identifier, if it is a terminator, is connected and redundant
nowhere. -/
structure Simplified (graph : Graph) (id : OperatorId) : Prop where
  connected : ∀ operator ∈ graph.operators, operator.id = id → ∀ terminator side,
    terminator.facing? = some side → operator.isMarkerOf terminator = true →
      ∀ port ∈ (operator.portsOn side).map Port.id, ∃ opposite,
        side.edge port opposite ∈ graph.edges
  needed : ∀ operator ∈ graph.operators, operator.id = id → ∀ terminator side,
    terminator.facing? = some side → operator.isMarkerOf terminator = true →
      ∀ port ∈ (operator.portsOn side).map Port.id, ∀ opposite,
        side.edge port opposite ∈ graph.edges → ¬ graph.Redundant terminator side port opposite

variable {graph middle result : Graph} {terminator : Marker} {side : PortSide}

theorem Terminates.of_operators {port : PortId} (terminates : middle.Terminates side port)
    (operators : ∀ operator ∈ middle.operators, operator ∈ graph.operators) :
    graph.Terminates side port := by
  obtain ⟨operator, isThere, terminator⟩ := terminates
  exact ⟨operator, operators operator isThere, terminator⟩

theorem Clears.refl (framed : graph.Framed) : graph.Clears graph 0 :=
  ⟨framed, .refl _, rfl, fun _ member gone => absurd member gone, fun _ => id, fun _ => .inl,
    fun _ _ _ _ _ => id⟩

theorem Clears.trans {first second : Nat} (before : graph.Clears middle first)
    (after : middle.Clears result second) : graph.Clears result (first + second) where
  framed := after.framed
  operators := after.operators.trans before.operators
  length := by rw [← before.length, ← after.length]; omega
  gone operator member gone := by
    by_cases between : operator ∈ middle.operators
    · exact after.gone operator between gone
    · exact before.gone operator member between
  edges edge member := before.edges edge (after.edges edge member)
  kept edge member := by
    rcases before.kept edge member with between | lost
    · refine (after.kept edge between).imp_right ?_
      rintro ⟨side, port, opposite, terminates, same⟩
      exact ⟨side, port, opposite, terminates.of_operators fun _ => before.operators.mem, same⟩
    · exact .inr lost
  connected operator member side port owned isConnected :=
    after.connected operator member side port owned
      (before.connected operator (after.operators.mem member) side port owned isConnected)

/-- Nothing becomes redundant when operators and edges are taken away. -/
theorem Simplified.cleared {id : OperatorId} {removed : Nat} (simplified : graph.Simplified id)
    (clears : graph.Clears result removed) : result.Simplified id where
  connected operator member same terminator side faces isTerminator port owned :=
    clears.connected operator member side port owned (simplified.connected operator
      (clears.operators.mem member) same terminator side faces isTerminator port owned)
  needed operator member same terminator side faces isTerminator port owned opposite isEdge
      redundant := by
    obtain ⟨found, isFound, other, gives, isOther, differs, beside⟩ := redundant
    exact simplified.needed operator (clears.operators.mem member) same terminator side faces
      isTerminator port owned opposite (clears.edges _ isEdge)
      ⟨found, clears.operators.mem isFound, other, gives, clears.edges _ isOther, differs, beside⟩

/-- What makes a terminator redundant does not depend on the edges of the terminator itself. -/
theorem redundant_unlink_iff {port item opposite : PortId} :
    (graph.unlink (side.edge port item).source (side.edge port item).target).Redundant terminator side
        port opposite ↔ graph.Redundant terminator side port opposite := by
  refine exists_congr fun operator => and_congr_right fun _ => exists_congr fun other =>
    and_congr_right fun _ => ?_
  rw [← and_assoc, ← and_assoc]
  refine and_congr_left fun _ => and_congr_left fun differs => ?_
  rw [unlink, OrderedSet.mem_erase]
  exact and_iff_left fun equal => differs (PortSide.edge_inj.1 equal).1

theorem WellFormed.isRedundantAt_iff (wellFormed : graph.WellFormed) {port opposite : PortId}
    (owned : ∃ operator ∈ graph.operators, opposite ∈ (operator.portsOn side.opposite).map Port.id) :
    graph.isRedundantAt terminator port opposite = true ↔
      graph.Redundant terminator side port opposite := by
  obtain ⟨owner, isOwner, owns⟩ := owned
  have listed : ∀ other, other ∈ graph.opposites opposite ↔
      side.edge other opposite ∈ graph.edges := fun other => by
    rw [wellFormed.mem_opposites side.opposite isOwner owns, PortSide.edge_opposite]
  simp only [isRedundantAt, List.any_eq_true, listed, Bool.and_eq_true, decide_eq_true_eq,
    Option.any_eq_true, Bool.or_eq_true, Bool.not_eq_true']
  constructor
  · rintro ⟨other, isEdge, differs, operator, found, beside⟩
    obtain ⟨member, owned⟩ := wellFormed.owner?_eq_some_iff.1 found
    exact ⟨operator, member, other, wellFormed.mem_portsOn_of_edge side member owned isEdge, isEdge,
      differs, beside⟩
  · rintro ⟨operator, member, other, gives, isEdge, differs, beside⟩
    exact ⟨other, isEdge, differs, operator, wellFormed.owner?_eq_some_iff.2
      ⟨member, Operator.mem_ports_of_mem_portsOn side gives⟩, beside⟩

end Graph

/-- What faces the rest of a graph on one side is a terminator. -/
theorem Operator.IsTerminator.of_facing {operator : Operator} {terminator : Marker} {side : PortSide}
    (faces : terminator.facing? = some side) (isMarker : operator.isMarkerOf terminator = true) :
    operator.IsTerminator := by
  cases terminator with
  | begin => exact .inl isMarker
  | finish => exact .inr isMarker
  | _ => cases faces

/-- A terminator is the marker that it is, with its first port on the side that faces the graph. -/
theorem Operator.terminator?_eq_some {operator : Operator} {terminator : Marker} {port : PortId} :
    operator.terminator? = some (terminator, port) ↔ ∃ side, terminator.facing? = some side ∧
      operator.isMarkerOf terminator = true ∧
        (operator.portsOn side).head?.map Port.id = some port := by
  rw [terminator?, isMarkerOf]
  cases operator.marker? with
  | none => simp
  | some marker =>
    cases marker <;> cases terminator <;>
      simp [Marker.facing?, portsOn, Option.map_eq_some_iff]

namespace Graph

variable {graph middle result : Graph} {terminator : Marker} {side : PortSide}

/-- The ports of a terminator. -/
theorem Framed.ports_of_terminator (framed : graph.Framed) {operator : Operator}
    (member : operator ∈ graph.operators) (faces : terminator.facing? = some side)
    (isTerminator : operator.isMarkerOf terminator = true) :
    (∃ port, (operator.portsOn side).map Port.id = [port]) ∧
      ∀ port ∈ (operator.portsOn side.opposite).map Port.id, ∀ opposite,
        side.opposite.edge port opposite ∉ graph.edges := by
  cases terminator with
  | begin =>
    cases faces
    obtain ⟨port, single⟩ := List.length_eq_one_iff.1 (framed.oneOutput operator member isTerminator)
    exact ⟨⟨port.id, by rw [Operator.portsOn, single]; rfl⟩,
      framed.unfed operator member isTerminator⟩
  | finish =>
    cases faces
    obtain ⟨port, single⟩ := List.length_eq_one_iff.1 (framed.oneInput operator member isTerminator)
    exact ⟨⟨port.id, by rw [Operator.portsOn, single]; rfl⟩,
      framed.unread operator member isTerminator⟩
  | _ => cases faces

/-- Nothing is to be dropped where no terminator is. -/
theorem Framed.simplified_of_no_terminator (framed : graph.Framed) {id : OperatorId}
    (isNone : (graph.operator? id).bind Operator.terminator? = none) : graph.Simplified id := by
  have noTerminator : ∀ operator ∈ graph.operators, operator.id = id → ∀ terminator side,
      Marker.facing? terminator = some side → operator.isMarkerOf terminator = false := by
    rintro operator member rfl terminator side faces
    by_contra isTerminator
    rw [Bool.not_eq_false] at isTerminator
    obtain ⟨⟨port, single⟩, -⟩ := framed.ports_of_terminator member faces isTerminator
    have isSome : operator.terminator? = some (terminator, port) :=
      Operator.terminator?_eq_some.2 ⟨side, faces, isTerminator, by
        rw [← List.head?_map, single]
        rfl⟩
    rw [framed.wellFormed.operator?_eq_some_iff.2 ⟨member, rfl⟩, Option.bind_some, isSome] at isNone
    cases isNone
  constructor <;>
  · intro operator member same terminator side faces isTerminator
    rw [noTerminator operator member same terminator side faces] at isTerminator
    cases isTerminator

/-- A port of a closed graph has an opposite unless it is the outer one of a terminator. -/
theorem Closed.exists_opposite (closed : graph.Closed) {operator : Operator}
    (member : operator ∈ graph.operators) (side : PortSide)
    (inner : ∀ terminator, terminator.facing? = some side.opposite →
      operator.isMarkerOf terminator = false) {port : PortId}
    (owned : port ∈ (operator.portsOn side).map Port.id) :
    ∃ opposite, side.edge port opposite ∈ graph.edges := by
  cases side with
  | input => exact closed.fed operator member (inner .begin rfl) port owned
  | output => exact closed.read operator member (inner .finish rfl) port owned

theorem Framed.closed (framed : graph.Framed)
    (opposites : ∀ operator ∈ graph.operators, ∀ side : PortSide,
      (∀ terminator, terminator.facing? = some side.opposite →
        operator.isMarkerOf terminator = false) →
      ∀ port ∈ (operator.portsOn side).map Port.id,
        ∃ opposite, side.edge port opposite ∈ graph.edges) : graph.Closed where
  toFramed := framed
  fed operator member notBegin := by
    refine opposites operator member .input fun terminator faces => ?_
    cases terminator <;> first | exact notBegin | cases faces
  read operator member notFinish := by
    refine opposites operator member .output fun terminator faces => ?_
    cases terminator <;> first | exact notFinish | cases faces

/-- A terminator loses its redundant edges, and goes with its last one. -/
structure Drops (graph result : Graph) (terminator : Marker) (side : PortSide) (port : PortId)
    (removed : Nat) : Prop where
  wellFormed : result.WellFormed
  operators : result.operators.Sublist graph.operators
  length : result.operators.length + removed = graph.operators.length
  gone : ∀ operator ∈ graph.operators, operator ∉ result.operators →
    operator.isMarkerOf terminator = true
  edges : ∀ edge, edge ∈ result.edges ↔ edge ∈ graph.edges ∧
    ∀ opposite, edge = side.edge port opposite → ¬ graph.Redundant terminator side port opposite
  needed : ∀ operator ∈ result.operators, port ∈ (operator.portsOn side).map Port.id →
    ∃ opposite, side.edge port opposite ∈ result.edges

/-- A terminator that is still needed somewhere stays. -/
theorem drops_of_needed (same : graph.SameButEdges middle) (wellFormed : middle.WellFormed)
    {port opposite : PortId}
    (edges : ∀ edge, edge ∈ middle.edges ↔ edge ∈ graph.edges ∧
      ∀ opposite, edge = side.edge port opposite → ¬ graph.Redundant terminator side port opposite)
    (isEdge : side.edge port opposite ∈ middle.edges) :
    graph.Drops middle terminator side port 0 where
  wellFormed := wellFormed
  operators := same.operators ▸ .refl _
  length := by rw [same.operators]; rfl
  gone _ member gone := absurd (same.operators ▸ member) gone
  edges := edges
  needed _ _ _ := ⟨opposite, isEdge⟩

/-- A terminator that was detached everywhere is removed. -/
theorem drops_without (wellFormed : graph.WellFormed) {operator : Operator}
    (member : operator ∈ graph.operators) (isTerminator : operator.isMarkerOf terminator = true)
    {port : PortId} (single : (operator.portsOn side).map Port.id = [port])
    (outer : ∀ other ∈ (operator.portsOn side.opposite).map Port.id, ∀ opposite,
      side.opposite.edge other opposite ∉ graph.edges)
    (same : graph.SameButEdges middle) (middleWellFormed : middle.WellFormed)
    (edges : ∀ edge, edge ∈ middle.edges ↔ edge ∈ graph.edges ∧
      ∀ opposite, edge = side.edge port opposite → ¬ graph.Redundant terminator side port opposite)
    (detached : ∀ opposite, side.edge port opposite ∉ middle.edges) :
    graph.Drops (middle.without operator) terminator side port 1 := by
  have stillThere : operator ∈ middle.operators := same.operators.symm ▸ member
  have bare : ∀ (at_ : PortSide) {other opposite : PortId},
      at_.edge other opposite ∈ middle.edges → other ∉ operator.ports.map Port.id := by
    intro at_ other opposite isEdge owned
    have isOld := ((edges _).1 isEdge).1
    have owns := wellFormed.mem_portsOn_of_edge at_ member owned isOld
    rcases side.eq_or_eq_opposite at_ with rfl | rfl
    · rw [single, List.mem_singleton] at owns
      exact detached opposite (owns ▸ isEdge)
    · exact outer other owns opposite isOld
  have erased : (middle.without operator).operators = graph.operators.erase operator :=
    (middleWellFormed.operators_without stillThere).trans (by rw [same.operators])
  refine ⟨middleWellFormed.without stillThere, ?_, ?_, fun other isOther gone => ?_, fun edge => ?_,
    fun other isOther owned => ?_⟩
  · rw [erased]
    exact List.erase_sublist
  · rw [erased, List.length_erase_of_mem member]
    have := List.length_pos_of_mem member
    omega
  · obtain rfl : other = operator := by
      by_contra differs
      exact gone (erased ▸ (List.mem_erase_of_ne differs).2 isOther)
    exact isTerminator
  · rw [← edges, Graph.mem_edges_without, and_iff_left_iff_imp]
    exact fun isEdge => ⟨bare .output isEdge, bare .input isEdge⟩
  · obtain ⟨isOld, differs⟩ := Graph.mem_operators_without.1 isOther
    refine absurd (congrArg Operator.id (middleWellFormed.owner_unique isOld stillThere
      (Operator.mem_ports_of_mem_portsOn side owned)
      (Operator.mem_ports_of_mem_portsOn side ?_))) differs
    rw [single]
    exact List.mem_cons_self

variable {removed : Nat}

theorem Drops.clears (drops : graph.Drops result terminator side port removed)
    (framed : graph.Framed) (faces : terminator.facing? = some side)
    (terminates : graph.Terminates side port) : graph.Clears result removed where
  framed := framed.of_edges drops.wellFormed (fun _ => drops.operators.mem)
    (fun source target isEdge => ⟨source, ((drops.edges _).1 isEdge).1⟩)
    fun source target isEdge => ⟨target, ((drops.edges _).1 isEdge).1⟩
  operators := drops.operators
  length := drops.length
  gone operator member gone := .of_facing faces (drops.gone operator member gone)
  edges edge isEdge := ((drops.edges edge).1 isEdge).1
  kept edge isEdge := by
    by_contra lost
    obtain ⟨isLost, notOwn⟩ := not_or.1 lost
    exact isLost ((drops.edges edge).2 ⟨isEdge, fun opposite same _ =>
      notOwn ⟨side, port, opposite, terminates, same⟩⟩)
  connected operator member at_ other owned := by
    rintro ⟨opposite, isEdge⟩
    by_cases stays : at_.edge other opposite ∈ result.edges
    · exact ⟨opposite, stays⟩
    obtain ⟨item, same, redundant⟩ : ∃ item, at_.edge other opposite = side.edge port item ∧
        graph.Redundant terminator side port item := by
      by_contra none
      exact stays ((drops.edges _).2 ⟨isEdge, fun item same redundant => none ⟨item, same, redundant⟩⟩)
    rcases side.eq_or_eq_opposite at_ with rfl | rfl
    · obtain ⟨rfl, -⟩ := PortSide.edge_inj.1 same
      exact drops.needed operator member owned
    · -- What makes the terminator redundant is still connected.
      rw [PortSide.edge_opposite] at same
      obtain ⟨rfl, rfl⟩ := PortSide.edge_inj.1 same
      obtain ⟨-, -, another, -, isOther, differs, -⟩ := redundant
      refine ⟨another, ?_⟩
      rw [PortSide.edge_opposite]
      exact (drops.edges _).2 ⟨isOther, fun _ equal => absurd (PortSide.edge_inj.1 equal).1 differs⟩

/-- A closed graph stays closed when terminators are taken away. -/
theorem Clears.pares (clears : graph.Clears result removed) (closed : graph.Closed) :
    graph.Pares result where
  closed := clears.framed.closed fun operator member side inner port owned =>
    clears.connected operator member side port owned
      (closed.exists_opposite (clears.operators.mem member) side inner owned)
  operators _ := clears.operators.mem
  edges := clears.edges
  kept := clears.kept

/-- A terminator that lost its redundant edges is connected and redundant nowhere. -/
theorem Drops.simplified (drops : graph.Drops result terminator side port removed)
    (wellFormed : graph.WellFormed) (faces : terminator.facing? = some side) {operator : Operator}
    (member : operator ∈ graph.operators) (isTerminator : operator.isMarkerOf terminator = true)
    (owned : (operator.portsOn side).map Port.id = [port]) : result.Simplified operator.id := by
  -- The operator can be no terminator of another kind.
  have only : ∀ found ∈ result.operators, found.id = operator.id → ∀ other otherSide,
      Marker.facing? other = some otherSide → found.isMarkerOf other = true →
        found = operator ∧ other = terminator ∧ otherSide = side := by
    intro found isThere same other otherSide alsoFaces isOther
    obtain rfl := wellFormed.operator_unique (drops.operators.mem isThere) member same
    obtain rfl : other = terminator := Option.some.inj
      ((of_decide_eq_true isOther).symm.trans (of_decide_eq_true isTerminator))
    exact ⟨rfl, rfl, Option.some.inj (alsoFaces.symm.trans faces)⟩
  constructor
  · intro found isThere same other otherSide alsoFaces isOther another owns
    obtain ⟨rfl, rfl, rfl⟩ := only found isThere same other otherSide alsoFaces isOther
    rw [owned, List.mem_singleton] at owns
    subst owns
    exact drops.needed found isThere (owned ▸ List.mem_cons_self)
  · intro found isThere same other otherSide alsoFaces isOther another owns opposite isEdge redundant
    obtain ⟨rfl, rfl, rfl⟩ := only found isThere same other otherSide alsoFaces isOther
    rw [owned, List.mem_singleton] at owns
    subst owns
    obtain ⟨producer, isProducer, source, gives, isSource, differs, beside⟩ := redundant
    exact ((drops.edges _).1 isEdge).2 opposite rfl ⟨producer, drops.operators.mem isProducer,
      source, gives, ((drops.edges _).1 isSource).1, differs, beside⟩

/-- Every terminator is connected, and alone at its opposites. -/
structure Trim (graph : Graph) : Prop where
  connected : ∀ operator ∈ graph.operators, ∀ terminator side,
    terminator.facing? = some side → operator.isMarkerOf terminator = true →
      ∀ port ∈ (operator.portsOn side).map Port.id, ∃ opposite,
        side.edge port opposite ∈ graph.edges
  alone : ∀ operator ∈ graph.operators, ∀ terminator side,
    terminator.facing? = some side → operator.isMarkerOf terminator = true →
      ∀ port ∈ (operator.portsOn side).map Port.id, ∀ opposite,
        side.edge port opposite ∈ graph.edges → ∀ other,
          side.edge other opposite ∈ graph.edges → other = port

/-- Terminators that are redundant nowhere are alone. -/
theorem WellFormed.trim (wellFormed : graph.WellFormed)
    (simplified : ∀ operator ∈ graph.operators, graph.Simplified operator.id) : graph.Trim where
  connected operator member := (simplified operator member).connected operator member rfl
  alone operator member terminator side faces isTerminator port owned opposite isEdge other
      isOther := by
    by_contra differs
    obtain ⟨found, isFound, owns⟩ := wellFormed.owner_of_edge side isOther
    have notBeside := (simplified operator member).needed operator member rfl terminator side faces
      isTerminator port owned opposite isEdge
    -- Both are terminators of one kind, so neither has a smaller index than the other one.
    have alsoTerminator : found.isMarkerOf terminator = true := by
      by_contra isOther_
      exact notBeside ⟨found, isFound, other, owns, isOther, differs, .inl (by simpa using isOther_)⟩
    have notBefore : ¬ other.index < port.index := fun before =>
      notBeside ⟨found, isFound, other, owns, isOther, differs, .inr before⟩
    have notAfter : ¬ port.index < other.index := fun after =>
      (simplified found isFound).needed found isFound rfl terminator side faces alsoTerminator other
        owns opposite isOther ⟨operator, member, port, owned, isEdge, Ne.symm differs, .inr after⟩
    have same : other.index = port.index := by omega
    cases other
    cases port
    exact differs (congrArg Id.mk same)

end Graph

namespace Edit

variable {graph result : Graph} {terminator : Marker} {side : PortSide} {port : PortId}

/-- A terminator is detached from an opposite on the side that it faces. -/
theorem yields_detach {α : Type} {value : α} {rest : Edit α} (faces : terminator.facing? = some side)
    {opposite : PortId}
    (yields : Yields (do
      let _ ← if terminator = .begin then disconnect port opposite else disconnect opposite port
      rest) graph value result) :
    rest.Yields (graph.unlink (side.edge port opposite).source (side.edge port opposite).target) value
      result := by
  cases terminator with
  | begin =>
    cases faces
    obtain ⟨_, _, detached, later⟩ := yields_bind.1 yields
    exact yields_disconnect detached ▸ later
  | finish =>
    cases faces
    obtain ⟨_, _, detached, later⟩ := yields_bind.1 yields
    exact yields_disconnect detached ▸ later
  | _ => cases faces

/-- What is left of the edges of a terminator, and whether something is left at all. -/
theorem yields_detachRedundant (wellFormed : graph.WellFormed)
    (faces : terminator.facing? = some side) {items : List PortId}
    (owned : ∀ item ∈ items, ∃ operator ∈ graph.operators,
      item ∈ (operator.portsOn side.opposite).map Port.id) {isLeft : Bool}
    (yields : (detachRedundant terminator port items).Yields graph isLeft result) :
    graph.SameButEdges result ∧
      (∀ edge, edge ∈ result.edges ↔ edge ∈ graph.edges ∧ ∀ item ∈ items,
        edge = side.edge port item → ¬ graph.Redundant terminator side port item) ∧
      (isLeft = true ↔ ∃ item ∈ items, ¬ graph.Redundant terminator side port item) := by
  induction items generalizing graph isLeft with
  | nil =>
    obtain ⟨rfl, rfl⟩ := yields_pure.1 yields
    exact ⟨.refl graph, by simp, by simp⟩
  | cons item rest ih =>
    obtain ⟨ownsItem, ownsRest⟩ := List.forall_mem_cons.1 owned
    obtain ⟨_, _, seen, tested⟩ := yields_bind.1 yields
    obtain ⟨rfl, rfl⟩ := yields_get.1 seen
    rw [List.exists_mem_cons_iff]
    simp only [List.forall_mem_cons]
    split at tested
    · next isRedundant =>
      rw [wellFormed.isRedundantAt_iff ownsItem] at isRedundant
      obtain ⟨same, edges, left⟩ := ih (wellFormed.unlink _ _) ownsRest (yields_detach faces tested)
      have cut : ∀ edge, edge ∈ (graph.unlink (side.edge port item).source
          (side.edge port item).target).edges ↔ edge ∈ graph.edges ∧ edge ≠ side.edge port item :=
        fun edge => OrderedSet.mem_erase
      refine ⟨(Graph.sameButEdges_unlink graph _ _).trans same, fun edge => ?_, ?_⟩
      · simp only [edges, cut, Graph.redundant_unlink_iff, isRedundant, not_true_eq_false, imp_false,
          and_assoc, ne_eq]
      · rw [left]
        simp only [Graph.redundant_unlink_iff, isRedundant, not_true_eq_false, false_or]
    · next notRedundant =>
      rw [wellFormed.isRedundantAt_iff ownsItem] at notRedundant
      obtain ⟨_, middle, later, returned⟩ := yields_bind.1 tested
      obtain ⟨rfl, rfl⟩ := yields_pure.1 returned
      obtain ⟨same, edges, -⟩ := ih wellFormed ownsRest later
      exact ⟨same, by simpa [notRedundant] using edges, by simp [notRedundant]⟩

/-- A terminator that is detached from all of its opposites where it is redundant, and removed if
nothing is left, has dropped its redundant edges. -/
theorem drops_of_detachRedundant (wellFormed : graph.WellFormed) {operator : Operator}
    (member : operator ∈ graph.operators) (faces : terminator.facing? = some side)
    (isTerminator : operator.isMarkerOf terminator = true)
    (single : (operator.portsOn side).map Port.id = [port])
    (outer : ∀ other ∈ (operator.portsOn side.opposite).map Port.id, ∀ opposite,
      side.opposite.edge other opposite ∉ graph.edges) {dropped : Bool}
    (yields : Yields (do
      if ← detachRedundant terminator port (graph.opposites port) then return false
      let _ ← remove operator.id
      return true) graph dropped result) :
    graph.Drops result terminator side port (if dropped then 1 else 0) := by
  have listed : ∀ opposite, opposite ∈ graph.opposites port ↔
      side.edge port opposite ∈ graph.edges := fun opposite =>
    wellFormed.mem_opposites side member (by rw [single]; exact List.mem_cons_self)
  obtain ⟨isLeft, middle, detached, removed⟩ := yields_bind.1 yields
  obtain ⟨same, remaining, left⟩ := yields_detachRedundant wellFormed faces (fun item isItem =>
    wellFormed.owner_of_edge side.opposite (by
      rw [PortSide.edge_opposite]
      exact (listed item).1 isItem)) detached
  have middleWellFormed := same.wellFormed wellFormed fun edge isEdge => ((remaining edge).1 isEdge).1
  have edges : ∀ edge, edge ∈ middle.edges ↔ edge ∈ graph.edges ∧ ∀ opposite,
      edge = side.edge port opposite → ¬ graph.Redundant terminator side port opposite := by
    intro edge
    rw [remaining]
    refine and_congr_right fun isEdge => forall_congr' fun item => ?_
    exact ⟨fun detaches isOwn => detaches ((listed item).2 (isOwn ▸ isEdge)) isOwn,
      fun detaches _ => detaches⟩
  split at removed
  · next someLeft =>
    obtain ⟨rfl, rfl⟩ := yields_pure.1 removed
    obtain ⟨item, isItem, notRedundant⟩ := left.1 someLeft
    refine Graph.drops_of_needed same middleWellFormed edges
      ((edges _).2 ⟨(listed item).1 isItem, fun opposite equal => ?_⟩)
    rwa [← (PortSide.edge_inj.1 equal).2]
  · next noneLeft =>
    obtain ⟨taken, _, isTaken, returned⟩ := yields_bind.1 removed
    obtain ⟨rfl, rfl⟩ := yields_pure.1 returned
    obtain ⟨found, rfl⟩ := yields_remove.1 isTaken
    obtain ⟨stays, sameId⟩ := Graph.mem_of_operator found
    obtain rfl := middleWellFormed.operator_unique stays (same.operators.symm ▸ member) sameId
    refine Graph.drops_without wellFormed member isTerminator single outer same middleWellFormed
      edges fun opposite isEdge => ?_
    obtain ⟨isOld, needed⟩ := (edges _).1 isEdge
    exact noneLeft (left.2 ⟨opposite, (listed opposite).2 isOld, needed opposite rfl⟩)

/-- A terminator is dropped where it is redundant. -/
theorem simplified_simplifyTerminator (framed : graph.Framed) {id : OperatorId} {dropped : Bool}
    (yields : (simplifyTerminator id).Yields graph dropped result) :
    graph.Clears result (if dropped then 1 else 0) ∧ result.Simplified id := by
  have wellFormed := framed.wellFormed
  obtain ⟨_, _, seen, rest⟩ := yields_bind.1 yields
  obtain ⟨rfl, rfl⟩ := yields_get.1 seen
  split at rest
  · next isNone =>
    obtain ⟨rfl, rfl⟩ := yields_pure.1 rest
    exact ⟨.refl framed, framed.simplified_of_no_terminator isNone⟩
  · next terminator port found =>
    obtain ⟨operator, isThere, isSome⟩ := Option.bind_eq_some_iff.1 found
    obtain ⟨member, rfl⟩ := wellFormed.operator?_eq_some_iff.1 isThere
    obtain ⟨side, faces, isTerminator, isPort⟩ := Operator.terminator?_eq_some.1 isSome
    obtain ⟨⟨first, single⟩, outer⟩ := framed.ports_of_terminator member faces isTerminator
    obtain rfl : first = port := by
      rw [← List.head?_map, single] at isPort
      exact Option.some.inj isPort
    have drops := drops_of_detachRedundant wellFormed member faces isTerminator single outer rest
    have terminates : graph.Terminates side first :=
      ⟨operator, member, terminator, faces, isTerminator, by rw [single]; exact List.mem_cons_self⟩
    exact ⟨drops.clears framed faces terminates,
      drops.simplified wellFormed faces member isTerminator single⟩

/-- Every terminator is dropped where it is redundant. -/
theorem simplified_countChanges (framed : graph.Framed) {ids : List OperatorId} {count : Nat}
    (yields : (countChanges simplifyTerminator ids).Yields graph count result) :
    graph.Clears result count ∧ ∀ id ∈ ids, result.Simplified id := by
  induction ids generalizing graph count with
  | nil =>
    obtain ⟨rfl, rfl⟩ := yields_pure.1 yields
    exact ⟨.refl framed, nofun⟩
  | cons id rest ih =>
    obtain ⟨_, middle, first, later⟩ := yields_bind.1 yields
    obtain ⟨_, _, others, returned⟩ := yields_bind.1 later
    obtain ⟨rfl, rfl⟩ := yields_pure.1 returned
    obtain ⟨clears, simplified⟩ := simplified_simplifyTerminator framed first
    obtain ⟨clearsLater, simplifiedLater⟩ := ih clears.framed others
    exact ⟨clears.trans clearsLater,
      List.forall_mem_cons.2 ⟨simplified.cleared clearsLater, simplifiedLater⟩⟩

/-- A terminator that is left is connected and stands alone at its opposites. -/
theorem trim_simplifyTerminators (framed : graph.Framed) {count : Nat}
    (yields : simplifyTerminators.Yields graph count result) :
    graph.Clears result count ∧ result.Trim := by
  obtain ⟨_, _, seen, counted⟩ := yields_bind.1 yields
  obtain ⟨rfl, rfl⟩ := yields_get.1 seen
  obtain ⟨clears, simplified⟩ := simplified_countChanges framed counted
  exact ⟨clears, clears.framed.wellFormed.trim fun operator member => simplified operator.id
    (Graph.mem_operatorIds.2 ⟨operator, clears.operators.mem member, rfl⟩)⟩

/-- In a closed graph the same holds, and it stays closed. -/
theorem alone_simplifyTerminators (closed : graph.Closed) {count : Nat}
    (yields : simplifyTerminators.Yields graph count result) :
    graph.Pares result ∧ ∀ operator ∈ result.operators, ∀ terminator side,
      terminator.facing? = some side → operator.isMarkerOf terminator = true →
        ∀ port ∈ (operator.portsOn side).map Port.id, ∀ opposite,
          side.edge port opposite ∈ result.edges → ∀ other,
            side.edge other opposite ∈ result.edges → other = port := by
  obtain ⟨clears, trim⟩ := trim_simplifyTerminators closed.toFramed yields
  exact ⟨clears.pares closed, trim.alone⟩

end Edit

end StagePlanner
