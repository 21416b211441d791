import StagePlanner.Preparation.Terminator
import StagePlanner.Proofs.Graph.Renaming

/-!
# Terminators at dangling ports

Attaching terminators puts one at every port that dangles and changes nothing else. What it leaves
is described exactly (`Graph.Capped`): the operators that were there and the new terminators, the
edges that were there and one for each new terminator. It follows that a new terminator has no
other edge, and that it is the only opposite of its port.
-/

namespace StagePlanner

/-- The terminator that faces the rest of a graph on a side. -/
def PortSide.terminator : PortSide → Marker
  | .input => .finish
  | .output => .begin

/-- A terminator faces a graph on one side. -/
theorem Operator.side_unique {operator : Operator} {side other : PortSide}
    (onSide : operator.isMarkerOf side.terminator = true)
    (onOther : operator.isMarkerOf other.terminator = true) : side = other := by
  have same := Option.some.inj ((of_decide_eq_true onSide).symm.trans (of_decide_eq_true onOther))
  cases side <;> cases other <;> first | rfl | cases same

/-- A terminator with the port on which it faces a graph, and the port that it is attached to. -/
structure Cap where
  side : PortSide
  terminator : Operator
  inner : PortId
  port : PortId

/-- The edge of a terminator. -/
def Cap.edge (cap : Cap) : Edge := cap.side.edge cap.inner cap.port

namespace Graph

/-- The ports to which terminators are attached that face the graph on a side. -/
def dangling (graph : Graph) : PortSide → List Port
  | .input => graph.danglingOutputs
  | .output => graph.danglingInputs

/-- The second graph is the first one with new terminators. -/
structure Capped (graph result : Graph) (caps : List Cap) : Prop where
  wellFormed : result.WellFormed
  operators : result.operators = graph.operators ++ caps.map Cap.terminator
  edges : ∀ edge, edge ∈ result.edges ↔ edge ∈ graph.edges ∨ ∃ cap ∈ caps, edge = cap.edge
  later : graph.nextOperator.index ≤ result.nextOperator.index
  fresh : ∀ cap ∈ caps, graph.nextOperator.index ≤ cap.terminator.id.index
  kinds : ∀ cap ∈ caps, cap.terminator.isMarkerOf cap.side.terminator = true
  inners : ∀ cap ∈ caps, (cap.terminator.portsOn cap.side).map Port.id = [cap.inner]
  /-- Terminators are attached to ports that were there. -/
  owned : ∀ cap ∈ caps, ∃ operator ∈ graph.operators,
    cap.port ∈ (operator.portsOn cap.side.opposite).map Port.id

variable {graph middle result : Graph} {caps : List Cap}

theorem WellFormed.capped_nil (wellFormed : graph.WellFormed) : graph.Capped graph [] :=
  ⟨wellFormed, by simp, by simp, Nat.le_refl _, by simp, by simp, by simp, by simp⟩

theorem Capped.append {later : List Cap} (first : graph.Capped middle caps)
    (second : middle.Capped result later)
    (owned : ∀ cap ∈ later, ∃ operator ∈ graph.operators,
      cap.port ∈ (operator.portsOn cap.side.opposite).map Port.id) :
    graph.Capped result (caps ++ later) where
  wellFormed := second.wellFormed
  operators := by rw [second.operators, first.operators, List.map_append, List.append_assoc]
  edges edge := by
    rw [second.edges, first.edges, or_assoc]
    simp only [List.mem_append, or_and_right, exists_or]
  later := first.later.trans second.later
  fresh := List.forall_mem_append.2
    ⟨first.fresh, fun cap member => first.later.trans (second.fresh cap member)⟩
  kinds := List.forall_mem_append.2 ⟨first.kinds, second.kinds⟩
  inners := List.forall_mem_append.2 ⟨first.inners, second.inners⟩
  owned := List.forall_mem_append.2 ⟨first.owned, owned⟩

/-- A new terminator that is linked with a port. -/
theorem WellFormed.capped_link (wellFormed : graph.WellFormed) (side : PortSide) {type : DataType}
    {inner port : PortId}
    (isInner : ((graph.added (.marker side.terminator type)).portsOn side).map Port.id = [inner])
    (owned : ∃ operator ∈ graph.operators, port ∈ (operator.portsOn side.opposite).map Port.id) :
    graph.Capped ((graph.add (.marker side.terminator type)).2.link (side.edge inner port).source
      (side.edge inner port).target)
      [⟨side, graph.added (.marker side.terminator type), inner, port⟩] := by
  have isNew : graph.added (.marker side.terminator type) ∈
      (graph.add (.marker side.terminator type)).2.operators :=
    List.mem_append_right _ List.mem_cons_self
  have newOwner : ∃ operator ∈ (graph.add (.marker side.terminator type)).2.operators,
      inner ∈ (operator.portsOn side).map Port.id := ⟨_, isNew, isInner ▸ List.mem_cons_self⟩
  have oldOwner : ∃ operator ∈ (graph.add (.marker side.terminator type)).2.operators,
      port ∈ (operator.portsOn side.opposite).map Port.id := by
    obtain ⟨operator, member, owns⟩ := owned
    exact ⟨operator, List.mem_append_left _ member, owns⟩
  refine ⟨?_, rfl, fun edge => ?_, Nat.le_succ _, ?_, ?_, ?_, ?_⟩
  · cases side with
    | input => exact (wellFormed.add _).link oldOwner newOwner
    | output => exact (wellFormed.add _).link newOwner oldOwner
  · have inserted : edge ∈ ((graph.add (.marker side.terminator type)).2.link
        (side.edge inner port).source (side.edge inner port).target).edges ↔
          edge = side.edge inner port ∨ edge ∈ graph.edges := OrderedSet.mem_insert
    rw [inserted, or_comm]
    simp [Cap.edge]
  · simp [added]
  · cases side <;> simp [PortSide.terminator, added] <;> rfl
  · simpa using isInner
  · simpa using owned

/-! ### What surrounds a new terminator -/

namespace Capped

variable (capped : graph.Capped result caps)

include capped

theorem old {operator : Operator} (member : operator ∈ graph.operators) :
    operator ∈ result.operators := by
  rw [capped.operators]
  exact List.mem_append_left _ member

theorem old_or_new {operator : Operator} (member : operator ∈ result.operators) :
    operator ∈ graph.operators ∨ ∃ cap ∈ caps, cap.terminator = operator := by
  rw [capped.operators, List.mem_append, List.mem_map] at member
  exact member

theorem new {cap : Cap} (isCap : cap ∈ caps) : cap.terminator ∈ result.operators := by
  rw [capped.operators]
  exact List.mem_append_right _ (List.mem_map_of_mem isCap)

theorem isEdge {cap : Cap} (isCap : cap ∈ caps) : cap.edge ∈ result.edges :=
  (capped.edges _).2 (.inr ⟨cap, isCap, rfl⟩)

theorem isInner {cap : Cap} (isCap : cap ∈ caps) :
    cap.inner ∈ (cap.terminator.portsOn cap.side).map Port.id := by
  rw [capped.inners cap isCap]
  exact List.mem_cons_self

/-- A terminator is attached once. -/
theorem cap_unique {cap other : Cap} (isCap : cap ∈ caps) (isOther : other ∈ caps)
    (same : cap.terminator = other.terminator) : cap = other := by
  have distinct := capped.wellFormed.nodup_operatorIds
  rw [operatorIds, capped.operators, List.map_append, List.map_map] at distinct
  exact List.inj_on_of_nodup_map (List.nodup_append.1 distinct).2.1 isCap isOther
    (congrArg Operator.id same)

variable (wellFormed : graph.WellFormed)

include wellFormed

theorem not_old {cap : Cap} (isCap : cap ∈ caps) : cap.terminator ∉ graph.operators := fun isOld =>
  Nat.not_lt.2 (capped.fresh cap isCap) (wellFormed.operatorsBelow _ isOld)

/-- A port that was there belongs to no new terminator. -/
theorem not_owned {cap : Cap} (isCap : cap ∈ caps) {operator : Operator}
    (member : operator ∈ graph.operators) {port : PortId} (owned : port ∈ operator.ports.map Port.id) :
    port ∉ cap.terminator.ports.map Port.id := by
  intro owns
  have same := capped.wellFormed.owner_unique (capped.old member) (capped.new isCap) owned owns
  exact capped.not_old wellFormed isCap (same ▸ member)

/-- The only edge of a new terminator is the one by which it is attached. -/
theorem edge_of_terminator {cap : Cap} (isCap : cap ∈ caps) {side : PortSide} {port opposite : PortId}
    (isEdge : side.edge port opposite ∈ result.edges)
    (owned : port ∈ (cap.terminator.portsOn side).map Port.id) :
    side.edge port opposite = cap.edge := by
  have owns := Operator.mem_ports_of_mem_portsOn side owned
  rcases (capped.edges _).1 isEdge with isOld | ⟨other, isOther, same⟩
  · obtain ⟨operator, member, alsoOwned⟩ := wellFormed.owner_of_edge side isOld
    exact absurd owns (capped.not_owned wellFormed isCap member
      (Operator.mem_ports_of_mem_portsOn side alsoOwned))
  · rw [same]
    rcases other.side.eq_or_eq_opposite side with rfl | rfl
    · obtain ⟨rfl, -⟩ := PortSide.edge_inj.1 same
      have alsoOwns := Operator.mem_ports_of_mem_portsOn _ (capped.isInner isOther)
      rw [capped.cap_unique isCap isOther
        (capped.wellFormed.owner_unique (capped.new isCap) (capped.new isOther) owns alsoOwns)]
    · rw [PortSide.edge_opposite] at same
      obtain ⟨-, rfl⟩ := PortSide.edge_inj.1 same
      obtain ⟨operator, member, alsoOwned⟩ := capped.owned other isOther
      exact absurd owns (capped.not_owned wellFormed isCap member
        (Operator.mem_ports_of_mem_portsOn _ alsoOwned))

/-- Between operators that were there no edge is new. -/
theorem mem_edges_iff {producer consumer : Operator} (isProducer : producer ∈ graph.operators)
    (isConsumer : consumer ∈ graph.operators) {output input : PortId}
    (gives : output ∈ producer.outputs.map Port.id) (takes : input ∈ consumer.inputs.map Port.id) :
    ⟨output, input⟩ ∈ result.edges ↔ ⟨output, input⟩ ∈ graph.edges := by
  rw [capped.edges, or_iff_left]
  rintro ⟨cap, isCap, same⟩
  have isInner := capped.isInner isCap
  obtain ⟨side, terminator, inner, port⟩ := cap
  cases side with
  | input =>
    obtain ⟨-, rfl⟩ := Edge.mk.inj same
    exact capped.not_owned wellFormed isCap isConsumer
      (Operator.mem_ports_of_mem_portsOn .input takes)
      (Operator.mem_ports_of_mem_portsOn .input isInner)
  | output =>
    obtain ⟨rfl, -⟩ := Edge.mk.inj same
    exact capped.not_owned wellFormed isCap isProducer
      (Operator.mem_ports_of_mem_portsOn .output gives)
      (Operator.mem_ports_of_mem_portsOn .output isInner)

/-- A port without opposite gets no other one than its terminator. -/
theorem edge_of_port (apart : ∀ cap ∈ caps, ∀ other ∈ caps, cap.side = other.side →
      cap.port = other.port → cap = other) {cap : Cap} (isCap : cap ∈ caps)
    (dangles : ∀ opposite, cap.side.opposite.edge cap.port opposite ∉ graph.edges)
    {opposite : PortId} (isEdge : cap.side.opposite.edge cap.port opposite ∈ result.edges) :
    cap.side.opposite.edge cap.port opposite = cap.edge := by
  rcases (capped.edges _).1 isEdge with isOld | ⟨other, isOther, same⟩
  · exact absurd isOld (dangles opposite)
  · rw [same]
    rcases cap.side.eq_or_eq_opposite other.side with sameSide | oppositeSide
    · rw [PortSide.edge_opposite, Cap.edge, sameSide] at same
      rw [apart cap isCap other isOther sameSide.symm (PortSide.edge_inj.1 same).2]
    · rw [Cap.edge, oppositeSide] at same
      obtain ⟨operator, member, owned⟩ := capped.owned cap isCap
      refine absurd (Operator.mem_ports_of_mem_portsOn _ (capped.isInner isOther))
        (capped.not_owned wellFormed isOther member
          (Operator.mem_ports_of_mem_portsOn cap.side.opposite ?_))
      rwa [← (PortSide.edge_inj.1 same).1]

end Capped

/-! ### Dangling ports -/

/-- A port without opposites. -/
theorem WellFormed.not_isConnected_iff (wellFormed : graph.WellFormed) (side : PortSide)
    {operator : Operator} (member : operator ∈ graph.operators) {port : PortId}
    (owned : port ∈ (operator.portsOn side).map Port.id) :
    (!graph.isConnected port) = true ↔ ∀ opposite, side.edge port opposite ∉ graph.edges := by
  rw [isConnected, Bool.not_not, List.isEmpty_iff, List.eq_nil_iff_forall_not_mem]
  exact forall_congr' fun opposite => not_congr (wellFormed.mem_opposites side member owned)

theorem dangling_eq (graph : Graph) (side : PortSide) : graph.dangling side =
    (graph.operators.filter fun operator => !operator.isMarkerOf side.terminator).flatMap
      fun operator => (operator.portsOn side.opposite).filter fun port => !graph.isConnected port.id := by
  cases side <;> rfl

/-- Ports dangle that have no opposite, apart from the outer ones of terminators. -/
theorem WellFormed.mem_dangling (wellFormed : graph.WellFormed) (side : PortSide) {port : Port} :
    port ∈ graph.dangling side ↔ ∃ operator ∈ graph.operators,
      operator.isMarkerOf side.terminator = false ∧ port ∈ operator.portsOn side.opposite ∧
        ∀ opposite, side.opposite.edge port.id opposite ∉ graph.edges := by
  simp only [dangling_eq, List.mem_flatMap, List.mem_filter, and_assoc]
  refine exists_congr fun operator => and_congr_right fun member => ?_
  refine and_congr (by simp) (and_congr_right fun owned => ?_)
  exact wellFormed.not_isConnected_iff side.opposite member (List.mem_map_of_mem owned)

/-- A port dangles once. -/
theorem WellFormed.nodup_dangling (wellFormed : graph.WellFormed) (side : PortSide) :
    ((graph.dangling side).map Port.id).Nodup := by
  rw [dangling_eq, List.map_flatMap, List.nodup_flatMap]
  refine ⟨fun operator isThere => ?_, ?_⟩
  · exact (wellFormed.portsOn_nodup (List.mem_filter.1 isThere).1 _).sublist
      (List.filter_sublist.map _)
  · refine ((List.nodup_flatMap.1 wellFormed.ports).2.filter _).imp ?_
    intro first second disjoint port ofFirst ofSecond
    exact disjoint
      (Operator.mem_ports_of_mem_portsOn side.opposite ((List.filter_sublist.map _).subset ofFirst))
      (Operator.mem_ports_of_mem_portsOn side.opposite ((List.filter_sublist.map _).subset ofSecond))

/-- The second graph is the first one with a terminator at every port that dangles. -/
structure Seals (graph result : Graph) (caps : List Cap) : Prop extends Capped graph result caps where
  dangling : ∀ side, (caps.filter fun cap => cap.side = side).map Cap.port =
    (graph.dangling side).map Port.id

namespace Seals

variable (seals : graph.Seals result caps) (wellFormed : graph.WellFormed)

include seals wellFormed

/-- A new terminator is attached to a port that dangles. -/
theorem exists_owner {cap : Cap} (isCap : cap ∈ caps) : ∃ operator ∈ graph.operators,
    operator.isMarkerOf cap.side.terminator = false ∧
      cap.port ∈ (operator.portsOn cap.side.opposite).map Port.id ∧
        ∀ opposite, cap.side.opposite.edge cap.port opposite ∉ graph.edges := by
  have listed : cap.port ∈ (graph.dangling cap.side).map Port.id := by
    rw [← seals.dangling]
    exact List.mem_map_of_mem (List.mem_filter.2 ⟨isCap, decide_eq_true rfl⟩)
  obtain ⟨port, dangles, same⟩ := List.mem_map.1 listed
  obtain ⟨operator, member, inner, owned, unconnected⟩ := (wellFormed.mem_dangling cap.side).1 dangles
  rw [← same]
  exact ⟨operator, member, inner, List.mem_map_of_mem owned, unconnected⟩

/-- A new terminator is the only opposite of its port. -/
theorem edge_of_dangling {cap : Cap} (isCap : cap ∈ caps) {opposite : PortId}
    (isEdge : cap.side.opposite.edge cap.port opposite ∈ result.edges) :
    cap.side.opposite.edge cap.port opposite = cap.edge := by
  obtain ⟨-, -, -, -, dangles⟩ := seals.exists_owner wellFormed isCap
  refine seals.edge_of_port wellFormed (fun first isFirst second isSecond sameSide same => ?_) isCap
    dangles isEdge
  have distinct := wellFormed.nodup_dangling first.side
  rw [← seals.dangling] at distinct
  exact List.inj_on_of_nodup_map distinct
    (List.mem_filter.2 ⟨isFirst, decide_eq_true rfl⟩)
    (List.mem_filter.2 ⟨isSecond, decide_eq_true sameSide.symm⟩) same

/-- Afterwards ports have opposites, apart from the outer ones of terminators. -/
theorem exists_opposite {operator : Operator} (member : operator ∈ result.operators)
    (side : PortSide) (inner : operator.isMarkerOf side.terminator = false) {port : PortId}
    (owned : port ∈ (operator.portsOn side.opposite).map Port.id) :
    ∃ opposite, side.opposite.edge port opposite ∈ result.edges := by
  rcases seals.old_or_new member with isOld | ⟨cap, isCap, rfl⟩
  · by_cases connected : ∃ opposite, side.opposite.edge port opposite ∈ graph.edges
    · exact connected.imp fun opposite isEdge => (seals.edges _).2 (.inl isEdge)
    · obtain ⟨found, isPort, rfl⟩ := List.mem_map.1 owned
      have dangles : found ∈ graph.dangling side := (wellFormed.mem_dangling side).2
        ⟨operator, isOld, inner, isPort, not_exists.1 connected⟩
      have listed := List.mem_map_of_mem (f := Port.id) dangles
      rw [← seals.dangling] at listed
      obtain ⟨cap, isThere, same⟩ := List.mem_map.1 listed
      obtain ⟨isCap, onSide⟩ := List.mem_filter.1 isThere
      obtain rfl : cap.side = side := of_decide_eq_true onSide
      refine ⟨cap.inner, ?_⟩
      rw [PortSide.edge_opposite, ← same]
      exact seals.isEdge isCap
  · rcases cap.side.eq_or_eq_opposite side with rfl | rfl
    · rw [seals.kinds cap isCap] at inner
      cases inner
    · rw [PortSide.opposite_opposite] at owned ⊢
      rw [seals.inners cap isCap, List.mem_singleton] at owned
      exact ⟨cap.port, owned ▸ seals.isEdge isCap⟩

end Seals

end Graph

namespace Edit

variable {graph result : Graph}

theorem yields_beginAt (wellFormed : graph.WellFormed) {port : Port} {done : Unit}
    (yields : (beginAt port).Yields graph done result) :
    ((graph.add (.marker .begin port.dataType)).2.link ⟨graph.nextPort.index + 1⟩ port.id) =
      result := by
  simp only [beginAt, yields_bind, yields_add, yields_look] at yields
  obtain ⟨_, _, ⟨rfl, rfl⟩, exit, _, ⟨isExit, rfl⟩, connected⟩ := yields
  obtain rfl := Except.ok.inj ((ports_of_added wellFormed rfl).2.symm.trans isExit)
  exact (yields_connect connected).2.2

theorem yields_finishAt (wellFormed : graph.WellFormed) {port : Port} {done : Unit}
    (yields : (finishAt port).Yields graph done result) :
    ((graph.add (.marker .finish port.dataType)).2.link port.id graph.nextPort) = result := by
  simp only [finishAt, yields_bind, yields_add, yields_look] at yields
  obtain ⟨_, _, ⟨rfl, rfl⟩, entry, _, ⟨isEntry, rfl⟩, connected⟩ := yields
  obtain rfl := Except.ok.inj ((ports_of_added wellFormed rfl).1.symm.trans isEntry)
  exact (yields_connect connected).2.2

/-- The edit attaches a terminator that faces the graph on a side to a port. -/
def Caps (side : PortSide) (attach : Port → Edit PUnit) : Prop :=
  ∀ (graph : Graph) (port : Port) (done : PUnit) (result : Graph), graph.WellFormed →
    (∃ operator ∈ graph.operators, port.id ∈ (operator.portsOn side.opposite).map Port.id) →
    (attach port).Yields graph done result →
      ∃ cap : Cap, graph.Capped result [cap] ∧ cap.side = side ∧ cap.port = port.id

theorem caps_beginAt : Caps .output beginAt := by
  intro graph port done result wellFormed owned yields
  have ports := (graph.exists_ports_added
    (rfl : (Blueprint.marker .begin port.dataType).isPassThrough = true)).2
  have capped := wellFormed.capped_link .output ports owned
  obtain rfl := yields_beginAt wellFormed yields
  exact ⟨_, capped, rfl, rfl⟩

theorem caps_finishAt : Caps .input finishAt := by
  intro graph port done result wellFormed owned yields
  have ports := (graph.exists_ports_added
    (rfl : (Blueprint.marker .finish port.dataType).isPassThrough = true)).1
  have capped := wellFormed.capped_link .input ports owned
  obtain rfl := yields_finishAt wellFormed yields
  exact ⟨_, capped, rfl, rfl⟩

/-- The ports of a list get terminators one after the other. -/
theorem Caps.forM {side : PortSide} {attach : Port → Edit PUnit} (each : Caps side attach)
    (wellFormed : graph.WellFormed) {ports : List Port}
    (owned : ∀ port ∈ ports, ∃ operator ∈ graph.operators,
      port.id ∈ (operator.portsOn side.opposite).map Port.id) {done : PUnit}
    (yields : (ports.forM attach).Yields graph done result) :
    ∃ caps, graph.Capped result caps ∧ caps.map Cap.port = ports.map Port.id ∧
      ∀ cap ∈ caps, cap.side = side := by
  induction ports generalizing graph with
  | nil =>
    obtain ⟨-, rfl⟩ := yields_pure.1 yields
    exact ⟨[], wellFormed.capped_nil, rfl, by simp⟩
  | cons port rest ih =>
    obtain ⟨_, middle, first, others⟩ := yields_bind.1 yields
    obtain ⟨ownsPort, ownsRest⟩ := List.forall_mem_cons.1 owned
    obtain ⟨cap, capped, onSide, isPort⟩ := each graph port _ middle wellFormed ownsPort first
    obtain ⟨caps, cappedLater, arePorts, onSides⟩ := ih capped.wellFormed (fun other member => by
      obtain ⟨operator, isThere, owns⟩ := ownsRest other member
      exact ⟨operator, capped.old isThere, owns⟩) others
    refine ⟨cap :: caps, capped.append cappedLater fun other isOther => ?_, ?_, ?_⟩
    · have listed : other.port ∈ rest.map Port.id := arePorts ▸ List.mem_map_of_mem isOther
      obtain ⟨found, isFound, same⟩ := List.mem_map.1 listed
      rw [← same, onSides other isOther]
      exact ownsRest found isFound
    · rw [List.map_cons, List.map_cons, isPort, arePorts]
    · exact List.forall_mem_cons.2 ⟨onSide, onSides⟩

/-- Exactly the dangling ports get terminators. -/
theorem seals_attachTerminators (wellFormed : graph.WellFormed) {done : Unit}
    (yields : attachTerminators.Yields graph done result) : ∃ caps, graph.Seals result caps := by
  obtain ⟨_, _, seen, rest⟩ := yields_bind.1 yields
  obtain ⟨rfl, rfl⟩ := yields_get.1 seen
  obtain ⟨_, middle, begun, finished⟩ := yields_bind.1 rest
  have owned : ∀ side, ∀ port ∈ graph.dangling side, ∃ operator ∈ graph.operators,
      port.id ∈ (operator.portsOn side.opposite).map Port.id := by
    intro side port dangles
    obtain ⟨operator, member, -, isPort, -⟩ := (wellFormed.mem_dangling side).1 dangles
    exact ⟨operator, member, List.mem_map_of_mem isPort⟩
  obtain ⟨begins, first, beginPorts, areBegins⟩ :=
    caps_beginAt.forM wellFormed (owned .output) begun
  obtain ⟨finishes, second, finishPorts, areFinishes⟩ :=
    caps_finishAt.forM first.wellFormed (fun port dangles => by
      obtain ⟨operator, member, owns⟩ := owned .input port dangles
      exact ⟨operator, first.old member, owns⟩) finished
  refine ⟨begins ++ finishes, { toCapped := first.append second fun cap isCap => ?_, dangling := ?_ }⟩
  · have listed : cap.port ∈ (graph.dangling .input).map Port.id :=
      finishPorts ▸ List.mem_map_of_mem isCap
    obtain ⟨port, dangles, same⟩ := List.mem_map.1 listed
    rw [← same, areFinishes cap isCap]
    exact owned .input port dangles
  · have none : ∀ {caps : List Cap} {side other : PortSide}, side ≠ other →
        (∀ cap ∈ caps, cap.side = side) → caps.filter (fun cap => cap.side = other) = [] := by
      intro caps side other differ all
      refine List.filter_eq_nil_iff.2 fun cap isCap => ?_
      rw [all cap isCap]
      simpa using differ
    have every : ∀ {caps : List Cap} {side : PortSide}, (∀ cap ∈ caps, cap.side = side) →
        caps.filter (fun cap => cap.side = side) = caps := fun all =>
      List.filter_eq_self.2 fun cap isCap => decide_eq_true (all cap isCap)
    intro side
    rw [List.filter_append]
    cases side with
    | input => rw [none (by simp) areBegins, every areFinishes, List.nil_append, finishPorts, Graph.dangling]
    | output => rw [every areBegins, none (by simp) areFinishes, List.append_nil, beginPorts, Graph.dangling]

end Edit

end StagePlanner
