import StagePlanner.Proofs.Graph.Growth
import StagePlanner.Proofs.Preparation.Rounds
import StagePlanner.Proofs.Stage.Soundness

/-!
# Removing dead flow leaves the live graph

Alive is what leads out to an external output, and an `END` behind it (`Graph.Alive`). When the other
operators of a graph are gone, terminators are attached to the ports that dangle then. All of these
ports belong to operators that lead out, since an `END` that stays keeps the edge for which it stays;
so the new terminators are alive as well, and a second removal finds nothing.

* `deadOperators_of_removeDeadFlow`: nothing dead is left.
* `removeDeadFlow_keeps_alive`: what is left is described exactly.
-/

namespace StagePlanner

open Relation

namespace Graph

variable {graph live result : Graph}

/-- An operator leads out, or it is an `END` behind an operator that does. -/
def Alive (graph : Graph) (operator : Operator) : Prop :=
  graph.LeadsOut operator.id ∨ operator.isMarkerOf .finish = true ∧
    ∃ producer, graph.Feeds producer operator.id ∧ graph.LeadsOut producer

/-- Terminators beside what leads out lead out as well, or they are alive. -/
theorem alive_of_terminates (wellFormed : graph.WellFormed) {operator : Operator}
    (terminates : graph.terminates graph.productive operator = true) : graph.Alive operator := by
  rw [Graph.terminates] at terminates
  split at terminates
  · obtain ⟨next, feeds, leads⟩ := OrderedSet.meets_iff.1 terminates
    exact .inl (((mem_productive wellFormed).1 leads).of_way
      (.single ((mem_successors wellFormed).1 feeds)))
  · next isFinish =>
    obtain ⟨previous, feeds, leads⟩ := OrderedSet.meets_iff.1 terminates
    exact .inr ⟨decide_eq_true isFinish, previous, (mem_predecessors wellFormed).1 feeds,
      (mem_productive wellFormed).1 leads⟩
  · cases terminates

/-- Alive operators are those that are not dead. -/
theorem not_dead_iff (wellFormed : graph.WellFormed) {operator : Operator}
    (member : operator ∈ graph.operators) :
    operator.id ∉ graph.deadOperators ↔ graph.Alive operator := by
  have isLive : operator.id ∉ graph.deadOperators ↔
      graph.isLive graph.productive operator = true := by
    constructor
    · intro notDead
      by_contra isDead
      exact notDead (List.mem_map_of_mem (List.mem_filter.2 ⟨member, by simpa using isDead⟩))
    · intro isLive isDead
      obtain ⟨other, found, same⟩ := List.mem_map.1 isDead
      obtain ⟨isThere, dead⟩ := List.mem_filter.1 found
      rw [wellFormed.operator_unique isThere member same, isLive] at dead
      cases dead
  rw [isLive, Graph.isLive, Bool.or_eq_true, decide_eq_true_iff, mem_productive wellFormed]
  constructor
  · rintro (leadsOut | terminates)
    · exact .inl leadsOut
    · exact alive_of_terminates wellFormed terminates
  · rintro (leadsOut | ⟨isFinish, producer, feeds, leadsOut⟩)
    · exact .inl leadsOut
    · refine .inr ?_
      rw [Graph.terminates, of_decide_eq_true isFinish]
      exact OrderedSet.meets_iff.2
        ⟨producer, (mem_predecessors wellFormed).2 feeds, (mem_productive wellFormed).2 leadsOut⟩

/-- What is alive stays alive in a graph with more operators and edges. -/
theorem Alive.mono {operator : Operator} (alive : graph.Alive operator)
    (leads : ∀ id, graph.LeadsOut id → result.LeadsOut id)
    (feeds : ∀ id, graph.LeadsOut id → graph.Feeds id operator.id → result.Feeds id operator.id) :
    result.Alive operator := by
  refine alive.imp (leads _) (And.imp_right ?_)
  rintro ⟨producer, isFed, leadsOut⟩
  exact ⟨producer, feeds producer leadsOut isFed, leads producer leadsOut⟩

/-- Whatever is left when the dead operators are gone is alive. -/
theorem Restricts.alive (restricts : live.Restricts graph fun id => id ∉ graph.deadOperators)
    (wellFormed : graph.WellFormed) {operator : Operator} (member : operator ∈ live.operators) :
    live.Alive operator := by
  obtain ⟨isOld, notDead⟩ := (restricts.operators operator).1 member
  have stays : ∀ id, graph.LeadsOut id → id ∉ graph.deadOperators :=
    fun id leadsOut => leadsOut.not_dead wellFormed
  exact ((not_dead_iff wellFormed isOld).1 notDead).mono
    (fun id => (restricts.leadsOut_iff stays).2)
    fun id leadsOut feeds => restricts.feeds_iff.2 ⟨feeds, stays id leadsOut, notDead⟩

/-! ### New terminators -/

section Sealing

variable {caps : List Cap} (seals : live.Seals result caps) (wellFormed : live.WellFormed)

include seals

theorem Seals.feeds {source target : OperatorId} (feeds : live.Feeds source target) :
    result.Feeds source target := by
  obtain ⟨output, input, isEdge, ⟨producer, isProducer, first, gives⟩, consumer, isConsumer, second,
    takes⟩ := feeds_iff_exists_edge.1 feeds
  exact feeds_iff_exists_edge.2 ⟨output, input, (seals.edges _).2 (.inl isEdge),
    ⟨producer, seals.old isProducer, first, gives⟩, consumer, seals.old isConsumer, second, takes⟩

theorem Seals.leadsOut {id : OperatorId} (leadsOut : live.LeadsOut id) : result.LeadsOut id := by
  obtain ⟨output, member, isOutput, way⟩ := leadsOut
  exact ⟨output, seals.old member, isOutput, ReflTransGen.mono (fun _ _ => seals.feeds) _ _ way⟩

include wellFormed

/-- A port dangles only at operators that lead out, where an `END` that is alive has one input. -/
theorem Seals.leadsOut_of_owner (alive : ∀ operator ∈ live.operators, live.Alive operator)
    (oneInput : ∀ operator ∈ live.operators, operator.isMarkerOf .finish = true →
      operator.inputs.length = 1) {cap : Cap} (isCap : cap ∈ caps) :
    ∃ operator ∈ live.operators, live.LeadsOut operator.id ∧
      operator.isMarkerOf cap.side.terminator = false ∧
        cap.port ∈ (operator.portsOn cap.side.opposite).map Port.id := by
  obtain ⟨operator, member, inner, owned, dangles⟩ := seals.exists_owner wellFormed isCap
  refine ⟨operator, member, (alive operator member).elim id ?_, inner, owned⟩
  rintro ⟨isFinish, producer, feeds, -⟩
  obtain ⟨side, terminator, facing, port⟩ := cap
  cases side with
  | input =>
    change operator.isMarkerOf .finish = false at inner
    rw [isFinish] at inner
    cases inner
  | output =>
    -- The only input of the `END` is fed, so it does not dangle.
    obtain ⟨output, input, isEdge, -, consumer, isConsumer, same, takes⟩ :=
      feeds_iff_exists_edge.1 feeds
    rw [wellFormed.operator_unique isConsumer member same] at takes
    obtain ⟨only, isOnly⟩ := List.length_eq_one_iff.1 (oneInput operator member isFinish)
    have isPort : port ∈ operator.inputs.map Port.id := owned
    rw [isOnly, List.map_singleton, List.mem_singleton] at takes isPort
    refine absurd isEdge ?_
    rw [takes, ← isPort]
    exact dangles output

/-- New terminators beside what leads out are alive. -/
theorem Seals.alive (alive : ∀ operator ∈ live.operators, live.Alive operator)
    (oneInput : ∀ operator ∈ live.operators, operator.isMarkerOf .finish = true →
      operator.inputs.length = 1) {operator : Operator} (member : operator ∈ result.operators) :
    result.Alive operator := by
  rcases seals.old_or_new member with isOld | ⟨cap, isCap, rfl⟩
  · exact (alive operator isOld).mono (fun _ => seals.leadsOut) fun _ _ => seals.feeds
  · obtain ⟨owner, isOwner, leadsOut, -, owned⟩ :=
      seals.leadsOut_of_owner wellFormed alive oneInput isCap
    have isEdge := seals.isEdge isCap
    have isInner := seals.isInner isCap
    have isTerminator := seals.kinds cap isCap
    have isNew := seals.new isCap
    obtain ⟨side, terminator, inner, port⟩ := cap
    cases side with
    | input =>
      exact .inr ⟨isTerminator, owner.id, feeds_iff_exists_edge.2 ⟨port, inner, isEdge,
        ⟨owner, seals.old isOwner, rfl, owned⟩, terminator, isNew, rfl, isInner⟩,
        seals.leadsOut leadsOut⟩
    | output =>
      exact .inl ((seals.leadsOut leadsOut).of_way (.single (feeds_iff_exists_edge.2 ⟨inner, port,
        isEdge, ⟨terminator, isNew, rfl, isInner⟩, owner, seals.old isOwner, rfl, owned⟩)))

end Sealing

/-! ### What is left -/

/-- A terminator whose only edge runs to a port that has no other one. -/
structure IsCap (graph : Graph) (cap : Cap) : Prop where
  kind : cap.terminator.isMarkerOf cap.side.terminator = true
  inner : (cap.terminator.portsOn cap.side).map Port.id = [cap.inner]
  isEdge : cap.edge ∈ graph.edges
  edge_of_terminator : ∀ side : PortSide, ∀ port ∈ (cap.terminator.portsOn side).map Port.id,
    ∀ opposite, side.edge port opposite ∈ graph.edges → side.edge port opposite = cap.edge
  edge_of_port : ∀ opposite, cap.side.opposite.edge cap.port opposite ∈ graph.edges →
    cap.side.opposite.edge cap.port opposite = cap.edge

/-- Exactly what is alive is left of a graph, with the edges between it. Everything else is a new
terminator at a port that would have no opposite without it. -/
structure KeepsAlive (graph result : Graph) : Prop where
  wellFormed : result.WellFormed
  alive : ∀ operator ∈ graph.operators, operator ∈ result.operators ↔ graph.Alive operator
  edges : ∀ producer ∈ graph.operators, producer ∈ result.operators →
    ∀ consumer ∈ graph.operators, consumer ∈ result.operators →
      ∀ output ∈ producer.outputs.map Port.id, ∀ input ∈ consumer.inputs.map Port.id,
        ⟨output, input⟩ ∈ result.edges ↔ ⟨output, input⟩ ∈ graph.edges
  new : ∀ operator ∈ result.operators, operator ∉ graph.operators →
    graph.nextOperator.index ≤ operator.id.index ∧
      ∃ cap : Cap, cap.terminator = operator ∧ result.IsCap cap ∧
        ∃ owner ∈ graph.operators, owner ∈ result.operators ∧
          owner.isMarkerOf cap.side.terminator = false ∧
            cap.port ∈ (owner.portsOn cap.side.opposite).map Port.id

/-- Every port has an opposite, apart from the inputs of `BEGIN` and the outputs of `END`. -/
structure Connected (graph : Graph) : Prop where
  fed : ∀ operator ∈ graph.operators, operator.isMarkerOf .begin = false →
    ∀ input ∈ operator.inputs.map Port.id, ∃ source, ⟨source, input⟩ ∈ graph.edges
  read : ∀ operator ∈ graph.operators, operator.isMarkerOf .finish = false →
    ∀ output ∈ operator.outputs.map Port.id, ∃ target, ⟨output, target⟩ ∈ graph.edges

theorem Seals.isCap {caps : List Cap} (seals : live.Seals result caps) (wellFormed : live.WellFormed)
    {cap : Cap} (isCap : cap ∈ caps) : result.IsCap cap where
  kind := seals.kinds cap isCap
  inner := seals.inners cap isCap
  isEdge := seals.isEdge isCap
  edge_of_terminator _ _ owned _ isEdge := seals.edge_of_terminator wellFormed isCap isEdge owned
  edge_of_port _ := seals.edge_of_dangling wellFormed isCap

/-- What was alive is left when the dead operators are gone and new terminators are there. -/
theorem Capped.keepsAlive {caps : List Cap} (capped : live.Capped result caps)
    (wellFormed : graph.WellFormed)
    (restricts : live.Restricts graph fun id => id ∉ graph.deadOperators)
    (sheds : graph.Sheds live)
    (areCaps : ∀ cap ∈ caps, result.IsCap cap ∧ ∃ owner ∈ live.operators,
      owner.isMarkerOf cap.side.terminator = false ∧
        cap.port ∈ (owner.portsOn cap.side.opposite).map Port.id) : graph.KeepsAlive result := by
  have below : ∀ cap ∈ caps, graph.nextOperator.index ≤ cap.terminator.id.index :=
    fun cap isCap => sheds.nextOperator ▸ capped.fresh cap isCap
  have stays : ∀ operator ∈ graph.operators,
      operator ∈ result.operators → operator ∈ live.operators := by
    intro operator member isThere
    refine (capped.old_or_new isThere).resolve_right ?_
    rintro ⟨cap, isCap, rfl⟩
    exact Nat.not_lt.2 (below cap isCap) (wellFormed.operatorsBelow _ member)
  refine ⟨capped.wellFormed, fun operator member => ?_, ?_, fun operator member isNew => ?_⟩
  · rw [← not_dead_iff wellFormed member]
    constructor
    · exact fun isThere => ((restricts.operators operator).1 (stays operator member isThere)).2
    · exact fun notDead => capped.old ((restricts.operators operator).2 ⟨member, notDead⟩)
  · intro producer isProducer producerStays consumer isConsumer consumerStays output gives input takes
    have producerLive := stays producer isProducer producerStays
    have consumerLive := stays consumer isConsumer consumerStays
    rw [capped.mem_edges_iff restricts.wellFormed producerLive consumerLive gives takes,
      restricts.mem_edges_iff wellFormed producerLive consumerLive gives takes]
  · rcases capped.old_or_new member with isLive | ⟨cap, isCap, rfl⟩
    · exact absurd ((restricts.operators operator).1 isLive).1 isNew
    · obtain ⟨attached, owner, isOwner, inner, owned⟩ := areCaps cap isCap
      exact ⟨below cap isCap, cap, rfl, attached, owner, ((restricts.operators owner).1 isOwner).1,
        capped.old isOwner, inner, owned⟩

/-- The number of dead operators is the number of operators that are not left. -/
theorem KeepsAlive.length_dead (keeps : graph.KeepsAlive result) (wellFormed : graph.WellFormed) :
    graph.deadOperators.length =
      (graph.operators.filter fun operator => operator ∉ result.operators).length := by
  rw [deadOperators, List.length_map]
  refine congrArg List.length (List.filter_congr fun operator member => ?_)
  rw [Bool.eq_iff_iff, decide_eq_true_iff, keeps.alive operator member,
    ← not_dead_iff wellFormed member, not_not]
  constructor
  · intro dead
    exact List.mem_map_of_mem (List.mem_filter.2 ⟨member, dead⟩)
  · intro isDead
    obtain ⟨other, found, same⟩ := List.mem_map.1 isDead
    obtain ⟨isThere, dead⟩ := List.mem_filter.1 found
    rwa [wellFormed.operator_unique isThere member same] at dead

end Graph

namespace Edit

open StagePlanner.Graph

variable {graph result : Graph}

/-- Removing dead flow leaves nothing dead, where every `END` has one input. -/
theorem deadOperators_of_removeDeadFlow (wellFormed : graph.WellFormed)
    (oneInput : ∀ operator ∈ graph.operators, operator.isMarkerOf .finish = true →
      operator.inputs.length = 1) {count : Nat}
    (yields : removeDeadFlow.Yields graph count result) : result.deadOperators = [] := by
  obtain ⟨-, live, -, restricts, closing⟩ := live_of_removeDeadFlow wellFormed yields
  have liveAlive : ∀ operator ∈ live.operators, live.Alive operator :=
    fun operator => restricts.alive wellFormed
  have alive : result.WellFormed ∧ ∀ operator ∈ result.operators, result.Alive operator := by
    rcases closing with ⟨-, rfl⟩ | closing
    · exact ⟨restricts.wellFormed, liveAlive⟩
    · obtain ⟨caps, seals⟩ := seals_attachTerminators restricts.wellFormed closing
      exact ⟨seals.wellFormed, fun operator => seals.alive restricts.wellFormed liveAlive
        fun other isThere => oneInput other ((restricts.operators other).1 isThere).1⟩
  refine List.eq_nil_iff_forall_not_mem.2 fun id isDead => ?_
  obtain ⟨operator, found, rfl⟩ := List.mem_map.1 isDead
  have member := (List.mem_filter.1 found).1
  exact (not_dead_iff alive.1 member).2 (alive.2 operator member) isDead

/-- Where nothing is dead nothing is removed. -/
theorem yields_removeDeadFlow_of_nil (nothing : graph.deadOperators = []) :
    removeDeadFlow.Yields graph 0 graph := by
  refine yields_bind.2 ⟨graph, graph, yields_get.2 ⟨rfl, rfl⟩, ?_⟩
  rw [nothing]
  rfl

theorem sheds_forM_remove {ids : List OperatorId} {done : PUnit}
    (yields : (ids.forM fun id => do let _ ← remove id).Yields graph done result) :
    graph.Sheds result := by
  refine (Ensures.forM fun id _ => Ensures.bind ?_ fun _ => Ensures.pure _) graph done result yields
  intro before removed after yields
  obtain ⟨-, rfl⟩ := yields_remove.1 yields
  exact before.sheds_without removed

/-- Removing dead flow leaves exactly the operators that lead out and each `END` behind one of them,
with the edges between them, and puts new terminators where ports would dangle. It gives the number
of operators that are gone, leaves ports connected if they all are, and finds nothing when it is
repeated. -/
theorem removeDeadFlow_keeps_alive (wellFormed : graph.WellFormed)
    (singlePorts : graph.SinglePortMarkers) :
    ∃ count result, removeDeadFlow.apply graph = (.ok count, result) ∧ graph.KeepsAlive result ∧
      count = (graph.operators.filter fun operator => operator ∉ result.operators).length ∧
        (graph.Connected → result.Connected) ∧ removeDeadFlow.apply result = (.ok 0, result) := by
  have oneInput : ∀ operator ∈ graph.operators, operator.isMarkerOf .finish = true →
      operator.inputs.length = 1 := fun operator member isFinish =>
    (singlePorts operator member
      (Option.isSome_iff_exists.2 ⟨_, of_decide_eq_true isFinish⟩)).1
  obtain ⟨count, result, yields⟩ := succeeds_removeDeadFlow wellFormed
  have nothing := deadOperators_of_removeDeadFlow wellFormed oneInput yields
  obtain ⟨counted, live, removed, restricts, closing⟩ := live_of_removeDeadFlow wellFormed yields
  have sheds := sheds_forM_remove removed
  suffices graph.KeepsAlive result ∧ (graph.Connected → result.Connected) from
    ⟨count, result, yields, this.1, counted.trans (this.1.length_dead wellFormed), this.2,
      yields_removeDeadFlow_of_nil nothing⟩
  rcases closing with ⟨rfl, rfl⟩ | closing
  · exact ⟨wellFormed.capped_nil.keepsAlive wellFormed restricts sheds (by simp), id⟩
  · have liveWellFormed := restricts.wellFormed
    obtain ⟨caps, seals⟩ := seals_attachTerminators liveWellFormed closing
    refine ⟨seals.keepsAlive wellFormed restricts sheds fun cap isCap => ?_, fun _ => ⟨?_, ?_⟩⟩
    · obtain ⟨owner, isOwner, inner, owned, -⟩ := seals.exists_owner liveWellFormed isCap
      exact ⟨seals.isCap liveWellFormed isCap, owner, isOwner, inner, owned⟩
    · exact fun operator member notBegin _ =>
        seals.exists_opposite liveWellFormed member .output notBegin
    · exact fun operator member notFinish _ =>
        seals.exists_opposite liveWellFormed member .input notFinish

/-- A loop hangs at an output of an operator that a table feeds and that leads to a result. -/
def deadFlowSample : Graph :=
  let rows : DataType := .named "row"
  let row : PortShape := { name := "rows", dataType := rows }
  let pass (name : String) := ((Blueprint.user name .extract).withInput row).withOutput row
  let blueprints : List Blueprint :=
    [.marker .begin Blueprint.activationType, .externalInput "table" rows,
      (pass "split").withOutput { row with name := "rest" }, .externalOutput "result" rows,
      .marker .finish Blueprint.activationType, pass "again", pass "back"]
  let edges : List (Nat × Nat) := [(1, 2), (3, 4), (5, 7), (8, 9), (6, 11), (12, 13), (14, 11)]
  let operators := blueprints.foldl (fun graph blueprint => (graph.add blueprint).2) Graph.empty
  edges.foldl (fun graph (source, target) => graph.link ⟨source⟩ ⟨target⟩) operators

theorem wellFormed_deadFlowSample : deadFlowSample.WellFormed where
  ascending := by decide +kernel
  operatorsBelow := by decide +kernel
  ports := by decide +kernel
  portsBelow := by decide +kernel
  sources := by
    change ∀ edge ∈ deadFlowSample.edges.toList, _
    decide +kernel
  targets := by
    change ∀ edge ∈ deadFlowSample.edges.toList, _
    decide +kernel

/-- The loop goes, and a new `END` takes its place. -/
theorem removeDeadFlow_keeps_alive_deadFlowSample : deadFlowSample.WellFormed ∧
    deadFlowSample.SinglePortMarkers ∧
      ∃ result, removeDeadFlow.apply deadFlowSample = (.ok 2, result) ∧
        deadFlowSample.KeepsAlive result ∧ result.edges.toList =
          [⟨⟨1⟩, ⟨2⟩⟩, ⟨⟨3⟩, ⟨4⟩⟩, ⟨⟨5⟩, ⟨7⟩⟩, ⟨⟨6⟩, ⟨15⟩⟩, ⟨⟨8⟩, ⟨9⟩⟩] := by
  have singlePorts : deadFlowSample.SinglePortMarkers := by
    rw [Graph.SinglePortMarkers]
    decide +kernel
  obtain ⟨count, result, applies, keeps, -⟩ :=
    removeDeadFlow_keeps_alive wellFormed_deadFlowSample singlePorts
  have counts : (removeDeadFlow.apply deadFlowSample).1.toOption = some 2 := by decide +kernel
  have edges : (removeDeadFlow.apply deadFlowSample).2.edges.toList =
      [⟨⟨1⟩, ⟨2⟩⟩, ⟨⟨3⟩, ⟨4⟩⟩, ⟨⟨5⟩, ⟨7⟩⟩, ⟨⟨6⟩, ⟨15⟩⟩, ⟨⟨8⟩, ⟨9⟩⟩] := by decide +kernel
  rw [applies] at counts edges
  obtain rfl : count = 2 := Option.some.inj counts
  exact ⟨wellFormed_deadFlowSample, singlePorts, result, applies, keeps, edges⟩

end Edit

end StagePlanner
