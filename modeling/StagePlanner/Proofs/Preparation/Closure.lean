import StagePlanner.Preparation.Simplification
import StagePlanner.Proofs.Graph.Ancestry
import StagePlanner.Proofs.Preparation.Capping

/-!
# Closed graphs stay closed

In a closed graph every input but those of `BEGIN` is fed and every output but those of `END` is
read (`Graph.Closed`). Attaching terminators closes any graph in which terminators stand at the
ends (`Graph.Framed`), and the rounds of the standard simplifier end in closed graphs.
-/

namespace StagePlanner

namespace Graph

/-- Terminators face the graph with one port and stand at its ends: nothing feeds a `BEGIN`, and
nothing reads an `END`. -/
structure Framed (graph : Graph) : Prop where
  wellFormed : graph.WellFormed
  oneOutput : ∀ operator ∈ graph.operators, operator.isMarkerOf .begin = true →
    operator.outputs.length = 1
  oneInput : ∀ operator ∈ graph.operators, operator.isMarkerOf .finish = true →
    operator.inputs.length = 1
  unfed : ∀ operator ∈ graph.operators, operator.isMarkerOf .begin = true →
    ∀ input ∈ operator.inputs.map Port.id, ∀ source, ⟨source, input⟩ ∉ graph.edges
  unread : ∀ operator ∈ graph.operators, operator.isMarkerOf .finish = true →
    ∀ output ∈ operator.outputs.map Port.id, ∀ target, ⟨output, target⟩ ∉ graph.edges

/-- Nothing but the outer ports of terminators lacks an opposite. -/
structure Closed (graph : Graph) : Prop extends Framed graph where
  fed : ∀ operator ∈ graph.operators, operator.isMarkerOf .begin = false →
    ∀ input ∈ operator.inputs.map Port.id, ∃ source, ⟨source, input⟩ ∈ graph.edges
  read : ∀ operator ∈ graph.operators, operator.isMarkerOf .finish = false →
    ∀ output ∈ operator.outputs.map Port.id, ∃ target, ⟨output, target⟩ ∈ graph.edges

variable {graph middle result : Graph}

/-- Operators may be taken away, and edges may change where ports keep one. -/
theorem Framed.of_edges (framed : graph.Framed) (wellFormed : result.WellFormed)
    (operators : ∀ operator ∈ result.operators, operator ∈ graph.operators)
    (entered : ∀ source target, ⟨source, target⟩ ∈ result.edges →
      ∃ other, ⟨other, target⟩ ∈ graph.edges)
    (left : ∀ source target, ⟨source, target⟩ ∈ result.edges →
      ∃ other, ⟨source, other⟩ ∈ graph.edges) : result.Framed where
  wellFormed := wellFormed
  oneOutput operator member := framed.oneOutput operator (operators operator member)
  oneInput operator member := framed.oneInput operator (operators operator member)
  unfed operator member isBegin input owned source isEdge := by
    obtain ⟨other, old⟩ := entered source input isEdge
    exact framed.unfed operator (operators operator member) isBegin input owned other old
  unread operator member isFinish output owned target isEdge := by
    obtain ⟨other, old⟩ := left output target isEdge
    exact framed.unread operator (operators operator member) isFinish output owned other old

theorem Framed.without (framed : graph.Framed) {operator : Operator}
    (member : operator ∈ graph.operators) : (graph.without operator).Framed :=
  framed.of_edges (framed.wellFormed.without member)
    (fun _ isThere => (mem_operators_without.1 isThere).1)
    (fun source _ isThere => ⟨source, (mem_edges_without.1 isThere).1⟩)
    fun _ target isThere => ⟨target, (mem_edges_without.1 isThere).1⟩

/-! ### Attaching terminators -/

/-- An operator is a terminator that is connected with the rest of the graph. -/
def IsAttached (graph : Graph) (operator : Operator) : Prop :=
  operator.isMarkerOf .begin = true ∧
      (∀ output ∈ operator.outputs.map Port.id, ∃ target, ⟨output, target⟩ ∈ graph.edges) ∨
    operator.isMarkerOf .finish = true ∧
      ∀ input ∈ operator.inputs.map Port.id, ∃ source, ⟨source, input⟩ ∈ graph.edges

/-- Terminators are attached to a graph, and nothing is taken away. -/
structure Attaches (graph result : Graph) : Prop where
  framed : result.Framed
  operators : ∀ operator ∈ graph.operators, operator ∈ result.operators
  edges : ∀ edge ∈ graph.edges, edge ∈ result.edges
  new : ∀ operator ∈ result.operators, operator ∈ graph.operators ∨ result.IsAttached operator
  /-- Between operators that were there no edge is new. -/
  between : ∀ producer ∈ graph.operators, ∀ consumer ∈ graph.operators,
    ∀ source ∈ producer.outputs.map Port.id, ∀ target ∈ consumer.inputs.map Port.id,
      ⟨source, target⟩ ∈ result.edges → ⟨source, target⟩ ∈ graph.edges

theorem Attaches.refl (framed : graph.Framed) : graph.Attaches graph :=
  ⟨framed, fun _ => id, fun _ => id, fun _ => .inl, fun _ _ _ _ _ _ _ _ => id⟩

/-- What holds of `BEGIN` and of `END`, on the sides that they face. -/
theorem framed_iff : graph.Framed ↔ graph.WellFormed ∧
    ∀ operator ∈ graph.operators, ∀ side : PortSide, operator.isMarkerOf side.terminator = true →
      (operator.portsOn side).length = 1 ∧ ∀ port ∈ (operator.portsOn side.opposite).map Port.id,
        ∀ opposite, side.opposite.edge port opposite ∉ graph.edges := by
  constructor
  · intro framed
    refine ⟨framed.wellFormed, fun operator member side isTerminator => ?_⟩
    cases side with
    | input => exact ⟨framed.oneInput operator member isTerminator,
        framed.unread operator member isTerminator⟩
    | output => exact ⟨framed.oneOutput operator member isTerminator,
        framed.unfed operator member isTerminator⟩
  · rintro ⟨wellFormed, ends⟩
    exact ⟨wellFormed, fun operator member isBegin => (ends operator member .output isBegin).1,
      fun operator member isFinish => (ends operator member .input isFinish).1,
      fun operator member isBegin => (ends operator member .output isBegin).2,
      fun operator member isFinish => (ends operator member .input isFinish).2⟩

section Sealing

variable {caps : List Cap} (seals : graph.Seals result caps) (framed : graph.Framed)

include seals framed

/-- New terminators stand at the ends of the graph as well. -/
theorem Seals.framed_result : result.Framed := by
  have wellFormed := framed.wellFormed
  refine framed_iff.2 ⟨seals.wellFormed, fun operator member side isTerminator => ?_⟩
  rcases seals.old_or_new member with isOld | ⟨cap, isCap, rfl⟩
  · obtain ⟨one, bare⟩ := (framed_iff.1 framed).2 operator isOld side isTerminator
    refine ⟨one, fun port owned opposite isEdge => ?_⟩
    rcases (seals.edges _).1 isEdge with old | ⟨cap, isCap, same⟩
    · exact bare port owned opposite old
    · rcases side.eq_or_eq_opposite cap.side with sameSide | oppositeSide
      · rw [Cap.edge, sameSide, PortSide.edge_opposite] at same
        obtain ⟨found, isFound, inner, owns, -⟩ := seals.exists_owner wellFormed isCap
        rw [sameSide, ← (PortSide.edge_inj.1 same).2] at owns
        rw [wellFormed.owner_unique isFound isOld (Operator.mem_ports_of_mem_portsOn _ owns)
          (Operator.mem_ports_of_mem_portsOn _ owned), sameSide, isTerminator] at inner
        cases inner
      · rw [Cap.edge, oppositeSide] at same
        have isInner := seals.isInner isCap
        rw [← (PortSide.edge_inj.1 same).1] at isInner
        exact seals.not_owned wellFormed isCap isOld (Operator.mem_ports_of_mem_portsOn _ owned)
          (Operator.mem_ports_of_mem_portsOn _ isInner)
  · obtain rfl := Operator.side_unique (seals.kinds cap isCap) isTerminator
    have single := congrArg List.length (seals.inners cap isCap)
    rw [List.length_map] at single
    refine ⟨single, fun port owned opposite isEdge => ?_⟩
    have same := seals.edge_of_terminator wellFormed isCap isEdge owned
    rw [Cap.edge, PortSide.edge_opposite] at same
    obtain ⟨found, isFound, -, owns, -⟩ := seals.exists_owner wellFormed isCap
    rw [← (PortSide.edge_inj.1 same).2] at owns
    exact seals.not_owned wellFormed isCap isFound (Operator.mem_ports_of_mem_portsOn _ owns)
      (Operator.mem_ports_of_mem_portsOn _ owned)

theorem Seals.attaches : graph.Attaches result where
  framed := seals.framed_result framed
  operators _ := seals.old
  edges edge isEdge := (seals.edges edge).2 (.inl isEdge)
  new operator member := by
    refine (seals.old_or_new member).imp_right ?_
    rintro ⟨cap, isCap, rfl⟩
    have isEdge := seals.isEdge isCap
    have isTerminator := seals.kinds cap isCap
    have single := seals.inners cap isCap
    obtain ⟨side, terminator, inner, port⟩ := cap
    cases side with
    | input =>
      refine .inr ⟨isTerminator, fun input owned => ⟨port, ?_⟩⟩
      have listed : input ∈ [inner] := single ▸ owned
      rwa [List.mem_singleton.1 listed]
    | output =>
      refine .inl ⟨isTerminator, fun output owned => ⟨port, ?_⟩⟩
      have listed : output ∈ [inner] := single ▸ owned
      rwa [List.mem_singleton.1 listed]
  between _ isProducer _ isConsumer _ gives _ takes :=
    (seals.mem_edges_iff framed.wellFormed isProducer isConsumer gives takes).1

/-- No port is left without opposite but the outer ones of terminators. -/
theorem Seals.closed : result.Closed where
  toFramed := seals.framed_result framed
  fed _ member notBegin _ := seals.exists_opposite framed.wellFormed member .output notBegin
  read _ member notFinish _ := seals.exists_opposite framed.wellFormed member .input notFinish

end Sealing

end Graph

namespace Edit

variable {graph result : Graph}

/-- Attaching terminators to all dangling ports closes a graph. -/
theorem attaches_attachTerminators (framed : graph.Framed) {done : Unit}
    (yields : attachTerminators.Yields graph done result) : graph.Attaches result ∧ result.Closed := by
  obtain ⟨caps, seals⟩ := seals_attachTerminators framed.wellFormed yields
  exact ⟨seals.attaches framed, seals.closed framed⟩

theorem closed_attachTerminators (framed : graph.Framed) {done : Unit}
    (yields : attachTerminators.Yields graph done result) : result.Closed :=
  (attaches_attachTerminators framed yields).2

/-! ### Simplifying -/

/-- Removing operators leaves terminators at the ends. -/
theorem framed_removeAll {ids : List OperatorId} (framed : graph.Framed) {done : PUnit}
    (yields : (ids.forM fun id => do let _ ← remove id).Yields graph done result) :
    result.Framed := by
  have preserves : Preserves Graph.Framed (ids.forM fun id => do let _ ← remove id) := by
    refine Ensures.forM fun id _ => Ensures.bind ?_ fun _ => Ensures.pure _
    intro before removed after yields framed
    obtain ⟨found, rfl⟩ := yields_remove.1 yields
    exact framed.without (Graph.mem_of_operator found).1
  exact preserves graph done result yields framed

/-- Graphs stay closed when dead flow is removed. -/
theorem closed_removeDeadFlow (closed : graph.Closed) {count : Nat}
    (yields : removeDeadFlow.Yields graph count result) : result.Closed := by
  obtain ⟨_, _, seen, rest⟩ := yields_bind.1 yields
  obtain ⟨rfl, rfl⟩ := yields_get.1 seen
  obtain ⟨_, middle, removed, attached⟩ := yields_bind.1 rest
  dsimp only at attached
  split at attached
  · obtain ⟨_, _, closing, returned⟩ := yields_bind.1 attached
    obtain ⟨-, rfl⟩ := yields_pure.1 returned
    exact closed_attachTerminators (framed_removeAll closed.toFramed removed) closing
  · next none =>
    obtain ⟨-, rfl⟩ := yields_pure.1 attached
    have noDead : graph.deadOperators = [] := by simpa using none
    rw [noDead] at removed
    obtain ⟨-, rfl⟩ := yields_pure.1 removed
    exact closed

/-- A bypass puts no terminator elsewhere. -/
theorem framed_bypass (framed : graph.Framed) {id : OperatorId} {done : Unit}
    (yields : (bypass id).Yields graph done result) :
    result.Framed ∧ ∀ operator ∈ result.operators, operator ∈ graph.operators := by
  have wellFormed := framed.wellFormed
  have resultWellFormed := (keeps_bypass id).wellFormed wellFormed yields
  obtain ⟨operator, entry, exit, -, -, same, edges⟩ := yields_bypass wellFormed yields
  have fewer : ∀ other ∈ result.operators, other ∈ graph.operators :=
    fun _ isThere => (same.mem_operators_iff.1 isThere).1
  refine ⟨framed.of_edges resultWellFormed fewer ?_ ?_, fewer⟩
  · intro source target isEdge
    rcases (edges source target).1 isEdge with old | ⟨-, leaves⟩
    · exact ⟨source, (Graph.mem_edges_without.1 old).1⟩
    · exact ⟨_, leaves⟩
  · intro source target isEdge
    rcases (edges source target).1 isEdge with old | ⟨enters, -⟩
    · exact ⟨target, (Graph.mem_edges_without.1 old).1⟩
    · exact ⟨_, enters⟩

/-- A closed graph stays closed when an operator is bypassed that is no terminator. -/
theorem closed_bypass (closed : graph.Closed) {id : OperatorId} {done : Unit}
    (inner : ∀ operator ∈ graph.operators, operator.id = id → ¬ operator.isMarker = true)
    (yields : (bypass id).Yields graph done result) :
    result.Closed ∧ ∀ operator ∈ result.operators, operator ∈ graph.operators := by
  have wellFormed := closed.wellFormed
  obtain ⟨framed, fewer⟩ := framed_bypass closed.toFramed yields
  obtain ⟨operator, entry, exit, rfl, threads, same, edges⟩ := yields_bypass wellFormed yields
  have member := threads.member
  have isInner := inner operator member rfl
  have apart : ∀ {other : Operator}, other ∈ result.operators → ∀ {port : PortId},
      port ∈ other.ports.map Port.id → port ∉ operator.ports.map Port.id :=
    same.not_mem_ports wellFormed member
  refine ⟨⟨framed, ?_, ?_⟩, fewer⟩
  · intro other isThere notBegin target owned
    obtain ⟨source, isEdge⟩ := closed.fed other (fewer other isThere) notBegin target owned
    by_cases isLeft : source = exit
    · -- What fed the operator feeds what it fed.
      obtain ⟨before, enters⟩ :=
        closed.fed operator member (operator.not_markerOf isInner .begin) entry threads.isEntry
      exact ⟨before, (edges before target).2 (.inr ⟨enters, isLeft ▸ isEdge⟩)⟩
    · refine ⟨source, (edges source target).2 (.inl (Graph.mem_edges_without.2 ⟨isEdge,
        fun owns => isLeft ?_, apart isThere (Operator.mem_ports_of_mem_portsOn .input owned)⟩))⟩
      have gives := wellFormed.mem_portsOn_of_edge .output member owns isEdge
      rwa [Operator.portsOn, threads.outputs, List.mem_singleton] at gives
  · intro other isThere notFinish source owned
    obtain ⟨target, isEdge⟩ := closed.read other (fewer other isThere) notFinish source owned
    by_cases isEntered : target = entry
    · obtain ⟨after, leaves⟩ :=
        closed.read operator member (operator.not_markerOf isInner .finish) exit threads.isExit
      exact ⟨after, (edges source after).2 (.inr ⟨isEntered ▸ isEdge, leaves⟩)⟩
    · refine ⟨target, (edges source target).2 (.inl (Graph.mem_edges_without.2 ⟨isEdge,
        apart isThere (Operator.mem_ports_of_mem_portsOn .output owned), fun owns => isEntered ?_⟩))⟩
      have takes := wellFormed.mem_portsOn_of_edge .input member owns isEdge
      rwa [Operator.portsOn, threads.inputs, List.mem_singleton] at takes

/-- A closed graph stays closed, and no operators come up. -/
def Thins (graph result : Graph) : Prop :=
  graph.Closed → result.Closed ∧ ∀ operator ∈ result.operators, operator ∈ graph.operators

instance : IsPreorder Graph Thins where
  refl _ closed := ⟨closed, fun _ => id⟩
  trans _ _ _ first second closed := by
    obtain ⟨middleClosed, fewer⟩ := first closed
    obtain ⟨resultClosed, fewest⟩ := second middleClosed
    exact ⟨resultClosed, fun operator member => fewer operator (fewest operator member)⟩

/-- Bypassing inner operators one after the other. -/
theorem thins_forM_bypass {ids : List OperatorId} {done : PUnit}
    (inner : ∀ id ∈ ids, ∀ operator ∈ graph.operators, operator.id = id →
      ¬ operator.isMarker = true)
    (yields : (ids.forM bypass).Yields graph done result) : Thins graph result := by
  induction ids generalizing graph with
  | nil =>
    obtain ⟨-, rfl⟩ := yields_pure.1 yields
    exact refl_of Thins graph
  | cons id rest ih =>
    intro closed
    obtain ⟨_, middle, first, others⟩ := yields_bind.1 yields
    obtain ⟨atId, atRest⟩ := List.forall_mem_cons.1 inner
    obtain ⟨middleClosed, fewer⟩ := closed_bypass closed atId first
    obtain ⟨resultClosed, fewest⟩ := ih
      (fun other member operator isThere => atRest other member operator (fewer operator isThere))
      others middleClosed
    exact ⟨resultClosed, fun operator member => fewer operator (fewest operator member)⟩

theorem thins_collapseCheckpoint (id : OperatorId) :
    Ensures Thins (SimplificationRule.collapseCheckpoint id) := by
  intro graph changed result yields closed
  obtain ⟨_, _, seen, rest⟩ := yields_bind.1 yields
  obtain ⟨rfl, rfl⟩ := yields_get.1 seen
  split at rest
  · next isStacked =>
    obtain ⟨_, _, bypassed, returned⟩ := yields_bind.1 rest
    obtain ⟨-, rfl⟩ := yields_pure.1 returned
    refine closed_bypass closed (fun operator member same => ?_) bypassed
    have isCheckpoint := (Bool.and_eq_true_iff.1 isStacked).1
    rw [Graph.isCheckpoint, ← same, Graph.holds_id closed.wellFormed member] at isCheckpoint
    exact Operator.not_marker_of_core isCheckpoint
  · obtain ⟨-, rfl⟩ := yields_pure.1 rest
    exact refl_of Thins graph closed

theorem thins_rule (rule : SimplificationRule) : Ensures Thins rule.apply := by
  cases rule with
  | trivialProjections =>
    intro graph changed result yields
    obtain ⟨_, _, seen, rest⟩ := yields_bind.1 yields
    obtain ⟨rfl, rfl⟩ := yields_get.1 seen
    obtain ⟨_, _, bypassed, returned⟩ := yields_bind.1 rest
    obtain ⟨-, rfl⟩ := yields_pure.1 returned
    intro closed
    refine thins_forM_bypass (fun id member operator isThere same => ?_) bypassed closed
    obtain ⟨target, isTarget, rfl⟩ := List.mem_map.1 member
    obtain ⟨isOld, isTrivial⟩ := List.mem_filter.1 isTarget
    rw [closed.wellFormed.operator_unique isThere isOld same]
    rw [Operator.isTrivialProjection, Bool.and_assoc] at isTrivial
    exact Operator.not_marker_of_core (Bool.and_eq_true_iff.1 isTrivial).1
  | stackedCheckpoints =>
    exact Ensures.get.bind fun _ =>
      (Ensures.countChanges fun id _ => thins_collapseCheckpoint id).bind fun _ => Ensures.pure _

/-- Whatever removing dead flow and a simplifier ensure, rounds of both do. -/
theorem Ensures.settle {relates : Graph → Graph → Prop} [IsPreorder Graph relates]
    {simplifier : Simplifier} (removed : removeDeadFlow.Ensures relates)
    (simplified : simplifier.Ensures relates) (done remaining : Nat) :
    (simplifier.settle done remaining).Ensures relates := by
  induction remaining generalizing done with
  | zero => exact removed.bind fun _ => Ensures.pure _
  | succ remaining ih =>
    refine removed.bind fun _ => Ensures.get.bind fun before => simplified.bind fun _ =>
      Ensures.get.bind fun after => ?_
    split
    · exact Ensures.pure _
    · exact ih (done + 1)

/-- A closed graph is closed after any number of rounds of the standard simplifier. -/
theorem closed_settle (done remaining : Nat) :
    Preserves Graph.Closed (Simplifier.standard.settle done remaining) := by
  refine Ensures.settle (fun _ _ _ yields closed => closed_removeDeadFlow closed yields)
    (Ensures.forM fun rule _ => Ensures.bind ?_ fun _ => Ensures.pure _) done remaining
  exact fun graph value result yields closed => (thins_rule rule graph value result yields closed).1

end Edit

end StagePlanner
