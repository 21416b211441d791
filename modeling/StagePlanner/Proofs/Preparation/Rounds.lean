import StagePlanner.Proofs.Graph.Completion
import StagePlanner.Proofs.Preparation.Circuits
import StagePlanner.Proofs.Preparation.Regularity

/-!
# Rounds of simplification

The rounds of the standard simplifier keep circuits that lead out, except that they fail at one of
projections that change nothing: bypassing its operators one after the other leaves one that feeds
itself, and such an operator cannot be bypassed (`Edit.ends_settle`).
-/

namespace StagePlanner

open Relation

/-- The second graph is well formed and has all operators of the first one. -/
structure Graph.Includes (graph result : Graph) : Prop where
  wellFormed : result.WellFormed
  operators : ∀ operator ∈ graph.operators, operator ∈ result.operators

namespace Edit

variable {graph result : Graph} {because : Fault → Graph → Prop}

/-! ### Attaching terminators -/

theorem succeeds_beginAt (wellFormed : graph.WellFormed) {port : Port}
    (isInput : ∃ operator ∈ graph.operators, port.id ∈ operator.inputs.map Port.id) :
    (beginAt port).Succeeds graph := by
  obtain ⟨operator, member, owned⟩ := isInput
  have isPassThrough : (Blueprint.marker .begin port.dataType).isPassThrough = true := rfl
  obtain ⟨-, atExit⟩ := ports_of_added wellFormed isPassThrough
  obtain ⟨-, isExit⟩ := exists_owner_added graph isPassThrough
  refine Ends.succeeds (fun _ _ => True) (Ends.add_bind (Ends.look_bind atExit ?_))
  exact (ends_connect (wellFormed.add _) isExit
    ⟨operator, List.mem_append_left _ member, owned⟩).mono fun _ _ _ _ => trivial

theorem succeeds_finishAt (wellFormed : graph.WellFormed) {port : Port}
    (isOutput : ∃ operator ∈ graph.operators, port.id ∈ operator.outputs.map Port.id) :
    (finishAt port).Succeeds graph := by
  obtain ⟨operator, member, owned⟩ := isOutput
  have isPassThrough : (Blueprint.marker .finish port.dataType).isPassThrough = true := rfl
  obtain ⟨atEntry, -⟩ := ports_of_added wellFormed isPassThrough
  obtain ⟨isEntry, -⟩ := exists_owner_added graph isPassThrough
  refine Ends.succeeds (fun _ _ => True) (Ends.add_bind (Ends.look_bind atEntry ?_))
  exact (ends_connect (wellFormed.add _) ⟨operator, List.mem_append_left _ member, owned⟩
    isEntry).mono fun _ _ _ _ => trivial

theorem keeps_beginAt (port : Port) : Keeps (beginAt port) :=
  (keeps_add _).bind fun _ => (Keeps.look _).bind fun _ => keeps_connect _ _

theorem keeps_finishAt (port : Port) : Keeps (finishAt port) :=
  (keeps_add _).bind fun _ => (Keeps.look _).bind fun _ => keeps_connect _ _

theorem keeps_removeDeadFlow : Keeps removeDeadFlow := by
  refine Keeps.get.bind fun graph =>
    (Keeps.forM fun id => (keeps_remove id).bind fun _ => Keeps.pure _).bind fun _ => ?_
  dsimp only
  split
  · exact (Keeps.get.bind fun _ => (Keeps.forM keeps_beginAt).bind fun _ =>
      Keeps.forM keeps_finishAt).bind fun _ => Keeps.pure _
  · exact Keeps.pure _

/-- Terminators can be attached to all dangling ports. -/
theorem succeeds_attachTerminators (wellFormed : graph.WellFormed) :
    attachTerminators.Succeeds graph := by
  refine Ends.succeeds (fun _ => graph.Includes) (Ends.get_bind ?_)
  refine (Ends.forM_of ⟨wellFormed, fun _ => id⟩ fun port dangles changed includes => ?_).bind
    fun _ middle first => Ends.forM_of first fun port dangles changed includes => ?_
  · obtain ⟨operator, isOperator, owned⟩ := List.mem_flatMap.1 dangles
    refine (succeeds_beginAt includes.wellFormed ⟨operator, includes.operators operator
      (List.mem_filter.1 isOperator).1, List.mem_map_of_mem (List.mem_filter.1 owned).1⟩).ends
        fun _ result yields => ⟨(keeps_beginAt port).wellFormed includes.wellFormed yields, ?_⟩
    rw [← yields_beginAt includes.wellFormed yields]
    exact fun other member => List.mem_append_left _ (includes.operators other member)
  · obtain ⟨operator, isOperator, owned⟩ := List.mem_flatMap.1 dangles
    refine (succeeds_finishAt includes.wellFormed ⟨operator, includes.operators operator
      (List.mem_filter.1 isOperator).1, List.mem_map_of_mem (List.mem_filter.1 owned).1⟩).ends
        fun _ result yields => ⟨(keeps_finishAt port).wellFormed includes.wellFormed yields, ?_⟩
    rw [← yields_finishAt includes.wellFormed yields]
    exact fun other member => List.mem_append_left _ (includes.operators other member)

/-- They close a graph in which terminators stand at the ends. -/
theorem ends_attachTerminators (framed : graph.Framed) :
    attachTerminators.Ends graph (fun _ result => graph.Attaches result ∧ result.Closed) because :=
  (succeeds_attachTerminators framed.wellFormed).ends fun _ _ => attaches_attachTerminators framed

/-! ### Removing dead flow -/

/-- Operators that are there can be removed, which restricts the graph to the others. -/
theorem ends_forM_remove {ids : List OperatorId} (wellFormed : graph.WellFormed)
    (known : ∀ id ∈ ids, ∃ operator ∈ graph.operators, operator.id = id) (distinct : ids.Nodup) :
    (ids.forM fun id => do let _ ← remove id).Ends graph
      (fun _ result => result.Restricts graph fun id => id ∉ ids) because := by
  refine (Ends.forM
    (fun rest changed => changed.Restricts graph (fun id => id ∉ ids ∨ id ∈ rest) ∧
      rest.Nodup ∧ rest ⊆ ids) ⟨?_, distinct, List.Subset.refl ids⟩ ?_).mono ?_
  · exact wellFormed.restricts_refl.congr fun id => ⟨fun _ => (em _).symm, fun _ => trivial⟩
  · rintro id rest changed ⟨restricts, distinct, included⟩
    obtain ⟨isListed, restIncluded⟩ := List.cons_subset.1 included
    obtain ⟨notLater, restDistinct⟩ := List.nodup_cons.1 distinct
    obtain ⟨operator, member, rfl⟩ := known id isListed
    have stillThere := (restricts.operators operator).2 ⟨member, .inr List.mem_cons_self⟩
    refine Ends.remove_bind restricts.wellFormed stillThere
      ⟨((restricts.wellFormed.restricts_without stillThere).trans restricts).congr fun other => ?_,
        restDistinct, restIncluded⟩
    refine ⟨fun ⟨stays, different⟩ => stays.imp_right fun listed =>
      (List.mem_cons.1 listed).resolve_left different, fun stays =>
        ⟨stays.imp_right (List.mem_cons_of_mem _), ?_⟩⟩
    rintro rfl
    exact stays.elim (· isListed) notLater
  · rintro _ changed _ ⟨restricts, -⟩
    exact restricts.congr fun id => ⟨fun kept => kept.resolve_right List.not_mem_nil, .inl⟩

end Edit

namespace Graph

variable {graph : Graph}

/-- The productive operators are those that lead out. -/
theorem mem_productive (wellFormed : graph.WellFormed) {id : OperatorId} :
    id ∈ graph.productive ↔ graph.LeadsOut id := by
  have search : Reach.StepInto (fun id => (graph.predecessors id).toList) graph.operatorIds =
      Function.swap graph.Feeds := by
    funext source target
    rw [Reach.StepInto, OrderedSet.mem_toList, mem_predecessors wellFormed, mem_operatorIds]
    exact propext ⟨And.left, fun feeds => ⟨feeds, feeds.operators.1⟩⟩
  have isExternal : ∀ id, id ∈ graph.externalOutputs ↔
      ∃ output ∈ graph.operators, output.kind.isOutput = true ∧ output.id = id := by
    intro id
    rw [externalOutputs, List.mem_map]
    simp only [List.mem_filter, and_assoc]
  rw [productive, OrderedSet.mem_ofList, List.mem_append, Reach.mem_reachable, search]
  simp only [transGen_swap, isExternal]
  constructor
  · rintro (⟨output, member, isOutput, rfl⟩ | ⟨_, ⟨output, member, isOutput, rfl⟩, way⟩)
    · exact ⟨output, member, isOutput, .refl⟩
    · exact ⟨output, member, isOutput, way.to_reflTransGen⟩
  · rintro ⟨output, member, isOutput, way⟩
    rcases reflTransGen_iff_eq_or_transGen.1 way with same | way
    · exact .inl ⟨output, member, isOutput, same⟩
    · exact .inr ⟨output.id, ⟨output, member, isOutput, rfl⟩, way⟩

/-- What leads out is not dead. -/
theorem LeadsOut.not_dead (wellFormed : graph.WellFormed) {id : OperatorId}
    (leadsOut : graph.LeadsOut id) : id ∉ graph.deadOperators := by
  intro isDead
  obtain ⟨operator, found, rfl⟩ := List.mem_map.1 isDead
  have notLive := (List.mem_filter.1 found).2
  rw [isLive, decide_eq_true ((mem_productive wellFormed).2 leadsOut)] at notLive
  cases notLive

/-- Whatever is not dead leads out unless it is a terminator. -/
theorem leadsOut_of_not_dead (wellFormed : graph.WellFormed) {operator : Operator}
    (member : operator ∈ graph.operators) (inner : ¬ operator.IsTerminator)
    (notDead : operator.id ∉ graph.deadOperators) : graph.LeadsOut operator.id := by
  by_contra idle
  refine notDead (List.mem_map_of_mem (List.mem_filter.2 ⟨member, ?_⟩))
  have notBeside : graph.terminates graph.productive operator = false := by
    rw [terminates]
    split
    · next isBegin => exact absurd (.inl (by rw [Operator.isMarkerOf, isBegin]; rfl)) inner
    · next isFinish => exact absurd (.inr (by rw [Operator.isMarkerOf, isFinish]; rfl)) inner
    · rfl
  rw [isLive, notBeside, decide_eq_false (mt (mem_productive wellFormed).1 idle)]
  rfl

/-- Without its dead operators a graph is lively. -/
theorem Restricts.lively (wellFormed : graph.WellFormed) {live : Graph}
    (restricts : live.Restricts graph fun id => id ∉ graph.deadOperators) : live.Lively := by
  intro operator member inner
  obtain ⟨old, notDead⟩ := (restricts.operators operator).1 member
  exact (restricts.leadsOut_iff fun id leadsOut => leadsOut.not_dead wellFormed).2
    (leadsOut_of_not_dead wellFormed old inner notDead)

end Graph

/-- Preparation adds no operators of the planner, and it keeps their ports. -/
theorem Operator.passed_slender : Operator.Passed Operator.Slender where
  terminator graph marker dataType isTerminator kind isCore := nomatch isCore
  boundary graph blueprint boundary kind isCore := by
    cases boundary <;> cases isCore
  rebuilt graph operator units slender kind isCore := by
    obtain ⟨inputs, outputs⟩ := slender kind isCore
    simp [Graph.added, Graph.length_assignPorts, Blueprint.withUnits, Operator.blueprint, inputs,
      outputs]
    omega

namespace Graph

variable {start graph result : Graph}

/-- Simplification took operators out of a graph: nothing idle is left, and the circuits that lead
out are still there. -/
structure Reduces (start graph : Graph) : Prop where
  closed : graph.Closed
  lively : graph.Lively
  slender : ∀ operator ∈ graph.operators, operator.Slender
  circuits : graph.HasLiveCircuit (fun _ => true) ↔ start.HasLiveCircuit fun _ => true

theorem Reduces.trans {middle : Graph} (first : start.Reduces middle) (second : middle.Reduces result) :
    start.Reduces result :=
  ⟨second.closed, second.lively, second.slender, second.circuits.trans first.circuits⟩

/-- Operators of the planner are neither terminators nor external outputs. -/
theorem inner_of_core {operator : Operator} {kind : CoreKind} (isCore : operator.isCore kind = true) :
    ¬ operator.IsTerminator ∧ operator.kind.isOutput = false := by
  refine ⟨?_, by rw [of_decide_eq_true isCore]; rfl⟩
  rintro (isMarker | isMarker) <;>
    rw [operator.not_markerOf (Operator.not_marker_of_core isCore)] at isMarker <;>
    cases isMarker

/-- An operator on a circuit feeds one that passes the test as well, maybe itself. -/
theorem HasLiveCircuit.exists_step {pass : Operator → Bool} (live : graph.HasLiveCircuit pass) :
    ∃ source target, graph.FeedsBy pass source target ∧ graph.holds pass target = true := by
  obtain ⟨id, circuit, -⟩ := live
  obtain ⟨next, step, back⟩ := TransGen.head'_iff.1 circuit
  rcases ReflTransGen.cases_head back with rfl | ⟨_, further, -⟩
  · exact ⟨next, next, step, step.1⟩
  · exact ⟨id, next, step, further.1⟩

/-- Without an operator that passes a test there is no circuit of such operators. -/
theorem not_hasLiveCircuit (wellFormed : graph.WellFormed) {pass : Operator → Bool}
    (none : ∀ operator ∈ graph.operators, pass operator = false) : ¬ graph.HasLiveCircuit pass := by
  intro live
  obtain ⟨_, _, -, isPassed⟩ := live.exists_step
  obtain ⟨operator, member, -, passes⟩ := (holds_iff wellFormed).1 isPassed
  rw [none operator member] at passes
  cases passes

namespace Threads

variable {operator : Operator} {entry exit : PortId} (threads : graph.Threads operator entry exit)
  (wellFormed : graph.WellFormed)

include threads wellFormed

theorem enters {source : OperatorId} : graph.Feeds source operator.id ↔
    ∃ output, ⟨output, entry⟩ ∈ graph.edges ∧
      ∃ producer ∈ graph.operators, producer.id = source ∧ output ∈ producer.outputs.map Port.id := by
  rw [feeds_iff_exists_edge]
  constructor
  · rintro ⟨output, input, edge, isProducer, consumer, isConsumer, same, takes⟩
    rw [wellFormed.operator_unique isConsumer threads.member same, threads.inputs,
      List.mem_singleton] at takes
    exact ⟨output, takes ▸ edge, isProducer⟩
  · rintro ⟨output, edge, isProducer⟩
    exact ⟨output, entry, edge, isProducer, operator, threads.member, rfl, threads.isEntry⟩

theorem leaves {target : OperatorId} : graph.Feeds operator.id target ↔
    ∃ input, ⟨exit, input⟩ ∈ graph.edges ∧
      ∃ consumer ∈ graph.operators, consumer.id = target ∧ input ∈ consumer.inputs.map Port.id := by
  rw [feeds_iff_exists_edge]
  constructor
  · rintro ⟨output, input, edge, ⟨producer, isProducer, same, gives⟩, isConsumer⟩
    rw [wellFormed.operator_unique isProducer threads.member same, threads.outputs,
      List.mem_singleton] at gives
    exact ⟨input, gives ▸ edge, isConsumer⟩
  · rintro ⟨input, edge, isConsumer⟩
    exact ⟨exit, input, edge, ⟨operator, threads.member, rfl, threads.isExit⟩, isConsumer⟩

/-- Such an operator feeds itself along one edge. -/
theorem loop : graph.Feeds operator.id operator.id ↔ ⟨exit, entry⟩ ∈ graph.edges := by
  rw [threads.leaves wellFormed]
  constructor
  · rintro ⟨input, edge, consumer, isConsumer, same, takes⟩
    rw [wellFormed.operator_unique isConsumer threads.member same, threads.inputs,
      List.mem_singleton] at takes
    exact takes ▸ edge
  · exact fun edge => ⟨entry, edge, operator, threads.member, rfl, threads.isEntry⟩

end Threads

end Graph

namespace Edit

variable {graph result : Graph} {because : Fault → Graph → Prop}

/-- Dead operators are operators of the graph, and each is listed once. -/
theorem dead_operators (wellFormed : graph.WellFormed) :
    (∀ id ∈ graph.deadOperators, ∃ operator ∈ graph.operators, operator.id = id) ∧
      graph.deadOperators.Nodup := by
  refine ⟨fun id isDead => ?_, wellFormed.nodup_operatorIds.sublist (List.filter_sublist.map _)⟩
  obtain ⟨operator, found, same⟩ := List.mem_map.1 isDead
  exact ⟨operator, (List.mem_filter.1 found).1, same⟩

/-- Dead flow can be removed from any graph. -/
theorem succeeds_removeDeadFlow (wellFormed : graph.WellFormed) : removeDeadFlow.Succeeds graph := by
  obtain ⟨known, distinct⟩ := dead_operators wellFormed
  refine Ends.succeeds (fun _ _ => True) (Ends.get_bind ?_)
  refine (ends_forM_remove wellFormed known distinct).bind fun _ middle restricts => ?_
  dsimp only
  split
  · have attaches : attachTerminators.Ends middle (fun _ _ => True) fun _ _ => False :=
      (succeeds_attachTerminators restricts.wellFormed).ends fun _ _ _ => trivial
    exact attaches.bind fun _ _ _ => Ends.pure trivial
  · exact Ends.pure trivial

/-- Removing dead flow leaves what is not dead, and attaches terminators if anything was dead. -/
theorem live_of_removeDeadFlow (wellFormed : graph.WellFormed) {count : Nat}
    (yields : removeDeadFlow.Yields graph count result) :
    count = graph.deadOperators.length ∧ ∃ live : Graph,
      (graph.deadOperators.forM fun id => do let _ ← remove id).Yields graph () live ∧
        live.Restricts graph (fun id => id ∉ graph.deadOperators) ∧
          (graph = live ∧ live = result ∨ attachTerminators.Yields live () result) := by
  obtain ⟨known, distinct⟩ := dead_operators wellFormed
  obtain ⟨_, _, seen, rest⟩ := yields_bind.1 yields
  obtain ⟨rfl, rfl⟩ := yields_get.1 seen
  obtain ⟨_, live, removed, attached⟩ := yields_bind.1 rest
  have restricts : live.Restricts graph fun id => id ∉ graph.deadOperators := by
    have ends : (graph.deadOperators.forM fun id => do let _ ← remove id).Ends graph
        (fun _ live => live.Restricts graph fun id => id ∉ graph.deadOperators) fun _ _ => False :=
      ends_forM_remove wellFormed known distinct
    rwa [Ends, removed] at ends
  dsimp only at attached
  split at attached
  · obtain ⟨_, _, closing, returned⟩ := yields_bind.1 attached
    obtain ⟨rfl, rfl⟩ := yields_pure.1 returned
    exact ⟨rfl, live, removed, restricts, .inr closing⟩
  · next none =>
    obtain ⟨rfl, rfl⟩ := yields_pure.1 attached
    refine ⟨rfl, live, removed, restricts, .inl ⟨?_, rfl⟩⟩
    have noDead : graph.deadOperators = [] := by simpa using none
    rw [noDead] at removed
    exact (yields_pure.1 removed).2

/-- In a graph in which terminators stand at the ends they do so afterwards. -/
theorem exists_live_of_removeDeadFlow (framed : graph.Framed) {count : Nat}
    (yields : removeDeadFlow.Yields graph count result) :
    ∃ live : Graph, live.Framed ∧ live.Restricts graph (fun id => id ∉ graph.deadOperators) ∧
      live.Attaches result := by
  obtain ⟨-, live, removed, restricts, closing⟩ := live_of_removeDeadFlow framed.wellFormed yields
  have liveFramed := framed_removeAll framed removed
  refine ⟨live, liveFramed, restricts, ?_⟩
  rcases closing with ⟨-, rfl⟩ | closing
  · exact .refl liveFramed
  · exact (attaches_attachTerminators liveFramed closing).1

/-- Removing dead flow leaves what leads out and keeps all circuits of it. -/
theorem ends_removeDeadFlow (closed : graph.Closed)
    (slender : ∀ operator ∈ graph.operators, operator.Slender) :
    removeDeadFlow.Ends graph (fun _ result => graph.Reduces result ∧
      ∀ pass, result.HasLiveCircuit pass ↔ graph.HasLiveCircuit pass) because := by
  have wellFormed := closed.wellFormed
  have kept : ∀ id, graph.LeadsOut id → id ∉ graph.deadOperators :=
    fun id leadsOut => leadsOut.not_dead wellFormed
  refine (succeeds_removeDeadFlow wellFormed).ends fun _ result yields => ?_
  obtain ⟨live, framed, restricts, attaches⟩ := exists_live_of_removeDeadFlow closed.toFramed yields
  have circuits : ∀ pass, result.HasLiveCircuit pass ↔ graph.HasLiveCircuit pass := fun pass =>
    (attaches.hasLiveCircuit_iff framed.wellFormed).trans (restricts.hasLiveCircuit_iff kept wellFormed)
  exact ⟨⟨closed_removeDeadFlow closed yields, attaches.lively (restricts.lively wellFormed),
    (Operator.passed_slender.lasting.removeDeadFlow _ _ _ yields ⟨wellFormed, slender⟩).each,
    circuits _⟩, circuits⟩

/-! ### Bypassing -/

/-- Bypassing contracts a graph. -/
theorem contracts_bypass (wellFormed : graph.WellFormed) {id : OperatorId} {done : Unit}
    (yields : (bypass id).Yields graph done result) : graph.Contracts result id := by
  have resultWellFormed := (keeps_bypass id).wellFormed wellFormed yields
  obtain ⟨operator, entry, exit, rfl, threads, same, edges⟩ := yields_bypass wellFormed yields
  have stays : ∀ other, other ∈ result.operators ↔
      other ∈ graph.operators ∧ other.id ≠ operator.id := fun _ => same.mem_operators_iff
  refine ⟨resultWellFormed, stays, fun source target => ?_⟩
  constructor
  · intro feeds
    obtain ⟨output, input, edge, ⟨producer, isProducer, rfl, gives⟩, consumer, isConsumer, rfl, takes⟩ :=
      Graph.feeds_iff_exists_edge.1 feeds
    obtain ⟨wasProducer, notFirst⟩ := (stays producer).1 isProducer
    obtain ⟨wasConsumer, notSecond⟩ := (stays consumer).1 isConsumer
    refine ⟨notFirst, notSecond, ?_⟩
    rcases (edges output input).1 edge with old | ⟨entering, leaving⟩
    · exact .inl (Graph.feeds_iff_exists_edge.2 ⟨output, input, (Graph.mem_edges_without.1 old).1,
        ⟨producer, wasProducer, rfl, gives⟩, consumer, wasConsumer, rfl, takes⟩)
    · exact .inr ⟨(threads.enters wellFormed).2 ⟨output, entering, producer, wasProducer, rfl, gives⟩,
        (threads.leaves wellFormed).2 ⟨input, leaving, consumer, wasConsumer, rfl, takes⟩⟩
  · rintro ⟨notFirst, notSecond, direct | ⟨entering, leaving⟩⟩
    · obtain ⟨output, input, edge, ⟨producer, isProducer, rfl, gives⟩, consumer, isConsumer, rfl, takes⟩ :=
        Graph.feeds_iff_exists_edge.1 direct
      have producerStays := (stays producer).2 ⟨isProducer, notFirst⟩
      have consumerStays := (stays consumer).2 ⟨isConsumer, notSecond⟩
      exact Graph.feeds_iff_exists_edge.2 ⟨output, input,
        (edges output input).2 (.inl (Graph.mem_edges_without.2 ⟨edge,
          same.not_mem_ports wellFormed threads.member producerStays
            (Operator.mem_ports_of_mem_portsOn .output gives),
          same.not_mem_ports wellFormed threads.member consumerStays
            (Operator.mem_ports_of_mem_portsOn .input takes)⟩)),
        ⟨producer, producerStays, rfl, gives⟩, consumer, consumerStays, rfl, takes⟩
    · obtain ⟨output, atEntry, producer, isProducer, rfl, gives⟩ :=
        (threads.enters wellFormed).1 entering
      obtain ⟨input, atExit, consumer, isConsumer, rfl, takes⟩ :=
        (threads.leaves wellFormed).1 leaving
      exact Graph.feeds_iff_exists_edge.2 ⟨output, input,
        (edges output input).2 (.inr ⟨atEntry, atExit⟩),
        ⟨producer, (stays producer).2 ⟨isProducer, notFirst⟩, rfl, gives⟩,
        consumer, (stays consumer).2 ⟨isConsumer, notSecond⟩, rfl, takes⟩

/-- An operator of the planner that does not feed itself can be bypassed. -/
theorem ends_bypass {start : Graph} (reduces : start.Reduces graph) {operator : Operator}
    (member : operator ∈ graph.operators) {kind : CoreKind} (isCore : operator.isCore kind = true)
    (loopless : ¬ graph.Feeds operator.id operator.id) :
    (bypass operator.id).Ends graph
      (fun _ result => start.Reduces result ∧ graph.Contracts result operator.id) because := by
  have wellFormed := reduces.closed.wellFormed
  obtain ⟨entry, exit, threads⟩ := (reduces.slender operator member).threads member isCore
  have only : ∀ other ∈ graph.operators, other.id = operator.id → other = operator :=
    fun other isThere => wellFormed.operator_unique isThere member
  have noOutput : ∀ other ∈ graph.operators, other.id = operator.id → other.kind.isOutput = false :=
    fun other isThere same => only other isThere same ▸ (Graph.inner_of_core isCore).2
  refine (succeeds_bypass wellFormed threads (mt (threads.loop wellFormed).2 loopless)).ends
    fun _ result yields => ?_
  have contracts := contracts_bypass wellFormed yields
  obtain ⟨closed, fewer⟩ := closed_bypass reduces.closed
    (fun other isThere same => only other isThere same ▸ Operator.not_marker_of_core isCore) yields
  refine ⟨⟨closed, contracts.lively reduces.lively noOutput,
    fun other isThere => reduces.slender other (fewer other isThere), ?_⟩, contracts⟩
  rw [← reduces.circuits]
  exact ⟨fun live => contracts.hasLiveCircuit_of wellFormed live fun _ _ _ => rfl,
    fun live => contracts.hasLiveCircuit wellFormed live loopless noOutput⟩

/-! ### Rules -/

theorem isCore_of_isTrivialProjection {operator : Operator}
    (isTrivial : operator.isTrivialProjection = true) : operator.isCore .project = true := by
  rw [Operator.isTrivialProjection, Bool.and_eq_true, Bool.and_eq_true] at isTrivial
  exact isTrivial.1.1

/-- Projections that change nothing are being bypassed, and some are left. -/
structure Dropping (start graph : Graph) (rest : List OperatorId) : Prop where
  reduces : start.Reduces graph
  pending : ∀ operator ∈ graph.operators, operator.isTrivialProjection = true → operator.id ∈ rest
  known : ∀ id ∈ rest, ∃ operator ∈ graph.operators, operator.id = id ∧
    operator.isTrivialProjection = true
  distinct : rest.Nodup
  hollow : graph.HasLiveCircuit Operator.isTrivialProjection ↔
    start.HasLiveCircuit Operator.isTrivialProjection

/-- One of them is bypassed. -/
theorem Dropping.bypassed {start : Graph} {operator : Operator} {rest : List OperatorId}
    (dropping : Dropping start graph (operator.id :: rest)) (member : operator ∈ graph.operators)
    (isTrivial : operator.isTrivialProjection = true)
    (loopless : ¬ graph.Feeds operator.id operator.id) (reduces : start.Reduces result)
    (contracts : graph.Contracts result operator.id) : Dropping start result rest := by
  have wellFormed := dropping.reduces.closed.wellFormed
  have isCore := isCore_of_isTrivialProjection isTrivial
  have only : ∀ other ∈ graph.operators, other.id = operator.id → other = operator :=
    fun other isThere => wellFormed.operator_unique isThere member
  obtain ⟨notLater, distinct⟩ := List.nodup_cons.1 dropping.distinct
  refine ⟨reduces, fun other isThere passes => ?_, fun id listed => ?_, distinct, ?_⟩
  · obtain ⟨old, differs⟩ := (contracts.operators other).1 isThere
    exact (List.mem_cons.1 (dropping.pending other old passes)).resolve_left differs
  · obtain ⟨other, old, rfl, passes⟩ := dropping.known id (List.mem_cons_of_mem _ listed)
    refine ⟨other, (contracts.operators other).2 ⟨old, fun same => notLater ?_⟩, rfl, passes⟩
    exact same ▸ listed
  · rw [← dropping.hollow]
    exact ⟨fun live => contracts.hasLiveCircuit_of wellFormed live
        fun other isThere same => only other isThere same ▸ isTrivial,
      fun live => contracts.hasLiveCircuit wellFormed live loopless
        fun other isThere same => only other isThere same ▸ (Graph.inner_of_core isCore).2⟩

/-- Projections that change nothing are all bypassed, unless some of them form a circuit. -/
theorem ends_trivialProjections (closed : graph.Closed) (lively : graph.Lively)
    (slender : ∀ operator ∈ graph.operators, operator.Slender) :
    SimplificationRule.trivialProjections.apply.Ends graph
      (fun _ result => graph.Reduces result ∧
        (∀ operator ∈ result.operators, operator.isTrivialProjection = false) ∧
          ¬ graph.HasLiveCircuit Operator.isTrivialProjection)
      fun fault _ => IsUnknownPort fault ∧ graph.HasLiveCircuit Operator.isTrivialProjection := by
  have wellFormed := closed.wellFormed
  refine Ends.get_bind ((Ends.forM (fun rest changed => Dropping graph changed rest)
    ⟨⟨closed, lively, slender, Iff.rfl⟩, fun operator member isTrivial =>
      List.mem_map_of_mem (List.mem_filter.2 ⟨member, isTrivial⟩), fun id listed => ?_,
      wellFormed.nodup_operatorIds.sublist (List.filter_sublist.map _), Iff.rfl⟩
    fun id rest changed dropping => ?_).bind fun _ result dropped => Ends.pure ?_)
  · obtain ⟨operator, found, same⟩ := List.mem_map.1 listed
    exact ⟨operator, (List.mem_filter.1 found).1, same, (List.mem_filter.1 found).2⟩
  · obtain ⟨operator, member, rfl, isTrivial⟩ := dropping.known id List.mem_cons_self
    have reduces := dropping.reduces
    have changedWellFormed := reduces.closed.wellFormed
    have isCore := isCore_of_isTrivialProjection isTrivial
    by_cases loop : changed.Feeds operator.id operator.id
    · obtain ⟨entry, exit, threads⟩ := (reduces.slender operator member).threads member isCore
      have live : changed.HasLiveCircuit Operator.isTrivialProjection :=
        ⟨operator.id, .single ((Graph.feedsBy_iff_exists changedWellFormed).2
          ⟨loop, operator, member, rfl, isTrivial⟩),
          reduces.lively operator member (Graph.inner_of_core isCore).1⟩
      exact ((fails_bypass changedWellFormed threads ((threads.loop changedWellFormed).1 loop)).mono
        fun _ _ _ => False.elim).weaken fun fault _ unknown => ⟨unknown.1, dropping.hollow.1 live⟩
    · exact (ends_bypass reduces member isCore loop).mono fun _ result _ ⟨reduces, contracts⟩ =>
        dropping.bypassed member isTrivial loop reduces contracts
  · have noTrivial : ∀ operator ∈ result.operators, operator.isTrivialProjection = false :=
      fun operator member => Bool.eq_false_iff.2 fun isTrivial =>
        absurd (dropped.pending operator member isTrivial) List.not_mem_nil
    exact ⟨dropped.reduces, noTrivial,
      dropped.hollow.not.1 (Graph.not_hasLiveCircuit dropped.reduces.closed.wellFormed noTrivial)⟩

/-- A stacked checkpoint does not feed itself when its data reach an external output. -/
theorem loopless_of_isStackedCheckpoint (wellFormed : graph.WellFormed) {id : OperatorId}
    (stacked : graph.isStackedCheckpoint id = true) (leadsOut : graph.LeadsOut id) :
    ¬ graph.Feeds id id := by
  intro loop
  rw [Graph.isStackedCheckpoint, Bool.and_eq_true] at stacked
  obtain ⟨isCheckpoint, alone⟩ := stacked
  split at alone
  · next predecessor only =>
    have isPredecessor := (Graph.mem_predecessors wellFormed).2 loop
    rw [← OrderedSet.mem_toList, only, List.mem_singleton] at isPredecessor
    subst isPredecessor
    have one : (graph.successors id).size = 1 := of_decide_eq_true (Bool.and_eq_true_iff.1 alone).2
    obtain ⟨successor, single⟩ := List.length_eq_one_iff.1 one
    have onlySuccessor : ∀ other, graph.Feeds id other → other = successor := by
      intro other feeds
      rw [← Graph.mem_successors wellFormed, ← OrderedSet.mem_toList, single] at feeds
      exact List.mem_singleton.1 feeds
    obtain rfl := onlySuccessor id loop
    -- every way from it stays there, yet it is no external output
    obtain ⟨output, member, isOutput, way⟩ := leadsOut
    have stays : ∀ other, ReflTransGen graph.Feeds id other → other = id := by
      intro other way
      induction way with
      | refl => rfl
      | tail _ step ih => exact onlySuccessor _ (ih ▸ step)
    rw [Graph.isCheckpoint, ← stays _ way, Graph.holds_id wellFormed member] at isCheckpoint
    rw [(Graph.inner_of_core isCheckpoint).2] at isOutput
    cases isOutput
  · cases alone

/-- Stacked checkpoints are bypassed one after the other. -/
theorem ends_stackedCheckpoints {start : Graph} (reduces : start.Reduces graph) :
    SimplificationRule.stackedCheckpoints.apply.Ends graph
      (fun _ result => start.Reduces result ∧ ∀ operator ∈ result.operators, operator ∈ graph.operators)
      because := by
  refine Ends.get_bind ((Ends.countChanges (fun _ changed => start.Reduces changed ∧
    ∀ operator ∈ changed.operators, operator ∈ graph.operators) ⟨reduces, fun _ => id⟩
    fun id rest changed ⟨reduces, fewer⟩ => Ends.get_bind ?_).bind fun _ _ finished => .pure finished)
  split
  · next stacked =>
    have isCheckpoint := (Bool.and_eq_true_iff.1 stacked).1
    obtain ⟨operator, member, rfl, isCore⟩ := (Graph.holds_iff reduces.closed.wellFormed).1 isCheckpoint
    have leadsOut := reduces.lively operator member (Graph.inner_of_core isCore).1
    refine ((ends_bypass reduces member isCore (loopless_of_isStackedCheckpoint
      reduces.closed.wellFormed stacked leadsOut)).bind fun _ result ⟨reduces, contracts⟩ =>
        Ends.pure ⟨reduces, fun other isThere => fewer other ((contracts.operators other).1 isThere).1⟩)
  · exact Ends.pure ⟨reduces, fewer⟩

/-- One round bypasses all projections that change nothing and the checkpoints that are stacked then,
unless some of the former make up a circuit. -/
theorem ends_standard (closed : graph.Closed) (lively : graph.Lively)
    (slender : ∀ operator ∈ graph.operators, operator.Slender) :
    Simplifier.standard.Ends graph
      (fun _ result => graph.Reduces result ∧
        (∀ operator ∈ result.operators, operator.isTrivialProjection = false) ∧
          ¬ graph.HasLiveCircuit Operator.isTrivialProjection)
      fun fault _ => IsUnknownPort fault ∧ graph.HasLiveCircuit Operator.isTrivialProjection := by
  refine ((ends_trivialProjections closed lively slender).discard).bind
    fun _ middle ⟨reduces, noTrivial, notHollow⟩ => ?_
  refine ((ends_stackedCheckpoints reduces).discard).bind fun _ result ⟨reduces, fewer⟩ => ?_
  exact Ends.pure ⟨reduces, fun operator member => noTrivial operator (fewer operator member),
    notHollow⟩

/-- Rounds of the standard simplifier leave a graph in which nothing is idle and keep the circuits
that lead out. They fail at a circuit of projections that change nothing. -/
theorem ends_settle (done remaining : Nat) (closed : graph.Closed)
    (slender : ∀ operator ∈ graph.operators, operator.Slender) :
    (Simplifier.standard.settle done remaining).Ends graph
      (fun _ result => graph.Reduces result ∧
        (remaining = 0 ∨ ¬ graph.HasLiveCircuit Operator.isTrivialProjection))
      fun fault _ => IsUnknownPort fault ∧ remaining ≠ 0 ∧
        graph.HasLiveCircuit Operator.isTrivialProjection := by
  induction remaining generalizing graph done with
  | zero =>
    exact (ends_removeDeadFlow closed slender).bind fun _ result ⟨reduces, _⟩ =>
      Ends.pure ⟨reduces, .inl rfl⟩
  | succ remaining ih =>
    refine (ends_removeDeadFlow closed slender).bind fun _ middle ⟨reduces, circuits⟩ =>
      Ends.get_bind (Ends.bind
        ((ends_standard reduces.closed reduces.lively reduces.slender).weaken fun fault _ ⟨unknown, hollow⟩ =>
          ⟨unknown, Nat.succ_ne_zero _, (circuits _).1 hollow⟩)
        fun _ result ⟨again, noTrivial, notHollow⟩ => Ends.get_bind ?_)
    have stillNotHollow := Graph.not_hasLiveCircuit again.closed.wellFormed noTrivial
    split
    · exact Ends.pure ⟨reduces.trans again, .inr ((circuits _).not.1 notHollow)⟩
    · exact ((ih (done + 1) again.closed again.slender).mono fun _ _ _ ⟨later, _⟩ =>
        ⟨(reduces.trans again).trans later, .inr ((circuits _).not.1 notHollow)⟩).weaken
          fun fault _ ⟨_, _, hollow⟩ => absurd hollow stillNotHollow

end Edit

end StagePlanner
