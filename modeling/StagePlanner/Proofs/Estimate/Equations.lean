import StagePlanner.Estimate
import StagePlanner.Proofs.Graph.Renaming
import StagePlanner.Proofs.Keyed

/-!
# Estimates as solutions of equations

Operators are estimated after everything that feeds them, so in a graph without circuits the
estimates satisfy one equation for each output: the volume there is what the operator makes of the
volumes at its inputs (`Estimator.output?_estimate`). The equations get solved in every order in
which nothing comes before what feeds it (`Estimator.solves_foldl`).
-/

namespace StagePlanner

variable {ν : Type}

namespace Estimates

variable {estimates : Estimates ν} {port other : PortId}

theorem output?_setOutput (volume : ν) :
    (estimates.setOutput port volume).output? other =
      if other = port then some volume else estimates.output? other := by
  rw [setOutput, output?, List.lookup_append, lookup_filter_ne]
  split
  · next same => rw [same, List.lookup_cons, beq_self_eq_true, Option.none_or]
  · next differs => rw [List.lookup_cons, beq_eq_false_iff_ne.2 differs, List.lookup_nil, Option.or_none,
      output?]

theorem output?_foldl_setOutput (ports : List Port) (volume : ν) :
    (ports.foldl (fun estimates port => estimates.setOutput port.id volume) estimates).output? other =
      if other ∈ ports.map Port.id then some volume else estimates.output? other := by
  induction ports generalizing estimates with
  | nil => simp
  | cons port rest ih =>
    rw [List.foldl_cons, ih, output?_setOutput, List.map_cons]
    by_cases later : other ∈ rest.map Port.id
    · rw [if_pos later, if_pos (List.mem_cons_of_mem _ later)]
    · simp only [List.mem_cons, later, or_false, if_false]

end Estimates

theorem bind_eq_join {α β : Type} (value : Option α) (next : α → Option β) :
    value.bind next = (value.map next).join := by
  cases value <;> rfl

namespace Graph

variable {graph : Graph}

/-- All operators of a graph, none of them before an operator that feeds it. -/
structure Downstream (graph : Graph) (order : List Operator) : Prop where
  perm : order.Perm graph.operators
  forward : order.Pairwise fun earlier later => ¬ graph.Feeds later.id earlier.id

/-- What comes later does not feed an operator. -/
theorem Downstream.not_feeds {order before after : List Operator} {operator other : Operator}
    (downstream : graph.Downstream order) (acyclic : graph.Acyclic)
    (split : order = before ++ operator :: after) (later : other ∈ operator :: after) :
    ¬ graph.Feeds other.id operator.id := by
  rcases List.mem_cons.1 later with rfl | later
  · exact fun feeds => acyclic _ (.single feeds)
  · have forward := downstream.forward
    rw [split] at forward
    exact (List.pairwise_cons.1 (List.pairwise_append.1 forward).2.1).1 other later

end Graph

namespace Estimator

variable [Volume ν] {hints : List (String × Nat)} {graph other : Graph}

/-- Operators that treat volumes alike and get the same volumes give the same volume. -/
theorem outputVolume?_congr {left right : Operator} (alike : left.Alike right)
    {ours theirs : Estimates ν}
    (inputs : (left.inputs.map fun port => ours.input? graph port.id) =
      right.inputs.map fun port => theirs.input? other port.id) :
    outputVolume? hints graph ours left = outputVolume? hints other theirs right := by
  have total : ours.total? graph left = theirs.total? other right := by
    rw [Estimates.total?, inputs, Estimates.total?]
  have second : (left.inputs[1]?.bind fun port => ours.input? graph port.id) =
      right.inputs[1]?.bind fun port => theirs.input? other port.id := by
    have seconds := congrArg (fun volumes => volumes[1]?) inputs
    simp only [List.getElem?_map] at seconds
    rw [bind_eq_join, seconds, ← bind_eq_join]
  cases alike with
  | same kind groups types =>
    have group : (left.inputs.head?.bind fun port => port.group) =
        right.inputs.head?.bind fun port => port.group := by
      have heads := congrArg List.head? groups
      rw [List.head?_map, List.head?_map] at heads
      rw [bind_eq_join, ← heads, ← bind_eq_join]
    have type := congrArg List.head? types
    rw [List.head?_map, List.head?_map] at type
    have aggregate : aggregate? graph ours left = aggregate? other theirs right := by
      simp only [aggregate?, total, group]
      cases isLeft : left.outputs.head? <;> cases isRight : right.outputs.head? <;>
        simp_all only [Option.map_none, Option.map_some, reduceCtorEq, Option.some.injEq]
    simp only [outputVolume?, kind, total, second, aggregate]
  | marked isCore isMarker => simp only [outputVolume?, isCore, isMarker, total]

/-- The estimates of some operators solve their equations. -/
structure Solves (hints : List (String × Nat)) (graph : Graph) (visited : List Operator)
    (estimates : Estimates ν) : Prop where
  members : ∀ operator ∈ visited, operator ∈ graph.operators
  /-- Whatever feeds a visited operator was visited. -/
  closed : ∀ operator ∈ visited, ∀ source, graph.Feeds source operator.id →
    ∃ producer ∈ visited, producer.id = source
  equation : ∀ operator ∈ visited, ∀ output ∈ operator.outputs.map Port.id,
    estimates.output? output = outputVolume? hints graph estimates operator
  unknown : ∀ port, (∀ operator ∈ visited, port ∉ operator.outputs.map Port.id) →
    estimates.output? port = none

theorem input?_congr {port : PortId} {ours theirs : Estimates ν}
    (same : ∀ source, ⟨source, port⟩ ∈ graph.edges → ours.output? source = theirs.output? source) :
    ours.input? graph port = theirs.input? graph port := by
  have volumes : (graph.producers port).map ours.output? =
      (graph.producers port).map theirs.output? :=
    List.map_congr_left fun source isProducer => same source (Graph.mem_producers.1 isProducer)
  rw [Estimates.input?, Estimates.input?]
  split
  · rfl
  · rw [volumes]

theorem output?_visit (estimates : Estimates ν) (operator : Operator) (port : PortId) :
    (visit hints graph estimates operator).output? port =
      if port ∈ operator.outputs.map Port.id then
        (outputVolume? hints graph estimates operator).or (estimates.output? port)
      else estimates.output? port := by
  rw [visit]
  cases outputVolume? hints graph estimates operator with
  | none => rw [Option.none_or, ite_self]
  | some volume => rw [Estimates.output?_foldl_setOutput, Option.some_or]

section Visit

variable {visited : List Operator} {estimates : Estimates ν} {operator : Operator}
  (wellFormed : graph.WellFormed) (solves : Solves hints graph visited estimates)
  (member : operator ∈ graph.operators) (fresh : operator ∉ visited)

include wellFormed solves member fresh

/-- What was visited has other outputs than an operator that was not. -/
theorem Solves.not_mem_outputs {producer : Operator} (isVisited : producer ∈ visited) {port : PortId}
    (gives : port ∈ producer.outputs.map Port.id) : port ∉ operator.outputs.map Port.id := by
  intro owns
  have same := wellFormed.owner_unique (solves.members producer isVisited) member
    (Operator.mem_ports_of_mem_portsOn .output gives)
    (Operator.mem_ports_of_mem_portsOn .output owns)
  exact fresh (same ▸ isVisited)

/-- When what feeds an operator was visited before, its volume does not change any more. -/
theorem Solves.outputVolume?_visit {consumer : Operator} (isConsumer : consumer ∈ graph.operators)
    (fed : ∀ source, graph.Feeds source consumer.id → ∃ producer ∈ visited, producer.id = source) :
    outputVolume? hints graph (Estimator.visit hints graph estimates operator) consumer =
      outputVolume? hints graph estimates consumer := by
  refine outputVolume?_congr (.refl consumer) (List.map_congr_left fun port isPort => ?_)
  refine input?_congr fun source isEdge => ?_
  obtain ⟨producer, isProducer, gives⟩ := wellFormed.sources _ isEdge
  obtain ⟨other, isVisited, same⟩ := fed producer.id
    (Graph.feeds_iff_exists_edge.2 ⟨_, _, isEdge, ⟨producer, isProducer, rfl, gives⟩,
      consumer, isConsumer, rfl, List.mem_map_of_mem isPort⟩)
  obtain rfl := wellFormed.operator_unique (solves.members other isVisited) isProducer same
  rw [output?_visit, if_neg (solves.not_mem_outputs wellFormed member fresh isVisited gives)]

/-- Visiting one more operator solves its equation and keeps the others solved. -/
theorem Solves.visit
    (fed : ∀ source, graph.Feeds source operator.id → ∃ producer ∈ visited, producer.id = source) :
    Solves hints graph (visited ++ [operator]) (visit hints graph estimates operator) := by
  constructor
  · intro other listed
    rcases List.mem_append.1 listed with old | new
    · exact solves.members other old
    · exact List.mem_singleton.1 new ▸ member
  · intro other listed source feeds
    rcases List.mem_append.1 listed with old | new
    · obtain ⟨producer, isVisited, same⟩ := solves.closed other old source feeds
      exact ⟨producer, List.mem_append_left _ isVisited, same⟩
    · obtain ⟨producer, isVisited, same⟩ := fed source (List.mem_singleton.1 new ▸ feeds)
      exact ⟨producer, List.mem_append_left _ isVisited, same⟩
  · intro other listed output owned
    rcases List.mem_append.1 listed with old | new
    · rw [solves.outputVolume?_visit wellFormed member fresh (solves.members other old)
        (solves.closed other old), output?_visit,
        if_neg (solves.not_mem_outputs wellFormed member fresh old owned)]
      exact solves.equation other old output owned
    · obtain rfl := List.mem_singleton.1 new
      have unknown := solves.unknown output fun producer isVisited gives =>
        solves.not_mem_outputs wellFormed member fresh isVisited gives owned
      rw [solves.outputVolume?_visit wellFormed member fresh member fed, output?_visit,
        if_pos owned, unknown, Option.or_none]
  · intro port unowned
    rw [output?_visit, if_neg (unowned operator (List.mem_append_right _ List.mem_cons_self))]
    exact solves.unknown port fun other isVisited => unowned other (List.mem_append_left _ isVisited)

end Visit

/-- A graph without circuits is visited from its inputs on. -/
theorem downstream_visitOrder (wellFormed : graph.WellFormed) (acyclic : graph.Acyclic) :
    graph.Downstream (visitOrder graph) := by
  obtain ⟨order, isOrder⟩ : ∃ order, graph.dependencies.order = .ok order :=
    (DependencyGraph.orderBy_isOk_iff Graph.dependencies_wellFormed).2
      ((Graph.circuitless_dependencies_iff wellFormed).2 acyclic)
  have ordered : visitOrder graph = order.filterMap graph.operator? := by
    rw [visitOrder, isOrder]
  have inOrder : ∀ {operator : Operator}, operator ∈ graph.operators → operator.id ∈ order :=
    fun member => (DependencyGraph.mem_of_orderBy isOrder).2
      ((Graph.mem_vertices_dependencies wellFormed).2 (Graph.mem_operatorIds.2 ⟨_, member, rfl⟩))
  rw [ordered]
  constructor
  · refine (List.perm_ext_iff_of_nodup (List.Nodup.filterMap (fun first second operator ours theirs => ?_)
      (DependencyGraph.nodup_of_orderBy isOrder)) wellFormed.nodup_operators).2 fun operator => ?_
    · rw [← (wellFormed.operator?_eq_some_iff.1 ours).2, ← (wellFormed.operator?_eq_some_iff.1 theirs).2]
    · rw [List.mem_filterMap]
      constructor
      · rintro ⟨id, -, isFound⟩
        exact (wellFormed.operator?_eq_some_iff.1 isFound).1
      · exact fun member =>
          ⟨operator.id, inOrder member, wellFormed.operator?_eq_some_iff.2 ⟨member, rfl⟩⟩
  · refine List.pairwise_filterMap.2 ((DependencyGraph.forward_of_orderBy isOrder).imp ?_)
    intro first second independent earlier isEarlier later isLater feeds
    obtain ⟨-, rfl⟩ := wellFormed.operator?_eq_some_iff.1 isEarlier
    obtain ⟨-, rfl⟩ := wellFormed.operator?_eq_some_iff.1 isLater
    exact independent ((Graph.depends_dependencies wellFormed).2 feeds)

/-- In a graph without circuits the equations get solved in every order in which nothing comes before
what feeds it. -/
theorem solves_foldl (wellFormed : graph.WellFormed) (acyclic : graph.Acyclic)
    {order : List Operator} (downstream : graph.Downstream order) :
    Solves hints graph order (order.foldl (visit hints graph) ({} : Estimates ν)) := by
  -- The induction is on the part of the order that is done, from its end.
  suffices ∀ before after, order = before ++ after →
      Solves hints graph before (before.foldl (visit hints graph) ({} : Estimates ν)) from
    this order [] (List.append_nil _).symm
  intro before
  induction before using List.reverseRecOn with
  | nil => exact fun after _ => ⟨by simp, by simp, by simp, fun _ _ => rfl⟩
  | append_singleton before operator ih =>
    intro after split
    rw [List.append_assoc, List.singleton_append] at split
    have solves := ih (operator :: after) split
    have member : operator ∈ graph.operators :=
      downstream.perm.mem_iff.1 (split ▸ List.mem_append_right _ List.mem_cons_self)
    have distinct : (before ++ operator :: after).Nodup :=
      split ▸ downstream.perm.nodup_iff.2 wellFormed.nodup_operators
    rw [List.foldl_append]
    refine solves.visit wellFormed member
      (fun visited => (List.nodup_append.1 distinct).2.2 _ visited _ List.mem_cons_self rfl)
      fun source feeds => ?_
    obtain ⟨producer, isProducer, rfl⟩ := feeds.operators.1
    refine ⟨producer, ?_, rfl⟩
    rcases List.mem_append.1 (split ▸ downstream.perm.mem_iff.2 isProducer) with early | late
    · exact early
    · exact absurd feeds (downstream.not_feeds acyclic split late)

theorem solves_estimate (wellFormed : graph.WellFormed) (acyclic : graph.Acyclic) :
    Solves hints graph (visitOrder graph) ((flowing hints).estimate graph : Estimates ν) :=
  solves_foldl wellFormed acyclic (downstream_visitOrder wellFormed acyclic)

/-- In a graph without circuits the volume at an output is what its operator makes of the volumes at
its inputs. -/
theorem output?_estimate (wellFormed : graph.WellFormed) (acyclic : graph.Acyclic)
    {operator : Operator} (member : operator ∈ graph.operators) {output : PortId}
    (owned : output ∈ operator.outputs.map Port.id) :
    ((flowing hints).estimate graph : Estimates ν).output? output =
      outputVolume? hints graph ((flowing hints).estimate graph : Estimates ν) operator :=
  (solves_estimate wellFormed acyclic).equation operator
    ((downstream_visitOrder wellFormed acyclic).perm.mem_iff.2 member) output owned

end Estimator

end StagePlanner
