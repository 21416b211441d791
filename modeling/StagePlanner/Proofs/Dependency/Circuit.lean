import Mathlib.Data.List.Basic
import StagePlanner.Proofs.Dependency.Order
import StagePlanner.Proofs.Reachability

/-!
# Circuits of dependency graphs

`DependencyGraph.circuits` searches only among the vertices that are never released. Nothing
is lost by that: a vertex on a circuit is never released, nor is any vertex on a way from it
back to itself.

* `mem_circuits_iff`: the listed circuits are the sets of vertices that reach each other.
* `circuits_eq_nil_iff`: no circuit is listed exactly when there is none.
* `listsCircuits`: the listed circuits are the proper strongly connected components, in order.
* `ListsComponents.circuitsAmong_eq`: picking the circuits out of the strongly connected components
  gives the same list, in whatever order these come.
-/

namespace StagePlanner

namespace OrderedSet

/-- A set has several members if it has one besides a given one. -/
theorem one_lt_size_iff {α : Type} [Ord α] [Std.TransOrd α] {set : OrderedSet α} {item : α}
    (member : item ∈ set) : 1 < set.size ↔ ∃ other ∈ set, other ≠ item := by
  constructor
  · intro several
    by_contra none
    push Not at none
    have included : set.toList ⊆ [item] :=
      fun other listed => List.mem_singleton.2 (none other listed)
    exact absurd (List.subperm_of_subset set.nodup included).length_le (Nat.not_le.2 several)
  · rintro ⟨other, otherMember, ne⟩
    have pair : [item, other].Nodup :=
      List.nodup_cons.2 ⟨fun listed => ne (List.mem_singleton.1 listed).symm, List.nodup_singleton _⟩
    have included : [item, other] ⊆ set.toList :=
      List.cons_subset.2 ⟨member, List.cons_subset.2 ⟨otherMember, List.nil_subset _⟩⟩
    exact (List.subperm_of_subset pair included).length_le

end OrderedSet

namespace DependencyGraph

open Relation

variable {α : Type} [Ord α] [DecidableEq α] {graph : DependencyGraph α}

/-- Two vertices that reach each other by one or more steps. -/
def Mutual (graph : DependencyGraph α) (left right : α) : Prop :=
  TransGen graph.Depends left right ∧ TransGen graph.Depends right left

omit [DecidableEq α] in
theorem Mutual.symm {left right : α} (both : graph.Mutual left right) : graph.Mutual right left :=
  ⟨both.2, both.1⟩

omit [DecidableEq α] in
theorem Mutual.trans {left middle right : α} (first : graph.Mutual left middle)
    (second : graph.Mutual middle right) : graph.Mutual left right :=
  ⟨first.1.trans second.1, second.2.trans first.2⟩

omit [DecidableEq α] in
theorem Mutual.mem_vertices (wellFormed : graph.WellFormed) {left right : α}
    (both : graph.Mutual left right) : left ∈ graph.vertices := by
  obtain ⟨_, depends, -⟩ := TransGen.head'_iff.1 both.1
  exact wellFormed.dependent depends

/-- The search finds the ends of all ways of dependencies. -/
theorem mem_reachable (wellFormed : graph.WellFormed) {source target : α} :
    target ∈ Reach.reachable graph.dependencies graph.vertices.toList [source] ↔
      TransGen graph.Depends source target := by
  have same : Reach.StepInto graph.dependencies graph.vertices.toList = graph.Depends := by
    funext source target
    exact propext ((and_congr_left fun _ => mem_dependencies).trans
      (and_iff_left_of_imp wellFormed.dependency))
  rw [Reach.mem_reachable, same]
  simp only [List.mem_singleton, exists_eq_left]

/-- A strongly connected component that is more than a vertex on its own: it has several vertices, or
one that depends on itself. -/
structure IsCircuit (graph : DependencyGraph α) (circuit : OrderedSet α) : Prop where
  component : ∃ vertex ∈ graph.vertices, ∀ other,
    other ∈ circuit ↔ other = vertex ∨ graph.Mutual vertex other
  proper : 1 < circuit.size ∨ ∃ vertex ∈ circuit, graph.Depends vertex vertex

/-- The strongly connected components of a graph: every vertex stands in one list, and with it the
vertices that it reaches and is reached by. -/
structure ListsComponents (graph : DependencyGraph α) (components : List (List α)) : Prop where
  nonempty : ∀ component ∈ components, component ≠ []
  mem_iff : ∀ vertex, vertex ∈ components.flatten ↔ vertex ∈ graph.vertices
  nodup : components.flatten.Nodup
  together : ∀ component ∈ components, ∀ vertex ∈ component, ∀ other,
    other ∈ component ↔ other = vertex ∨ graph.Mutual vertex other

/-- The circuits of a graph, each once and in ascending order. -/
structure ListsCircuits (graph : DependencyGraph α) (circuits : List (OrderedSet α)) : Prop where
  ascending : circuits.Pairwise fun before after => compare before after = .lt
  mem_iff : ∀ circuit, circuit ∈ circuits ↔ graph.IsCircuit circuit
  together : ∀ left right,
    (∃ circuit ∈ circuits, left ∈ circuit ∧ right ∈ circuit) ↔ graph.Mutual left right
  disjoint : circuits.Pairwise fun one other => ∀ vertex ∈ one, vertex ∉ other

/-- Lists are the strongly connected components if the search says so at every vertex. -/
theorem ListsComponents.of_reachable (wellFormed : graph.WellFormed) {components : List (List α)}
    (nonempty : ∀ component ∈ components, component ≠ [])
    (perm : components.flatten.Perm graph.vertices.toList) (nodup : components.flatten.Nodup)
    (together : ∀ component ∈ components, ∀ vertex ∈ component, ∀ other ∈ graph.vertices.toList,
      (other ∈ component ↔ other = vertex ∨
        other ∈ Reach.reachable graph.dependencies graph.vertices.toList [vertex] ∧
        vertex ∈ Reach.reachable graph.dependencies graph.vertices.toList [other])) :
    graph.ListsComponents components where
  nonempty := nonempty
  mem_iff _ := perm.mem_iff
  nodup := nodup
  together component listed vertex member other := by
    have inside : ∀ {other}, other ∈ component → other ∈ graph.vertices := fun member =>
      perm.mem_iff.1 (List.mem_flatten.2 ⟨component, listed, member⟩)
    by_cases otherInside : other ∈ graph.vertices
    · have checked := together component listed vertex member other otherInside
      rwa [mem_reachable wellFormed, mem_reachable wellFormed] at checked
    · refine iff_of_false (fun otherMember => otherInside (inside otherMember)) ?_
      rintro (rfl | both)
      · exact otherInside (inside member)
      · exact otherInside (both.symm.mem_vertices wellFormed)

/-! ### Searching for circuits -/

/-- Whatever a released vertex depends on, directly or not, is released at a smaller position. -/
theorem Released.idxOf_lt_of_transGen {waiting : List (Row α)} {released : List α}
    (state : graph.Released waiting released) {vertex dependency : α} (member : vertex ∈ released)
    (way : TransGen graph.Depends vertex dependency) :
    dependency ∈ released ∧ released.idxOf dependency < released.idxOf vertex := by
  induction way with
  | single depends => exact state.idxOf_lt member depends
  | tail _ depends ih =>
    have last := state.idxOf_lt ih.1 depends
    exact ⟨last.1, Nat.lt_trans last.2 ih.2⟩

theorem mem_stuck {vertex : α} :
    vertex ∈ graph.stuck ↔
      vertex ∈ graph.vertices ∧ vertex ∉ (graph.releaseAll fun vertex => vertex).1 := by
  simp only [stuck, OrderedSet.mem_filter, decide_eq_true_eq, List.mem_map]
  refine and_congr_right fun member => ?_
  rw [(released_releaseAll graph fun vertex => vertex).1.waiting_eq]
  constructor
  · rintro ⟨row, rowMember, rfl⟩
    simpa using (List.mem_filter.1 rowMember).2
  · intro fresh
    exact ⟨(vertex, graph.dependencies vertex),
      List.mem_filter.2 ⟨mem_rows.2 ⟨member, rfl⟩, by simpa using fresh⟩, rfl⟩

/-- A vertex on a circuit is never released. -/
theorem mem_stuck_of_circuit (wellFormed : graph.WellFormed) {vertex : α}
    (circuit : TransGen graph.Depends vertex vertex) : vertex ∈ graph.stuck := by
  obtain ⟨next, depends, -⟩ := TransGen.head'_iff.1 circuit
  refine mem_stuck.2 ⟨wellFormed.dependent depends, fun released => ?_⟩
  exact Nat.lt_irrefl _
    ((released_releaseAll graph fun vertex => vertex).1.idxOf_lt_of_transGen released circuit).2

/-- The dependencies of a vertex that is never released. -/
def stuckNext (graph : DependencyGraph α) (vertex : α) : List α :=
  ((graph.rows.filter fun row => row.1 ∈ graph.stuck).lookup vertex).getD []

theorem stuckNext_eq {vertex : α} (isStuck : vertex ∈ graph.stuck) :
    graph.stuckNext vertex = graph.dependencies vertex := by
  have listed : vertex ∈ graph.vertices.toList.filter fun other => other ∈ graph.stuck :=
    List.mem_filter.2 ⟨(mem_stuck.1 isStuck).1, by simpa using isStuck⟩
  rw [stuckNext, rows, List.filter_map]
  exact congrArg (Option.getD · []) (List.lookup_graph graph.dependencies listed)

/-- Between vertices that reach each other the search that stays among stuck vertices finds its
way. -/
theorem stepInto_of_mutual (wellFormed : graph.WellFormed) {left right : α}
    (both : graph.Mutual left right) :
    TransGen (Reach.StepInto graph.stuckNext graph.stuck.toList) left right := by
  have step : ∀ {source target}, graph.Depends source target → source ∈ graph.stuck →
      target ∈ graph.stuck → Reach.StepInto graph.stuckNext graph.stuck.toList source target := by
    intro source target depends isStuck targetStuck
    exact ⟨stuckNext_eq isStuck ▸ mem_dependencies.2 depends, targetStuck⟩
  obtain ⟨way, back⟩ := both
  have rightStuck := mem_stuck_of_circuit wellFormed (back.trans way)
  -- Every vertex on the way reaches itself, through the right end and the left one.
  induction way using TransGen.head_induction_on with
  | single depends =>
    exact .single (step depends (mem_stuck_of_circuit wellFormed (.head depends back)) rightStuck)
  | @head source middle depends rest ih =>
    have around : TransGen graph.Depends source source := .head depends (rest.trans back)
    have aroundMiddle : TransGen graph.Depends middle middle :=
      rest.trans (back.trans (.single depends))
    exact .head (step depends (mem_stuck_of_circuit wellFormed around)
      (mem_stuck_of_circuit wellFormed aroundMiddle)) (ih (back.tail depends))

theorem depends_of_stepInto {source target : α}
    (isStuck : source ∈ graph.stuck)
    (way : TransGen (Reach.StepInto graph.stuckNext graph.stuck.toList) source target) :
    TransGen graph.Depends source target ∧ target ∈ graph.stuck := by
  induction way with
  | single step =>
    exact ⟨.single (mem_dependencies.1 (stuckNext_eq isStuck ▸ step.1)), step.2⟩
  | tail _ step ih =>
    exact ⟨ih.1.tail (mem_dependencies.1 (stuckNext_eq ih.2 ▸ step.1)), step.2⟩

/-- The circuit of a stuck vertex as the search computes it. -/
def circuitOf (graph : DependencyGraph α) (vertex : α) : OrderedSet α :=
  graph.stuck.filter fun other =>
    other ∈ Reach.reachable graph.stuckNext graph.stuck.toList [vertex] &&
      vertex ∈ Reach.reachable graph.stuckNext graph.stuck.toList [other]

theorem mem_circuitOf (wellFormed : graph.WellFormed) {vertex other : α}
    (isStuck : vertex ∈ graph.stuck) :
    other ∈ graph.circuitOf vertex ↔ graph.Mutual vertex other := by
  simp only [circuitOf, OrderedSet.mem_filter, Bool.and_eq_true, decide_eq_true_eq,
    Reach.mem_reachable, List.mem_singleton, exists_eq_left]
  constructor
  · rintro ⟨otherStuck, way, back⟩
    exact ⟨(depends_of_stepInto isStuck way).1, (depends_of_stepInto otherStuck back).1⟩
  · intro both
    exact ⟨mem_stuck_of_circuit wellFormed (both.2.trans both.1),
      stepInto_of_mutual wellFormed both, stepInto_of_mutual wellFormed both.symm⟩

theorem circuits_eq :
    graph.circuits = graph.stuck.toList.filterMap fun vertex =>
      if (graph.circuitOf vertex).min? = some vertex then some (graph.circuitOf vertex)
      else none := by
  have lookups : ∀ vertex ∈ graph.stuck.toList,
      ((graph.stuck.toList.map fun vertex =>
        (vertex, Reach.reachable graph.stuckNext graph.stuck.toList [vertex])).lookup vertex).getD []
        = Reach.reachable graph.stuckNext graph.stuck.toList [vertex] := fun vertex member =>
    congrArg (Option.getD · []) (List.lookup_graph _ member)
  rw [circuits]
  refine List.filterMap_congr fun vertex member => ?_
  have same : (graph.stuck.filter fun other =>
      (other ∈ ((graph.stuck.toList.map fun vertex =>
        (vertex, Reach.reachable graph.stuckNext graph.stuck.toList [vertex])).lookup vertex).getD [] &&
      vertex ∈ ((graph.stuck.toList.map fun vertex =>
        (vertex, Reach.reachable graph.stuckNext graph.stuck.toList [vertex])).lookup other).getD [] :
          Bool)) = graph.circuitOf vertex := by
    have lists : ∀ {left right : OrderedSet α}, left.toList = right.toList → left = right := by
      rintro ⟨_, _⟩ ⟨_, _⟩ rfl
      rfl
    refine lists (List.filter_congr fun other otherMember => ?_)
    rw [lookups vertex member, lookups other otherMember]
  exact congrArg (fun circuit : OrderedSet α =>
    if circuit.min? = some vertex then some circuit else none) same

variable [Std.TransOrd α] [Std.LawfulEqOrd α]

omit [Std.LawfulEqOrd α] in
/-- Every circuit is listed once, at its smallest vertex. -/
theorem nodup_circuits : graph.circuits.Nodup := by
  rw [circuits_eq]
  refine graph.stuck.nodup.filterMap fun left right circuit atLeft atRight => ?_
  rw [Option.mem_def, Option.ite_none_right_eq_some] at atLeft atRight
  obtain ⟨leftLeast, isLeft⟩ := atLeft
  obtain ⟨rightLeast, isRight⟩ := atRight
  obtain rfl := Option.some.inj isLeft
  rw [Option.some.inj isRight, leftLeast] at rightLeast
  exact Option.some.inj rightLeast

/-- The listed circuits are the sets of all vertices that some vertex on a circuit reaches and is
reached by. -/
theorem mem_circuits_iff (wellFormed : graph.WellFormed) {circuit : OrderedSet α} :
    circuit ∈ graph.circuits ↔
      ∃ vertex ∈ circuit, ∀ other, other ∈ circuit ↔ graph.Mutual vertex other := by
  rw [circuits_eq, List.mem_filterMap]
  constructor
  · rintro ⟨vertex, isStuck, found⟩
    split at found
    · next least =>
      obtain rfl := Option.some.inj found
      exact ⟨vertex, OrderedSet.mem_of_min? least, fun other => mem_circuitOf wellFormed isStuck⟩
    · cases found
  · rintro ⟨vertex, member, isCircuit⟩
    -- The search lists a circuit at its smallest vertex.
    cases nonempty : circuit.toList with
    | nil => rw [← OrderedSet.mem_toList, nonempty] at member; cases member
    | cons least rest =>
      have leastMember : least ∈ circuit := by
        rw [← OrderedSet.mem_toList, nonempty]; exact List.mem_cons_self
      have toLeast := (isCircuit least).1 leastMember
      have leastStuck := mem_stuck_of_circuit wellFormed (toLeast.2.trans toLeast.1)
      have same : graph.circuitOf least = circuit := by
        refine OrderedSet.ext fun other => ?_
        rw [mem_circuitOf wellFormed leastStuck, isCircuit]
        exact ⟨toLeast.trans, toLeast.symm.trans⟩
      refine ⟨least, leastStuck, ?_⟩
      rw [same, if_pos (by rw [OrderedSet.min?, nonempty, List.head?_cons])]

/-- A vertex that reaches itself lies on a listed circuit. -/
theorem exists_circuit_of_transGen (wellFormed : graph.WellFormed) {vertex : α}
    (around : TransGen graph.Depends vertex vertex) :
    ∃ circuit ∈ graph.circuits, vertex ∈ circuit := by
  have isStuck := mem_stuck_of_circuit wellFormed around
  have members : ∀ other, other ∈ graph.circuitOf vertex ↔ graph.Mutual vertex other :=
    fun _ => mem_circuitOf wellFormed isStuck
  exact ⟨graph.circuitOf vertex, (mem_circuits_iff wellFormed).2
    ⟨vertex, (members vertex).2 ⟨around, around⟩, members⟩, (members vertex).2 ⟨around, around⟩⟩

/-- No circuit is listed exactly when no vertex reaches itself. -/
theorem circuits_eq_nil_iff (wellFormed : graph.WellFormed) :
    graph.circuits = [] ↔ Circuitless graph.Depends := by
  constructor
  · intro none vertex around
    obtain ⟨circuit, listed, -⟩ := exists_circuit_of_transGen wellFormed around
    rw [none] at listed
    cases listed
  · intro circuitless
    refine List.eq_nil_iff_forall_not_mem.2 fun circuit listed => ?_
    obtain ⟨vertex, member, isCircuit⟩ := (mem_circuits_iff wellFormed).1 listed
    exact circuitless vertex ((isCircuit vertex).1 member).1

/-! ### Circuits among components -/

omit [Std.LawfulEqOrd α] in
/-- The circuits of a graph are the sets of all vertices that some vertex reaches and is reached by. -/
theorem isCircuit_iff (wellFormed : graph.WellFormed) {circuit : OrderedSet α} :
    graph.IsCircuit circuit ↔
      ∃ vertex ∈ circuit, ∀ other, other ∈ circuit ↔ graph.Mutual vertex other := by
  constructor
  · rintro ⟨⟨vertex, -, members⟩, proper⟩
    have member : vertex ∈ circuit := (members vertex).2 (.inl rfl)
    have around : graph.Mutual vertex vertex := by
      rw [OrderedSet.one_lt_size_iff member] at proper
      rcases proper with ⟨other, otherMember, ne⟩ | ⟨looped, loopedMember, loop⟩
      · have both := ((members other).1 otherMember).resolve_left ne
        exact both.trans both.symm
      · rcases (members looped).1 loopedMember with rfl | both
        · exact ⟨.single loop, .single loop⟩
        · exact both.trans both.symm
    exact ⟨vertex, member, fun other =>
      (members other).trans (or_iff_right_of_imp fun same => same ▸ around)⟩
  · rintro ⟨vertex, member, members⟩
    have around := (members vertex).1 member
    refine ⟨⟨vertex, around.mem_vertices wellFormed, fun other =>
      (members other).trans (or_iff_right_of_imp fun same => same ▸ around).symm⟩, ?_⟩
    -- The first step of a way back to the vertex stays in the circuit.
    obtain ⟨next, depends, rest⟩ := TransGen.head'_iff.1 around.1
    have nextMember : next ∈ circuit :=
      (members next).2 ⟨.single depends, TransGen.trans_right rest around.1⟩
    rw [OrderedSet.one_lt_size_iff member]
    by_cases same : next = vertex
    · exact .inr ⟨vertex, member, same ▸ depends⟩
    · exact .inl ⟨next, nextMember, same⟩

/-- The listed circuits are the proper strongly connected components. -/
theorem mem_circuits (wellFormed : graph.WellFormed) {circuit : OrderedSet α} :
    circuit ∈ graph.circuits ↔ graph.IsCircuit circuit :=
  (mem_circuits_iff wellFormed).trans (isCircuit_iff wellFormed).symm

omit [Std.TransOrd α] [Std.LawfulEqOrd α] in
/-- A circuit is listed before those whose smallest vertices are greater. -/
theorem circuits_ascending :
    graph.circuits.Pairwise fun before after => compare before after = .lt := by
  rw [circuits_eq]
  refine List.Pairwise.filterMap _ ?_ graph.stuck.ascending
  intro before after below left isLeft right isRight
  obtain ⟨leftLeast, isLeft⟩ := Option.ite_none_right_eq_some.1 isLeft
  obtain ⟨rightLeast, isRight⟩ := Option.ite_none_right_eq_some.1 isRight
  obtain rfl := Option.some.inj isLeft
  obtain rfl := Option.some.inj isRight
  obtain ⟨_, leftList⟩ := List.head?_eq_some_iff.1 leftLeast
  obtain ⟨_, rightList⟩ := List.head?_eq_some_iff.1 rightLeast
  change compare (graph.circuitOf before).toList (graph.circuitOf after).toList = .lt
  rw [leftList, rightList, List.compare_eq_compareLex, List.compareLex_cons_cons, below]
  rfl

/-- Two vertices lie on one listed circuit exactly when they reach each other. -/
theorem exists_mem_circuits_iff (wellFormed : graph.WellFormed) {left right : α} :
    (∃ circuit ∈ graph.circuits, left ∈ circuit ∧ right ∈ circuit) ↔ graph.Mutual left right := by
  constructor
  · rintro ⟨circuit, listed, leftMember, rightMember⟩
    obtain ⟨vertex, -, members⟩ := (mem_circuits_iff wellFormed).1 listed
    exact ((members left).1 leftMember).symm.trans ((members right).1 rightMember)
  · intro both
    obtain ⟨circuit, listed, member⟩ :=
      exists_circuit_of_transGen wellFormed (both.trans both.symm).1
    obtain ⟨vertex, -, members⟩ := (mem_circuits_iff wellFormed).1 listed
    exact ⟨circuit, listed, member, (members right).2 (((members left).1 member).trans both)⟩

/-- The circuits that `circuits` finds are the circuits of the graph, each once. -/
theorem listsCircuits (wellFormed : graph.WellFormed) : graph.ListsCircuits graph.circuits where
  ascending := circuits_ascending
  mem_iff _ := mem_circuits wellFormed
  together _ _ := exists_mem_circuits_iff wellFormed
  disjoint := by
    refine nodup_circuits.imp_of_mem fun {one other} isOne isOther ne vertex inOne inOther => ne ?_
    obtain ⟨first, -, oneMembers⟩ := (mem_circuits_iff wellFormed).1 isOne
    obtain ⟨second, -, otherMembers⟩ := (mem_circuits_iff wellFormed).1 isOther
    have between := ((oneMembers vertex).1 inOne).trans ((otherMembers vertex).1 inOther).symm
    refine OrderedSet.ext fun third => ?_
    rw [oneMembers, otherMembers]
    exact ⟨between.symm.trans, between.trans⟩

theorem ListsComponents.isCircuit_iff {components : List (List α)}
    (listed : graph.ListsComponents components) {component : List α} (member : component ∈ components) :
    graph.isCircuit component = true ↔ graph.IsCircuit (.ofList component) := by
  obtain ⟨vertex, vertexMember⟩ := List.exists_mem_of_ne_nil _ (listed.nonempty component member)
  have size : (OrderedSet.ofList component).size = component.length := by
    refine ((List.perm_ext_iff_of_nodup (OrderedSet.nodup _) ?_).2 fun _ => OrderedSet.mem_ofList).length_eq
    exact (List.nodup_flatten.1 listed.nodup).1 component member
  have proper : graph.isCircuit component = true ↔
      1 < (OrderedSet.ofList component).size ∨
        ∃ vertex ∈ OrderedSet.ofList component, graph.Depends vertex vertex := by
    simp [isCircuit, size, mem_dependencies]
  refine proper.trans ⟨fun proper => ⟨⟨vertex, ?_, fun other => ?_⟩, proper⟩, IsCircuit.proper⟩
  · exact (listed.mem_iff vertex).1 (List.mem_flatten.2 ⟨component, member, vertexMember⟩)
  · exact OrderedSet.mem_ofList.trans (listed.together component member vertex vertexMember other)

theorem ListsComponents.mem_circuitsAmong {components : List (List α)}
    (listed : graph.ListsComponents components) {circuit : OrderedSet α} :
    circuit ∈ graph.circuitsAmong components ↔ graph.IsCircuit circuit := by
  simp only [circuitsAmong, List.mem_mergeSort, List.mem_map, List.mem_filter]
  constructor
  · rintro ⟨component, ⟨member, isCircuit⟩, rfl⟩
    exact (listed.isCircuit_iff member).1 isCircuit
  · intro isCircuit
    obtain ⟨vertex, inGraph, members⟩ := isCircuit.component
    obtain ⟨component, member, vertexMember⟩ :=
      List.mem_flatten.1 ((listed.mem_iff vertex).2 inGraph)
    have same : OrderedSet.ofList component = circuit := OrderedSet.ext fun other =>
      OrderedSet.mem_ofList.trans <|
        (listed.together component member vertex vertexMember other).trans (members other).symm
    exact ⟨component, ⟨member, (listed.isCircuit_iff member).2 (same ▸ isCircuit)⟩, same⟩

theorem ListsComponents.circuitsAmong_ascending {components : List (List α)}
    (listed : graph.ListsComponents components) :
    (graph.circuitsAmong components).Pairwise fun before after => compare before after = .lt := by
  have distinct : ((components.filter graph.isCircuit).map OrderedSet.ofList).Nodup := by
    rw [List.Nodup, List.pairwise_map]
    refine ((List.nodup_flatten.1 listed.nodup).2.filter _).imp_of_mem
      fun {one other} isOne _ disjoint same => ?_
    obtain ⟨vertex, inOne⟩ :=
      List.exists_mem_of_ne_nil _ (listed.nonempty one (List.mem_of_mem_filter isOne))
    exact disjoint inOne (OrderedSet.mem_ofList.1 (same ▸ OrderedSet.mem_ofList.2 inOne))
  have sorted : (graph.circuitsAmong components).Pairwise fun before after =>
      (compare before after).isLE = true :=
    List.pairwise_mergeSort (fun _ _ _ => Std.TransCmp.isLE_trans)
      (fun left right => by
        rw [Std.OrientedOrd.eq_swap (a := right)]
        cases compare left right <;> rfl) _
  refine (sorted.and ((List.mergeSort_perm _ _).nodup_iff.2 distinct)).imp fun {left right} both => ?_
  obtain ⟨atMost, ne⟩ := both
  cases order : compare left right with
  | lt => rfl
  | eq => exact absurd (Std.LawfulEqCmp.eq_of_compare order) ne
  | gt => rw [order] at atMost; cases atMost

/-- The circuits among the strongly connected components are the circuits that `circuits` finds. -/
theorem ListsComponents.circuitsAmong_eq (wellFormed : graph.WellFormed) {components : List (List α)}
    (listed : graph.ListsComponents components) :
    graph.circuitsAmong components = graph.circuits :=
  OrderedSet.ascending_ext listed.circuitsAmong_ascending circuits_ascending fun _ =>
    listed.mem_circuitsAmong.trans (mem_circuits wellFormed).symm

end DependencyGraph

end StagePlanner
