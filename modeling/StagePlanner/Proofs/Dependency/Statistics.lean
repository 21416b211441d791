import Mathlib.Data.List.Nodup
import Mathlib.Data.Set.Card
import StagePlanner.Dependency.Statistics
import StagePlanner.Proofs.Dependency.Countdown

/-!
# Figures of dependency graphs

The figures of a graph are read off the relation that it stores: `DependencyGraph.Measures` says
which numbers they are. Lengths of chains are found along an order, in which the table of lengths
already has an entry for everything that a vertex depends on (`Tallest.chains`), and the table of
dependents holds the converse of the relation (`toList_dependentsTable`).
-/

namespace StagePlanner.DependencyGraph

open Std (ExtTreeMap)

variable {α : Type} [Ord α] {graph : DependencyGraph α}

/-! ### What the figures say -/

/-- The number of vertices that a vertex depends on. -/
noncomputable def fanIn (graph : DependencyGraph α) (vertex : α) : Nat :=
  { dependency | graph.Depends vertex dependency }.ncard

/-- The number of vertices that depend on a vertex. -/
noncomputable def fanOut (graph : DependencyGraph α) (vertex : α) : Nat :=
  { dependent | graph.Depends dependent vertex }.ncard

/-- Vertices each of which depends on the next one. -/
structure IsChain (graph : DependencyGraph α) (chain : List α) : Prop where
  inside : ∀ vertex ∈ chain, vertex ∈ graph.vertices
  linked : chain.IsChain graph.Depends

/-- The figures are those of the relation: how many vertices and dependencies there are, how many
vertices depend on nothing and on how many nothing depends, the widest fans, and how many vertices the
longest chain has. A graph without vertices has the empty chain only, and fans of width zero. -/
structure Measures (graph : DependencyGraph α) (figures : GraphStatistics) : Prop where
  vertices : figures.vertices = { vertex | vertex ∈ graph.vertices }.ncard
  fanIns : figures.edges = (graph.vertices.toList.map graph.fanIn).sum
  fanOuts : figures.edges = (graph.vertices.toList.map graph.fanOut).sum
  sources : figures.sources =
    { vertex | vertex ∈ graph.vertices ∧ ∀ dependency, ¬ graph.Depends vertex dependency }.ncard
  sinks : figures.sinks =
    { vertex | vertex ∈ graph.vertices ∧ ∀ dependent, ¬ graph.Depends dependent vertex }.ncard
  maxFanIn :
    IsGreatest (insert 0 (graph.fanIn '' { vertex | vertex ∈ graph.vertices })) figures.maxFanIn
  maxFanOut :
    IsGreatest (insert 0 (graph.fanOut '' { vertex | vertex ∈ graph.vertices })) figures.maxFanOut
  acyclic : Circuitless graph.Depends →
    IsGreatest (List.length '' { chain | graph.IsChain chain }) figures.criticalPath
  cyclic : ¬ Circuitless graph.Depends → figures.criticalPath = 0

/-! ### Counting -/

/-- The largest number of a list bounds the others; it is one of them, or zero. -/
theorem isGreatest_largest (numbers : List Nat) :
    IsGreatest (insert 0 { number | number ∈ numbers }) (largest numbers) := by
  suffices ∀ start, IsGreatest (insert start { number | number ∈ numbers }) (numbers.foldl max start) from
    this 0
  induction numbers with
  | nil => simp
  | cons head tail ih =>
    intro start
    obtain ⟨attained, bound⟩ := ih (max start head)
    rw [List.foldl_cons]
    refine ⟨?_, ?_⟩
    · rcases attained with same | member
      · rw [same]
        rcases max_choice start head with left | right
        · exact .inl left
        · exact .inr (List.mem_cons.2 (.inl right))
      · exact .inr (List.mem_cons_of_mem _ member)
    · have above : max start head ≤ tail.foldl max (max start head) := bound (.inl rfl)
      rintro number (rfl | member)
      · exact (le_max_left _ _).trans above
      · rcases List.mem_cons.1 member with rfl | member
        · exact (le_max_right _ _).trans above
        · exact bound (.inr member)

omit [Ord α] in
theorem ncard_mem [DecidableEq α] {items : List α} (distinct : items.Nodup) :
    { item | item ∈ items }.ncard = items.length := by
  rw [← List.coe_toFinset, Set.ncard_coe_finset, List.toFinset_card_of_nodup distinct]

omit [Ord α] in
/-- Items sorted into groups by their keys are the same items. -/
theorem perm_flatMap_filter_key {β : Type} [DecidableEq α] {keys : List α} {items : List β} (key : β → α)
    (keysDistinct : keys.Nodup) (distinct : items.Nodup) (inside : ∀ item ∈ items, key item ∈ keys) :
    (keys.flatMap fun wanted => items.filter fun item => key item = wanted).Perm items := by
  have grouped : (keys.flatMap fun wanted => items.filter fun item => key item = wanted).Nodup := by
    refine List.nodup_flatMap.2 ⟨fun _ _ => distinct.filter _, keysDistinct.imp ?_⟩
    intro first second differ item isFirst isSecond
    have atFirst : key item = first := by simpa using (List.mem_filter.1 isFirst).2
    have atSecond : key item = second := by simpa using (List.mem_filter.1 isSecond).2
    exact differ (atFirst.symm.trans atSecond)
  refine (List.perm_ext_iff_of_nodup grouped distinct).2 fun item => ?_
  simp only [List.mem_flatMap, List.mem_filter, decide_eq_true_eq]
  exact ⟨fun ⟨_, _, member, _⟩ => member, fun member => ⟨_, inside item member, member, rfl⟩⟩

theorem total_eq_sum (numbers : List Nat) : total numbers = numbers.sum := by
  induction numbers with
  | nil => rfl
  | cons number rest ih => rw [total_cons, ih, List.sum_cons]

section Fans

variable [DecidableEq α] [Std.TransOrd α]

theorem length_dependencies (vertex : α) : (graph.dependencies vertex).length = graph.fanIn vertex := by
  rw [fanIn, ← ncard_mem (nodup_dependencies graph vertex)]
  simp only [mem_dependencies]

theorem length_dependents (vertex : α) : (graph.dependents vertex).length = graph.fanOut vertex := by
  rw [fanOut, ← ncard_mem (nodup_dependents graph vertex)]
  simp only [mem_dependents]

/-- Every dependency is one of the vertex that has it. -/
theorem sum_fanIn (wellFormed : graph.WellFormed) :
    (graph.vertices.toList.map graph.fanIn).sum = graph.arcs.size := by
  have arcs := perm_flatMap_filter_key Arc.dependent graph.vertices.nodup graph.arcs.nodup
    fun arc (depends : graph.Depends arc.dependent arc.dependency) => wellFormed.dependent depends
  rw [OrderedSet.size, ← arcs.length_eq, List.length_flatMap]
  exact congrArg List.sum (List.map_congr_left fun vertex _ =>
    (length_dependencies vertex).symm.trans (List.length_map _))

/-- Every dependency is one on the vertex at its other end. -/
theorem sum_fanOut (wellFormed : graph.WellFormed) :
    (graph.vertices.toList.map graph.fanOut).sum = graph.arcs.size := by
  have arcs := perm_flatMap_filter_key Arc.dependency graph.vertices.nodup graph.arcs.nodup
    fun arc (depends : graph.Depends arc.dependent arc.dependency) => wellFormed.dependency depends
  rw [OrderedSet.size, ← arcs.length_eq, List.length_flatMap]
  exact congrArg List.sum (List.map_congr_left fun vertex _ =>
    (length_dependents vertex).symm.trans (List.length_map _))

/-- The vertices for which a list gives no other one are those that are related to none. -/
theorem length_filter_eq_zero {others : α → List α} {related : α → α → Prop}
    (mem_iff : ∀ vertex other, other ∈ others vertex ↔ related vertex other) :
    ((graph.vertices.toList.map fun vertex => (others vertex).length).filter
        fun count => count = 0).length =
      { vertex | vertex ∈ graph.vertices ∧ ∀ other, ¬ related vertex other }.ncard := by
  rw [List.filter_map, List.length_map, ← ncard_mem (graph.vertices.nodup.filter _)]
  congr 1
  ext vertex
  simp [List.eq_nil_iff_forall_not_mem, mem_iff]

end Fans

/-! ### The longest chain -/

theorem isChain_nil : graph.IsChain [] := ⟨by simp, .nil⟩

theorem isChain_cons_iff {vertex : α} {rest : List α} :
    graph.IsChain (vertex :: rest) ↔ vertex ∈ graph.vertices ∧ graph.IsChain rest ∧
      ∀ next ∈ rest.head?, graph.Depends vertex next := by
  constructor
  · rintro ⟨inside, linked⟩
    obtain ⟨first, tail⟩ := List.isChain_cons.1 linked
    exact ⟨inside vertex List.mem_cons_self,
      ⟨fun other member => inside other (List.mem_cons_of_mem _ member), tail⟩, first⟩
  · rintro ⟨member, chain, first⟩
    exact ⟨List.forall_mem_cons.2 ⟨member, chain.inside⟩, List.isChain_cons.2 ⟨first, chain.linked⟩⟩

/-- The longest chain that begins with a vertex has a given number of vertices. -/
def Tallest (graph : DependencyGraph α) (vertex : α) (height : Nat) : Prop :=
  IsGreatest ((fun rest => (vertex :: rest).length) '' { rest | graph.IsChain (vertex :: rest) }) height

/-- The longest chain goes on from a dependency with the longest chain of all dependencies. -/
theorem Tallest.step {vertex : α} (member : vertex ∈ graph.vertices) {below : List Nat}
    (covers : ∀ dependency, graph.Depends vertex dependency →
      ∃ height ∈ below, graph.Tallest dependency height)
    (sound : ∀ height ∈ below, ∃ dependency, graph.Depends vertex dependency ∧
      graph.Tallest dependency height) :
    graph.Tallest vertex (largest below + 1) := by
  obtain ⟨attained, bound⟩ := isGreatest_largest below
  constructor
  · rcases attained with none | found
    · exact ⟨[], isChain_cons_iff.2 ⟨member, isChain_nil, by simp⟩, by simp [none]⟩
    · obtain ⟨dependency, depends, ⟨rest, chain, length⟩, -⟩ := sound _ found
      exact ⟨dependency :: rest, isChain_cons_iff.2 ⟨member, chain, by simpa using depends⟩,
        congrArg Nat.succ length⟩
  · rintro _ ⟨rest, chain, rfl⟩
    obtain ⟨-, chain, first⟩ := isChain_cons_iff.1 chain
    cases rest with
    | nil => exact Nat.le_add_left _ _
    | cons next rest =>
      obtain ⟨height, listed, -, tallest⟩ := covers next (first next rfl)
      exact Nat.succ_le_succ ((tallest ⟨rest, chain, rfl⟩).trans (bound (.inr listed)))

/-- A table has the length of the longest chain for each of some vertices. -/
structure TallestTable (graph : DependencyGraph α) (listed : List α) (table : List (α × Nat)) :
    Prop where
  keys : table.map Prod.fst = listed
  tallest : ∀ entry ∈ table, graph.Tallest entry.1 entry.2

section Chains

variable [DecidableEq α]

/-- A table that has all dependencies of a vertex is extended by this vertex. -/
theorem TallestTable.step {listed : List α} {table : List (α × Nat)}
    (tabled : graph.TallestTable listed table) {vertex : α} (member : vertex ∈ graph.vertices)
    (earlier : ∀ dependency, graph.Depends vertex dependency → dependency ∈ listed) :
    graph.TallestTable (listed ++ [vertex]) (graph.chainStep table vertex) := by
  have entry_of_lookup : ∀ {dependency height}, table.lookup dependency = some height →
      (dependency, height) ∈ table := fun found => by
    obtain ⟨before, after, rfl, -⟩ := List.lookup_eq_some_iff.1 found
    simp
  have tallest : graph.Tallest vertex
      (largest ((graph.dependencies vertex).filterMap fun dependency => table.lookup dependency) + 1) := by
    refine Tallest.step member (fun dependency depends => ?_) fun height isBelow => ?_
    · have isKey := earlier dependency depends
      rw [← tabled.keys, List.mem_map] at isKey
      obtain ⟨entry, isEntry, rfl⟩ := isKey
      obtain ⟨height, found⟩ := Option.isSome_iff_exists.1
        (List.lookup_isSome_iff.2 ⟨entry, isEntry, beq_self_eq_true entry.1⟩)
      exact ⟨height, List.mem_filterMap.2 ⟨entry.1, mem_dependencies.2 depends, found⟩,
        tabled.tallest _ (entry_of_lookup found)⟩
    · obtain ⟨dependency, isDependency, found⟩ := List.mem_filterMap.1 isBelow
      exact ⟨dependency, mem_dependencies.1 isDependency, tabled.tallest _ (entry_of_lookup found)⟩
  constructor
  · rw [chainStep, List.map_append, tabled.keys]
    rfl
  · intro entry isEntry
    rcases List.mem_append.1 isEntry with old | new
    · exact tabled.tallest entry old
    · exact List.mem_singleton.1 new ▸ tallest

/-- Along an order the table gets the length of the longest chain for every vertex. -/
theorem TallestTable.run {order : List α} (inside : ∀ vertex ∈ order, vertex ∈ graph.vertices)
    (earlier : ∀ before vertex after, order = before ++ vertex :: after →
      ∀ dependency, graph.Depends vertex dependency → dependency ∈ before) :
    graph.TallestTable order (graph.chains order) := by
  induction order using List.reverseRecOn with
  | nil => exact ⟨rfl, by simp [chains]⟩
  | append_singleton before vertex ih =>
    have tabled := ih (fun other member => inside other (List.mem_append_left _ member))
      fun front other back split => earlier front other (back ++ [vertex]) (by simp [split])
    rw [chains, List.foldl_append]
    exact tabled.step (inside vertex (by simp)) (earlier before vertex [] rfl)

omit [DecidableEq α] in
/-- The longest chain of all is the longest one that begins with some vertex. -/
theorem isGreatest_of_tallestTable {order : List α} {table : List (α × Nat)}
    (tabled : graph.TallestTable order table) (all : ∀ vertex ∈ graph.vertices, vertex ∈ order) :
    IsGreatest (List.length '' { chain | graph.IsChain chain }) (largest (table.map Prod.snd)) := by
  obtain ⟨attained, bound⟩ := isGreatest_largest (table.map Prod.snd)
  constructor
  · rcases attained with none | found
    · exact ⟨[], isChain_nil, none.symm⟩
    · obtain ⟨entry, isEntry, same⟩ := List.mem_map.1 found
      obtain ⟨⟨rest, chain, length⟩, -⟩ := tabled.tallest entry isEntry
      exact ⟨_, chain, length.trans same⟩
  · rintro _ ⟨chain, isChain, rfl⟩
    cases chain with
    | nil => exact Nat.zero_le _
    | cons vertex rest =>
      have isKey := all vertex (isChain.inside vertex List.mem_cons_self)
      rw [← tabled.keys, List.mem_map] at isKey
      obtain ⟨entry, isEntry, rfl⟩ := isKey
      exact ((tabled.tallest entry isEntry).2 ⟨rest, isChain, rfl⟩).trans
        (bound (.inr (List.mem_map_of_mem isEntry)))

end Chains

/-! ### The table of dependents -/

section Table

variable [DecidableEq α] [Std.TransOrd α] [Std.LawfulEqOrd α]

omit [DecidableEq α] in
theorem mem_foldl_fileDependent {arcs : List (Arc α)} {table : ExtTreeMap α (OrderedSet α)} {vertex : α} :
    vertex ∈ arcs.foldl fileDependent table ↔
      vertex ∈ table ∨ ∃ arc ∈ arcs, arc.dependency = vertex := by
  induction arcs generalizing table with
  | nil => simp
  | cons arc rest ih =>
    rw [List.foldl_cons, ih, List.exists_mem_cons_iff]
    by_cases same : arc.dependency = vertex <;> simp [fileDependent, ExtTreeMap.mem_alter, same]

omit [DecidableEq α] in
theorem mem_getD_foldl_fileDependent {arcs : List (Arc α)} {table : ExtTreeMap α (OrderedSet α)}
    {dependent vertex : α} :
    dependent ∈ (arcs.foldl fileDependent table).getD vertex ∅ ↔
      dependent ∈ table.getD vertex ∅ ∨ ⟨dependent, vertex⟩ ∈ arcs := by
  induction arcs generalizing table with
  | nil => simp
  | cons arc rest ih =>
    rw [List.foldl_cons, ih, List.mem_cons]
    by_cases same : arc.dependency = vertex
    · subst same
      obtain ⟨filed, other⟩ := arc
      simp [fileDependent, ExtTreeMap.getD_eq_getD_getElem?, or_assoc, or_left_comm]
    · have other : (⟨dependent, vertex⟩ : Arc α) ≠ arc := fun equal => same (equal ▸ rfl)
      simp [fileDependent, ExtTreeMap.getD_alter, same, other]

/-- The table has an entry for every vertex. -/
theorem mem_dependentsTable (wellFormed : graph.WellFormed) {vertex : α} :
    vertex ∈ graph.dependentsTable ↔ vertex ∈ graph.vertices := by
  rw [dependentsTable, mem_foldl_fileDependent]
  constructor
  · rintro (start | ⟨arc, member, rfl⟩)
    · simpa using start
    · have depends : graph.Depends arc.dependent arc.dependency := member
      exact wellFormed.dependency depends
  · intro member
    exact .inl (by simpa using member)

/-- Under a vertex the table has what depends on it. -/
theorem mem_getD_dependentsTable {dependent vertex : α} :
    dependent ∈ graph.dependentsTable.getD vertex ∅ ↔ graph.Depends dependent vertex := by
  have start : (ExtTreeMap.ofList (graph.vertices.toList.map fun vertex =>
      (vertex, (∅ : OrderedSet α)))).getD vertex ∅ = ∅ := by
    by_cases member : vertex ∈ graph.vertices
    · refine ExtTreeMap.getD_ofList_of_mem Std.ReflCmp.compare_self (List.pairwise_map.2
        (graph.vertices.ascending.imp fun below same => ?_)) (List.mem_map_of_mem member)
      exact absurd (below.symm.trans same) (by decide)
    · exact ExtTreeMap.getD_eq_fallback (by simpa using member)
  rw [dependentsTable, mem_getD_foldl_fileDependent, start]
  simp [Depends]

/-- The table counts the dependents of every vertex. -/
theorem map_size_dependentsTable (wellFormed : graph.WellFormed) :
    (graph.dependentsTable.toList.map fun entry => entry.2.size) =
      graph.vertices.toList.map graph.fanOut := by
  have keys : graph.dependentsTable.keys = graph.vertices.toList :=
    OrderedSet.ascending_ext ExtTreeMap.ordered_keys graph.vertices.ascending fun vertex =>
      ExtTreeMap.mem_keys.trans (mem_dependentsTable wellFormed)
  have sizes : ∀ entry ∈ graph.dependentsTable.toList, entry.2.size = graph.fanOut entry.1 := by
    rintro ⟨vertex, filed⟩ isEntry
    have found := ExtTreeMap.mem_toList_iff_getElem?_eq_some.1 isEntry
    have same : graph.dependentsTable.getD vertex ∅ = filed := by
      rw [ExtTreeMap.getD_eq_getD_getElem?, found, Option.getD_some]
    rw [fanOut, OrderedSet.size, ← ncard_mem filed.nodup, ← same]
    simp only [OrderedSet.mem_toList, mem_getD_dependentsTable]
  rw [← keys, ← ExtTreeMap.map_fst_toList_eq_keys, List.map_map]
  exact List.map_congr_left sizes

end Table

/-! ### All figures -/

/-- The widest fan is the largest one in a list of all. -/
theorem isGreatest_widest (fan : α → Nat) :
    IsGreatest (insert 0 (fan '' { vertex | vertex ∈ graph.vertices }))
      (largest (graph.vertices.toList.map fan)) := by
  convert isGreatest_largest (graph.vertices.toList.map fan) using 2
  ext number
  simp

section Figures

variable [DecidableEq α]

theorem isGreatest_criticalPath (wellFormed : graph.WellFormed) (circuitless : Circuitless graph.Depends) :
    IsGreatest (List.length '' { chain | graph.IsChain chain }) graph.criticalPath := by
  obtain ⟨order, isOrder⟩ : ∃ order, graph.orderBy (fun vertex => vertex) = .ok order :=
    (orderBy_isOk_iff wellFormed).2 circuitless
  have tabled : graph.TallestTable order (graph.chains order) :=
    .run (fun vertex member => (mem_of_orderBy isOrder).1 member)
      fun before vertex after split dependency depends => earlier_of_orderBy isOrder split depends
  rw [criticalPath, DependencyGraph.order, isOrder]
  exact isGreatest_of_tallestTable tabled fun vertex member => (mem_of_orderBy isOrder).2 member

theorem criticalPath_of_circuit (wellFormed : graph.WellFormed) (circuit : ¬ Circuitless graph.Depends) :
    graph.criticalPath = 0 := by
  rw [criticalPath]
  split
  · next order isOrder => exact absurd ((orderBy_isOk_iff wellFormed).1 ⟨order, isOrder⟩) circuit
  · rfl

variable [Std.TransOrd α]

/-- The figures are those of the relation. -/
theorem measures (wellFormed : graph.WellFormed) : graph.Measures graph.statistics where
  vertices := (ncard_mem graph.vertices.nodup).symm
  fanIns := (sum_fanIn wellFormed).symm
  fanOuts := (sum_fanOut wellFormed).symm
  sources := length_filter_eq_zero fun _ _ => mem_dependencies
  sinks := length_filter_eq_zero fun _ _ => mem_dependents
  maxFanIn := by
    simp only [statistics, length_dependencies]
    exact isGreatest_widest graph.fanIn
  maxFanOut := by
    simp only [statistics, length_dependents]
    exact isGreatest_widest graph.fanOut
  acyclic := isGreatest_criticalPath wellFormed
  cyclic := criticalPath_of_circuit wellFormed

variable [Std.LawfulEqOrd α]

/-- Counting in a table of dependents gives the same figures. -/
theorem countedStatistics_eq (wellFormed : graph.WellFormed) :
    graph.countedStatistics = graph.statistics := by
  have edges : total (graph.vertices.toList.map fun vertex => (graph.dependencies vertex).length) =
      graph.arcs.size := by
    simp only [length_dependencies, total_eq_sum]
    exact sum_fanIn wellFormed
  simp only [countedStatistics, statistics, map_size_dependentsTable wellFormed, edges,
    length_dependents]

/-- The figures of a dependency graph say what they seem to say: the critical path is the longest chain
of dependencies, zero if there is a circuit, and the fans on both sides add up to the number of
edges. They are the same when the dependents are collected arc by arc in a table. -/
theorem statistics_measure (wellFormed : graph.WellFormed) :
    graph.Measures graph.statistics ∧ graph.countedStatistics = graph.statistics :=
  ⟨measures wellFormed, countedStatistics_eq wellFormed⟩

end Figures

theorem statistics_measure_diamondSample : diamondSample.WellFormed ∧
    diamondSample.countedStatistics = ⟨5, 4, 2, 2, 2, 2, 3⟩ ∧
    IsGreatest (List.length '' { chain | diamondSample.IsChain chain }) 3 := by
  have wellFormed : diamondSample.WellFormed := ofLists_wellFormed
  obtain ⟨measured, same⟩ := statistics_measure wellFormed
  have figures : diamondSample.statistics = ⟨5, 4, 2, 2, 2, 2, 3⟩ := by decide +kernel
  have circuitless : Circuitless diamondSample.Depends :=
    (orderBy_isOk_iff wellFormed).1
      (show ∃ order, diamondSample.order = .ok order from ⟨[0, 1, 2, 3, 4], by decide +kernel⟩)
  exact ⟨wellFormed, same.trans figures, by simpa [figures] using measured.acyclic circuitless⟩

end StagePlanner.DependencyGraph
