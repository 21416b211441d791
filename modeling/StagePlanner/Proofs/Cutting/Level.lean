import StagePlanner.Plan.Cutting
import StagePlanner.Proofs.Graph.Wiring
import StagePlanner.Proofs.Partition.Calls

/-!
# Levels and regions

`Graph.Levelling` says what levels are without an order of the operators: they rise behind
markers, never fall along a wire, and are as small as that allows. Along any order of the
dependencies the table of levels is such a levelling (`levelling_levels`), and the partition into
regions is the one that wires within a level between operators that are no markers generate
(`mem_classes_regions`). Along any list of operators the regions are the components of the calls that
build them, and all operators of a region have one level (`regions_are_components`).
-/

namespace StagePlanner

open Relation

namespace DependencyGraph

theorem foldl_max_le_iff {numbers : List Nat} {start bound : Nat} :
    numbers.foldl max start ≤ bound ↔ start ≤ bound ∧ ∀ number ∈ numbers, number ≤ bound := by
  induction numbers generalizing start with
  | nil => simp
  | cons number rest ih =>
    rw [List.foldl_cons, ih, Nat.max_le, List.forall_mem_cons, and_assoc]

theorem le_largest {numbers : List Nat} {number : Nat} (member : number ∈ numbers) :
    number ≤ largest numbers :=
  (foldl_max_le_iff.1 (Nat.le_refl (largest numbers))).2 number member

/-- The largest number of a list is listed, or zero. -/
theorem largest_eq_zero_or_mem (numbers : List Nat) :
    largest numbers = 0 ∨ largest numbers ∈ numbers := by
  have general : ∀ start, numbers.foldl max start = start ∨ numbers.foldl max start ∈ numbers := by
    induction numbers with
    | nil => exact fun _ => .inl rfl
    | cons number rest ih =>
      intro start
      rw [List.foldl_cons]
      rcases ih (max start number) with same | later
      · rcases Nat.le_total start number with below | above
        · rw [Nat.max_eq_right below] at same ⊢
          exact .inr (List.mem_cons.2 (.inl same))
        · rw [Nat.max_eq_left above] at same ⊢
          exact .inl same
      · exact .inr (List.mem_cons_of_mem _ later)
  exact general 0

end DependencyGraph

namespace Graph

variable {graph : Graph}

/-- The number of markers that an operator adds to the ways through it. -/
def crossings (graph : Graph) (id : OperatorId) : Nat := if graph.isMarker id then 1 else 0

/-- The level of an operator is the number of markers before it on the way with the most. -/
structure Levelling (graph : Graph) (level : OperatorId → Nat) : Prop where
  rises : ∀ source target, graph.Feeds source target →
    level source + graph.crossings source ≤ level target
  attained : ∀ target ∈ graph.operatorIds, level target = 0 ∨
    ∃ source, graph.Feeds source target ∧ level target = level source + graph.crossings source

/-- Two levellings agree on the operators of a graph without circuits. -/
theorem Levelling.unique (acyclic : graph.Acyclic) {left right : OperatorId → Nat}
    (isLeft : graph.Levelling left) (isRight : graph.Levelling right) :
    ∀ id ∈ graph.operatorIds, left id = right id := by
  have founded := Circuitless.wellFounded (Circuitless.converse acyclic) graph.operatorIds
    fun _ source feeds => mem_operatorIds.2 feeds.operators.1
  intro id
  induction id using founded.induction with
  | _ target ih =>
    intro member
    have le : ∀ {first second : OperatorId → Nat}, graph.Levelling first →
        graph.Levelling second →
        (∀ source, graph.Feeds source target → first source = second source) →
        first target ≤ second target := by
      intro first second isFirst isSecond same
      rcases isFirst.attained target member with zero | ⟨source, feeds, attained⟩
      · omega
      · have rises := isSecond.rises source target feeds
        rw [attained, same source feeds]
        exact rises
    have same : ∀ source, graph.Feeds source target → left source = right source :=
      fun source feeds => ih source feeds (mem_operatorIds.2 feeds.operators.1)
    exact Nat.le_antisymm (le isLeft isRight same)
      (le isRight isLeft fun source feeds => (same source feeds).symm)

/-! ### The table of levels -/

/-- A table holds levels for some operators, in the order in which they were reached. -/
structure LevelTable (graph : Graph) (levels : List (OperatorId × Nat)) (reached : List OperatorId) :
    Prop where
  keys : levels.map Prod.fst = reached
  /-- Every entry is computed from the entries of the predecessors. -/
  entry : ∀ id ∈ reached, ∃ level, levels.lookup id = some level ∧
    level = DependencyGraph.largest ((graph.predecessors id).toList.map fun predecessor =>
      (levels.lookup predecessor).getD 0 + graph.crossings predecessor)

theorem lookup_eq_none {levels : List (OperatorId × Nat)} {id : OperatorId}
    (fresh : id ∉ levels.map Prod.fst) : levels.lookup id = none := by
  rw [List.lookup_eq_none_iff]
  intro entry member
  simp only [bne_iff_ne, ne_eq]
  rintro rfl
  exact fresh (List.mem_map_of_mem member)

theorem LevelTable.step {levels : List (OperatorId × Nat)} {reached : List OperatorId}
    (table : graph.LevelTable levels reached) {id : OperatorId} (fresh : id ∉ reached)
    (closed : ∀ other ∈ reached ++ [id], ∀ predecessor ∈ graph.predecessors other,
      predecessor ∈ reached) :
    graph.LevelTable (graph.levelStep levels id) (reached ++ [id]) := by
  -- A further entry leaves the entries of the operators reached before as they are.
  have unchanged : ∀ other ∈ reached,
      (graph.levelStep levels id).lookup other = levels.lookup other := by
    intro other member
    obtain ⟨level, found, -⟩ := table.entry other member
    rw [levelStep, List.lookup_append, found, Option.some_or]
  have sameEnds : ∀ other ∈ reached ++ [id],
      ((graph.predecessors other).toList.map fun predecessor =>
        ((graph.levelStep levels id).lookup predecessor).getD 0 + graph.crossings predecessor) =
      (graph.predecessors other).toList.map fun predecessor =>
        (levels.lookup predecessor).getD 0 + graph.crossings predecessor := by
    intro other member
    refine List.map_congr_left fun predecessor isPredecessor => ?_
    rw [unchanged predecessor (closed other member predecessor isPredecessor)]
  refine ⟨?_, fun other member => ?_⟩
  · rw [levelStep, List.map_append, table.keys]
    rfl
  · rw [sameEnds other member]
    rcases List.mem_append.1 member with old | new
    · rw [unchanged other old]
      exact table.entry other old
    · obtain rfl := List.mem_singleton.1 new
      refine ⟨_, ?_, rfl⟩
      rw [levelStep, List.lookup_append, lookup_eq_none (table.keys ▸ fresh), Option.none_or,
        List.lookup_cons_self]
      rfl

/-- Along an order of the dependencies every operator gets its level. -/
theorem levelTable_levels (wellFormed : graph.WellFormed) {order : List OperatorId}
    (isOrder : graph.dependencies.order = .ok order) :
    graph.LevelTable (graph.levels order) order := by
  have along : ∀ after before levels, order = before ++ after → graph.LevelTable levels before →
      graph.LevelTable (after.foldl graph.levelStep levels) order := by
    intro after
    induction after with
    | nil =>
      intro before levels split table
      rwa [split, List.append_nil]
    | cons id rest ih =>
      intro before levels split table
      have regrouped : order = (before ++ [id]) ++ rest := by
        rw [split, List.append_assoc, List.singleton_append]
      refine ih (before ++ [id]) _ regrouped (table.step ?_ ?_)
      · intro repeated
        have nodup := DependencyGraph.nodup_of_orderBy isOrder
        rw [split] at nodup
        exact (List.nodup_append.1 nodup).2.2 id repeated id List.mem_cons_self rfl
      · intro other member predecessor isPredecessor
        have depends := (depends_dependencies wellFormed).2
          ((mem_predecessors wellFormed).1 isPredecessor)
        rcases List.mem_append.1 member with old | new
        · obtain ⟨first, second, middle⟩ := List.append_of_mem old
          rw [middle, List.append_assoc, List.cons_append] at split
          rw [middle]
          exact List.mem_append_left _ (DependencyGraph.earlier_of_orderBy isOrder split depends)
        · obtain rfl := List.mem_singleton.1 new
          exact DependencyGraph.earlier_of_orderBy isOrder split depends
  refine along order [] [] rfl ⟨rfl, by simp⟩

theorem mem_order_iff (wellFormed : graph.WellFormed) {order : List OperatorId}
    (isOrder : graph.dependencies.order = .ok order) {id : OperatorId} :
    id ∈ order ↔ id ∈ graph.operatorIds := by
  rw [DependencyGraph.mem_of_orderBy isOrder, mem_vertices_dependencies wellFormed]

/-- The table of levels is a levelling. -/
theorem levelling_levels (wellFormed : graph.WellFormed) {order : List OperatorId}
    (isOrder : graph.dependencies.order = .ok order) :
    ∃ level, graph.Levelling level ∧
      ∀ id ∈ graph.operatorIds, (graph.levels order).lookup id = some (level id) := by
  have table := levelTable_levels wellFormed isOrder
  have listed : ∀ {id}, id ∈ order ↔ id ∈ graph.operatorIds := mem_order_iff wellFormed isOrder
  have lookup : ∀ id ∈ graph.operatorIds,
      (graph.levels order).lookup id = some (((graph.levels order).lookup id).getD 0) := by
    intro id member
    obtain ⟨level, found, -⟩ := table.entry id (listed.2 member)
    rw [found, Option.getD_some]
  have value : ∀ id ∈ graph.operatorIds, ((graph.levels order).lookup id).getD 0 =
      DependencyGraph.largest ((graph.predecessors id).toList.map fun predecessor =>
        ((graph.levels order).lookup predecessor).getD 0 + graph.crossings predecessor) := by
    intro id member
    obtain ⟨level, found, computed⟩ := table.entry id (listed.2 member)
    rw [found, Option.getD_some, computed]
  refine ⟨fun id => ((graph.levels order).lookup id).getD 0, ⟨?_, ?_⟩, lookup⟩
  · intro source target feeds
    rw [value target (mem_operatorIds.2 feeds.operators.2)]
    exact DependencyGraph.le_largest
      (List.mem_map.2 ⟨source, (mem_predecessors wellFormed).2 feeds, rfl⟩)
  · intro target member
    rw [value target member]
    rcases DependencyGraph.largest_eq_zero_or_mem
      ((graph.predecessors target).toList.map fun predecessor =>
        ((graph.levels order).lookup predecessor).getD 0 + graph.crossings predecessor)
      with zero | listedEnd
    · exact .inl zero
    · obtain ⟨source, isPredecessor, same⟩ := List.mem_map.1 listedEnd
      exact .inr ⟨source, (mem_predecessors wellFormed).1 isPredecessor, same.symm⟩

/-! ### Regions -/

/-- A wire within a level between operators that are no markers. -/
def Joined (graph : Graph) (level : OperatorId → Nat) (source target : OperatorId) : Prop :=
  graph.isMarker source = false ∧ graph.isMarker target = false ∧ graph.Feeds source target ∧
    level source = level target

/-- Two operators belong to one region when wires within their level join them. -/
def SameRegion (graph : Graph) (level : OperatorId → Nat) : OperatorId → OperatorId → Prop :=
  EqvGen (graph.Joined level)

theorem SameRegion.level_eq {level : OperatorId → Nat} {left right : OperatorId}
    (same : graph.SameRegion level left right) : level left = level right :=
  eq_of_eqvGen level (fun _ _ joined => joined.2.2.2) same

/-- No operator but a single one shares a region with a marker. -/
theorem SameRegion.isMarker_eq {level : OperatorId → Nat} {left right : OperatorId}
    (same : graph.SameRegion level left right) : graph.isMarker left = graph.isMarker right :=
  eq_of_eqvGen graph.isMarker (fun _ _ joined => joined.1.trans joined.2.1.symm) same

theorem SameRegion.mem_operatorIds {level : OperatorId → Nat} {left right : OperatorId}
    (same : graph.SameRegion level left right) :
    left ∈ graph.operatorIds ↔ right ∈ graph.operatorIds := by
  induction same with
  | rel _ _ joined =>
    have both := joined.2.2.1.operators
    exact ⟨fun _ => Graph.mem_operatorIds.2 both.2, fun _ => Graph.mem_operatorIds.2 both.1⟩
  | refl => rfl
  | symm _ _ _ ih => exact ih.symm
  | trans _ _ _ _ _ first second => exact first.trans second

/-- The calls that build the partition into regions, along an order of the dependencies. -/
def regionCalls (graph : Graph) (order : List OperatorId) : List (PartitionCall OperatorId) :=
  (order.filter fun id => !graph.isMarker id).flatMap fun id =>
    .add id :: ((graph.successors id).toList.filter fun successor => !graph.isMarker successor &&
        (graph.levels order).lookup successor = (graph.levels order).lookup id).flatMap
      fun successor => [.add successor, .union id successor]

theorem foldl_regionCalls (graph : Graph) (order : List OperatorId) :
    (graph.regionCalls order).foldl PartitionCall.apply {} = graph.regions order := by
  simp only [regionCalls, regions, List.foldl_flatMap, List.foldl_cons, List.foldl_nil,
    PartitionCall.apply]
  rfl

theorem proper_regionCalls (graph : Graph) (order : List OperatorId) :
    PartitionCall.Proper [] (graph.regionCalls order) := by
  have joining : ∀ (id : OperatorId) (successors known : List OperatorId), id ∈ known →
      PartitionCall.Proper known
        (successors.flatMap fun successor => [.add successor, .union id successor]) := by
    intro id successors
    induction successors with
    | nil => exact fun _ _ => trivial
    | cons successor rest ih =>
      intro known isKnown
      have isKnown : id ∈ successor :: known := List.mem_cons_of_mem _ isKnown
      exact ⟨isKnown, List.mem_cons_self, ih _ isKnown⟩
  rw [regionCalls]
  refine PartitionCall.Proper.flatMap (fun id known => ?_) _ _
  exact joining id _ (id :: known) List.mem_cons_self

variable {order : List OperatorId}

/-- Operators are united with their successors of the same level, markers excepted. -/
theorem united_regionCalls_iff {left right : OperatorId} :
    PartitionCall.United (graph.regionCalls order) left right ↔
      (left ∈ order ∧ graph.isMarker left = false) ∧ right ∈ graph.successors left ∧
        graph.isMarker right = false ∧
        (graph.levels order).lookup right = (graph.levels order).lookup left := by
  simp [PartitionCall.United, regionCalls]

theorem add_mem_regionCalls_iff {id : OperatorId} :
    .add id ∈ graph.regionCalls order ↔ (id ∈ order ∧ graph.isMarker id = false) ∨
      ∃ source, PartitionCall.United (graph.regionCalls order) source id := by
  simp only [united_regionCalls_iff]
  simp [regionCalls, and_or_left, exists_or]

/-- The members of the partition are the operators of the order that are no markers, and what the calls
unite generates it. -/
theorem generates_regionCalls (graph : Graph) (order : List OperatorId) :
    (graph.regions order).Generates (PartitionCall.United (graph.regionCalls order)) ∧
      ∀ id, id ∈ (graph.regions order).members ↔ .add id ∈ graph.regionCalls order := by
  obtain ⟨-, generates, members⟩ := (proper_regionCalls graph order).generates
  rw [foldl_regionCalls] at generates members
  exact ⟨generates, members⟩

section Along

variable {level : OperatorId → Nat} (wellFormed : graph.WellFormed)
  (lookup : ∀ id ∈ graph.operatorIds, (graph.levels order).lookup id = some (level id))

include wellFormed lookup

/-- The calls unite what wires within a level join. -/
theorem united_regionCalls_iff_joined (isOrder : graph.dependencies.order = .ok order)
    {left right : OperatorId} :
    PartitionCall.United (graph.regionCalls order) left right ↔ graph.Joined level left right := by
  rw [united_regionCalls_iff, mem_successors wellFormed, mem_order_iff wellFormed isOrder]
  constructor
  · rintro ⟨⟨-, noMarker⟩, feeds, targetNoMarker, same⟩
    rw [lookup _ (mem_operatorIds.2 feeds.operators.1),
      lookup _ (mem_operatorIds.2 feeds.operators.2)] at same
    exact ⟨noMarker, targetNoMarker, feeds, (Option.some.inj same).symm⟩
  · rintro ⟨noMarker, targetNoMarker, feeds, same⟩
    have isSource := mem_operatorIds.2 feeds.operators.1
    refine ⟨⟨isSource, noMarker⟩, feeds, targetNoMarker, ?_⟩
    rw [lookup _ isSource, lookup _ (mem_operatorIds.2 feeds.operators.2), same]

/-- The partition into regions has the operators that are no markers as members, and wires within
a level between them generate it. -/
theorem generates_regions (isOrder : graph.dependencies.order = .ok order) :
    (graph.regions order).Generates (graph.Joined level) ∧
      ∀ id, id ∈ (graph.regions order).members ↔
        id ∈ graph.operatorIds ∧ graph.isMarker id = false := by
  obtain ⟨generates, members⟩ := generates_regionCalls graph order
  refine ⟨generates.congr fun _ _ => united_regionCalls_iff_joined wellFormed lookup isOrder,
    fun id => ?_⟩
  rw [members, add_mem_regionCalls_iff, mem_order_iff wellFormed isOrder]
  refine or_iff_left_of_imp ?_
  rintro ⟨source, united⟩
  have joined := (united_regionCalls_iff_joined wellFormed lookup isOrder).1 united
  exact ⟨mem_operatorIds.2 joined.2.2.1.operators.2, joined.2.1⟩

/-- The listed regions are the regions of the operators that are no markers. -/
theorem mem_classes_regions (isOrder : graph.dependencies.order = .ok order)
    {region : OrderedSet OperatorId} :
    region ∈ (graph.regions order).classes ↔ ∃ id ∈ graph.operatorIds,
      graph.isMarker id = false ∧ ∀ other, other ∈ region ↔ graph.SameRegion level other id := by
  obtain ⟨generates, members⟩ := generates_regions wellFormed lookup isOrder
  rw [generates.mem_classes_iff]
  constructor
  · rintro ⟨id, member, isClass⟩
    obtain ⟨inGraph, noMarker⟩ := (members id).1 member
    refine ⟨id, inGraph, noMarker, fun other => (isClass other).trans ⟨And.right, fun same => ?_⟩⟩
    exact ⟨(members other).2 ⟨same.mem_operatorIds.2 inGraph, same.isMarker_eq.trans noMarker⟩, same⟩
  · rintro ⟨id, inGraph, noMarker, isClass⟩
    refine ⟨id, (members id).2 ⟨inGraph, noMarker⟩, fun other => (isClass other).trans
      ⟨fun same => ⟨?_, same⟩, And.right⟩⟩
    exact (members other).2 ⟨same.mem_operatorIds.2 inGraph, same.isMarker_eq.trans noMarker⟩

end Along

/-! ### Regions as components -/

theorem map_fst_levels (graph : Graph) (order : List OperatorId) :
    (graph.levels order).map Prod.fst = order := by
  have along : ∀ (order : List OperatorId) (levels : List (OperatorId × Nat)),
      (order.foldl graph.levelStep levels).map Prod.fst = levels.map Prod.fst ++ order := by
    intro order
    induction order with
    | nil => simp
    | cons id rest ih => intro levels; simp [ih, levelStep]
  exact along order []

/-- What the calls add has a level. -/
theorem exists_level_of_added {id : OperatorId} (added : .add id ∈ graph.regionCalls order) :
    ∃ level, (graph.levels order).lookup id = some level := by
  have leveled : ∀ {other}, other ∈ order → ∃ level, (graph.levels order).lookup other = some level := by
    intro other isThere
    rw [← map_fst_levels graph order] at isThere
    obtain ⟨entry, isEntry, rfl⟩ := List.mem_map.1 isThere
    exact Option.isSome_iff_exists.1 (List.lookup_isSome_iff.2 ⟨entry, isEntry, by simp⟩)
  rcases add_mem_regionCalls_iff.1 added with ⟨isThere, -⟩ | ⟨source, united⟩
  · exact leveled isThere
  · obtain ⟨⟨isThere, -⟩, -, -, same⟩ := united_regionCalls_iff.1 united
    rw [same]
    exact leveled isThere

/-- Whatever items are added and united, every look-up ends and changes no class, and the classes that
are collected are the components of the united pairs, once each and by ascending smallest members. The
regions of a graph are built so, and the operators of a region have one level. -/
theorem regions_are_components :
    (∀ calls : List (PartitionCall OperatorId), PartitionCall.Proper [] calls →
      ∃ partition, PartitionCall.runAll calls = some partition ∧ partition.Components calls) ∧
    ∀ (graph : Graph) (order : List OperatorId),
      PartitionCall.Proper [] (graph.regionCalls order) ∧
      PartitionCall.runAll (graph.regionCalls order) = some (graph.regions order) ∧
      (graph.regions order).collect = some (graph.regions order).classes ∧
      ∀ region ∈ (graph.regions order).classes, ∃ level, ∀ id ∈ region,
        (graph.levels order).lookup id = some level := by
  refine ⟨fun calls proper => ?_, fun graph order => ?_⟩
  · obtain ⟨runs, generates, members⟩ := proper.generates
    exact ⟨_, runs, generates.components members⟩
  · obtain ⟨runs, -, -⟩ := (proper_regionCalls graph order).generates
    obtain ⟨generates, members⟩ := generates_regionCalls graph order
    rw [foldl_regionCalls] at runs
    refine ⟨proper_regionCalls graph order, runs, generates.forest.collect_eq,
      fun region isRegion => ?_⟩
    obtain ⟨id, isThere, isMember⟩ := generates.mem_classes_iff.1 isRegion
    obtain ⟨level, found⟩ := exists_level_of_added ((members id).1 isThere)
    refine ⟨level, fun other isOther => ?_⟩
    exact (eq_of_eqvGen (fun id => (graph.levels order).lookup id) (fun _ _ united =>
      (united_regionCalls_iff.1 united).2.2.2.symm) ((isMember other).1 isOther).2).trans found

/-- Three operators that are united beside one that is not. -/
def unitedCalls : List (PartitionCall OperatorId) :=
  [.add ⟨3⟩, .add ⟨1⟩, .union ⟨3⟩ ⟨1⟩, .add ⟨2⟩, .add ⟨5⟩, .union ⟨5⟩ ⟨3⟩]

theorem regions_are_components_unitedCalls : ∃ partition classes,
    PartitionCall.runAll unitedCalls = some partition ∧ partition.collect = some classes ∧
      partition.ascend ⟨5⟩ = partition.ascend ⟨1⟩ ∧ OrderedSet.ofList [⟨1⟩, ⟨3⟩, ⟨5⟩] ∈ classes := by
  obtain ⟨partition, runs, components⟩ := regions_are_components.1 unitedCalls (by decide)
  obtain ⟨classes, collects, -, isClass⟩ := components.collect
  have first : EqvGen (PartitionCall.United unitedCalls) ⟨3⟩ ⟨1⟩ := .rel _ _ (by decide)
  have second : EqvGen (PartitionCall.United unitedCalls) ⟨5⟩ ⟨1⟩ :=
    .trans _ _ _ (.rel _ _ (by decide)) first
  have apart : ∀ left right, PartitionCall.United unitedCalls left right →
      decide (left = ⟨2⟩) = decide (right = ⟨2⟩) := by
    intro left right united
    obtain ⟨rfl, rfl⟩ | ⟨rfl, rfl⟩ : (left = ⟨3⟩ ∧ right = ⟨1⟩) ∨ (left = ⟨5⟩ ∧ right = ⟨3⟩) := by
      simpa [PartitionCall.United, unitedCalls] using united
    all_goals decide
  refine ⟨partition, classes, runs, collects, (components.connected _ _).2 second,
    (isClass _).2 ⟨⟨1⟩, by decide, fun other => ?_⟩⟩
  rw [OrderedSet.mem_ofList]
  constructor
  · intro listed
    obtain rfl | rfl | rfl : other = ⟨1⟩ ∨ other = ⟨3⟩ ∨ other = ⟨5⟩ := by simpa using listed
    · exact ⟨by decide, .refl _⟩
    · exact ⟨by decide, first⟩
    · exact ⟨by decide, second⟩
  · rintro ⟨added, connected⟩
    obtain rfl | rfl | rfl | rfl : other = ⟨3⟩ ∨ other = ⟨1⟩ ∨ other = ⟨2⟩ ∨ other = ⟨5⟩ := by
      simpa [unitedCalls] using added
    · decide
    · decide
    · exact absurd (eq_of_eqvGen (fun id : OperatorId => decide (id = ⟨2⟩)) apart connected) (by decide)
    · decide

end Graph

end StagePlanner
