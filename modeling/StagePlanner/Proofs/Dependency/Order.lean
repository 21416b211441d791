import Mathlib.Data.List.Nodup
import StagePlanner.Dependency.Circuit
import StagePlanner.Proofs.Circuitless

/-!
# Orders of dependency graphs

`DependencyGraph.Depends` is the relation that a dependency graph stores. Vertices are
released one by one, each after all that it depends on; `Released` says what holds after
any number of releases.

* `mem_of_orderBy`, `nodup_of_orderBy` and `earlier_of_orderBy`: an order lists every vertex once,
  behind everything that it depends on.
* `orderBy_isOk_iff`: there is an order exactly when there is no circuit.
-/

namespace StagePlanner.DependencyGraph

open Relation

variable {α : Type} [Ord α]

/-- The first vertex depends directly on the second one. -/
def Depends (graph : DependencyGraph α) (dependent dependency : α) : Prop :=
  { dependent, dependency } ∈ graph.arcs

/-- Both ends of every arc are vertices. -/
structure WellFormed (graph : DependencyGraph α) : Prop where
  dependent : ∀ {dependent dependency}, graph.Depends dependent dependency →
    dependent ∈ graph.vertices
  dependency : ∀ {dependent dependency}, graph.Depends dependent dependency →
    dependency ∈ graph.vertices

/-- Graphs with the same vertices and dependencies are equal. -/
theorem ext_of_depends [Std.TransOrd α] [Std.LawfulEqOrd α] {left right : DependencyGraph α}
    (vertices : ∀ vertex, vertex ∈ left.vertices ↔ vertex ∈ right.vertices)
    (depends : ∀ dependent dependency,
      left.Depends dependent dependency ↔ right.Depends dependent dependency) : left = right := by
  have sameVertices : left.vertices = right.vertices := OrderedSet.ext vertices
  have sameArcs : left.arcs = right.arcs :=
    OrderedSet.ext fun arc => depends arc.dependent arc.dependency
  cases left; cases right; cases sameVertices; cases sameArcs
  rfl

variable [DecidableEq α]

theorem mem_dependencies {graph : DependencyGraph α} {dependent dependency : α} :
    dependency ∈ graph.dependencies dependent ↔ graph.Depends dependent dependency := by
  simp only [dependencies, List.mem_map, List.mem_filter, decide_eq_true_eq, Depends]
  constructor
  · rintro ⟨⟨source, target⟩, ⟨member, rfl⟩, rfl⟩
    exact member
  · intro member
    exact ⟨_, ⟨member, rfl⟩, rfl⟩

theorem mem_rows {graph : DependencyGraph α} {row : Row α} :
    row ∈ graph.rows ↔ row.1 ∈ graph.vertices ∧ row.2 = graph.dependencies row.1 := by
  obtain ⟨vertex, found⟩ := row
  simp only [rows, List.mem_map, OrderedSet.mem_toList, Prod.mk.injEq]
  constructor
  · rintro ⟨other, member, rfl, rfl⟩
    exact ⟨member, rfl⟩
  · rintro ⟨member, same⟩
    exact ⟨vertex, member, rfl, same.symm⟩

section Building

variable [Std.TransOrd α] [Std.LawfulEqOrd α]

omit [DecidableEq α] in
theorem depends_foldl_addArc {arcs : List (Arc α)} {start : DependencyGraph α}
    {dependent dependency : α} :
    (arcs.foldl (fun graph arc => graph.addArc arc.dependent arc.dependency) start).Depends
        dependent dependency ↔
      start.Depends dependent dependency ∨ { dependent, dependency } ∈ arcs := by
  induction arcs generalizing start with
  | nil => simp
  | cons arc rest ih =>
    rw [List.foldl_cons, ih, List.mem_cons]
    simp only [Depends, addArc, OrderedSet.mem_insert]
    constructor
    · rintro ((new | old) | later)
      · exact .inr (.inl new)
      · exact .inl old
      · exact .inr (.inr later)
    · rintro (old | new | later)
      · exact .inl (.inr old)
      · exact .inl (.inl new)
      · exact .inr later

omit [DecidableEq α] in
theorem mem_vertices_foldl_addArc {arcs : List (Arc α)} {start : DependencyGraph α} {vertex : α} :
    vertex ∈ (arcs.foldl (fun graph arc => graph.addArc arc.dependent arc.dependency) start).vertices ↔
      vertex ∈ start.vertices ∨ ∃ arc ∈ arcs, vertex = arc.dependent ∨ vertex = arc.dependency := by
  induction arcs generalizing start with
  | nil => simp
  | cons arc rest ih =>
    rw [List.foldl_cons, ih]
    simp only [addArc, OrderedSet.mem_insert, List.exists_mem_cons_iff]
    constructor
    · rintro ((new | new | old) | later)
      · exact .inr (.inl (.inl new))
      · exact .inr (.inl (.inr new))
      · exact .inl old
      · exact .inr (.inr later)
    · rintro (old | (new | new) | later)
      · exact .inl (.inr (.inr old))
      · exact .inl (.inl new)
      · exact .inl (.inr (.inl new))
      · exact .inr later

omit [DecidableEq α] in
/-- A graph built from lists has exactly the listed dependencies. -/
theorem depends_ofLists {vertices : List α} {arcs : List (Arc α)} {dependent dependency : α} :
    (ofLists vertices arcs).Depends dependent dependency ↔ { dependent, dependency } ∈ arcs := by
  rw [ofLists, depends_foldl_addArc]
  simp [Depends]

omit [DecidableEq α] in
/-- A graph built from lists has the listed vertices if the arcs run between them. -/
theorem mem_vertices_ofLists {vertices : List α} {arcs : List (Arc α)} {vertex : α}
    (inside : ∀ arc ∈ arcs, arc.dependent ∈ vertices ∧ arc.dependency ∈ vertices) :
    vertex ∈ (ofLists vertices arcs).vertices ↔ vertex ∈ vertices := by
  rw [ofLists, mem_vertices_foldl_addArc, OrderedSet.mem_ofList]
  constructor
  · rintro (listed | ⟨arc, member, rfl | rfl⟩)
    · exact listed
    · exact (inside arc member).1
    · exact (inside arc member).2
  · exact .inl

omit [DecidableEq α] in
theorem ofLists_wellFormed {vertices : List α} {arcs : List (Arc α)} :
    (ofLists vertices arcs).WellFormed where
  dependent depends := by
    rw [ofLists, mem_vertices_foldl_addArc]
    exact .inr ⟨_, depends_ofLists.1 depends, .inl rfl⟩
  dependency depends := by
    rw [ofLists, mem_vertices_foldl_addArc]
    exact .inr ⟨_, depends_ofLists.1 depends, .inr rfl⟩

end Building

/-! ### Releasing vertices -/

omit [Ord α] [DecidableEq α] in
theorem least?_mem {smaller : α → α → Bool} {items : List α} {best : α}
    (found : least? smaller items = some best) : best ∈ items := by
  induction items with
  | nil => simp [least?] at found
  | cons head tail ih =>
    rw [least?] at found
    split at found
    · simp_all
    · next other tailBest =>
      split at found
      · exact List.mem_cons_of_mem _ (ih (tailBest.trans found))
      · simp_all

omit [Ord α] [DecidableEq α] in
theorem least?_eq_none {smaller : α → α → Bool} {items : List α} :
    least? smaller items = none ↔ items = [] := by
  cases items with
  | nil => simp [least?]
  | cons head tail =>
    rw [least?]
    split
    · simp
    · split <;> simp

/-- What holds when some vertices have been released and the rows of the others are waiting. -/
structure Released (graph : DependencyGraph α) (waiting : List (Row α)) (released : List α) :
    Prop where
  waiting_eq : waiting = graph.rows.filter fun row => row.1 ∉ released
  inside : ∀ vertex ∈ released, vertex ∈ graph.vertices
  nodup : released.Nodup
  /-- A released vertex stands behind everything that it depends on. -/
  earlier : ∀ before vertex after, released = before ++ vertex :: after →
    ∀ dependency, graph.Depends vertex dependency → dependency ∈ before

theorem Released.start (graph : DependencyGraph α) : graph.Released graph.rows [] where
  waiting_eq := by simp
  inside := by simp
  nodup := List.nodup_nil
  earlier := by simp

theorem Released.mem_ready {graph : DependencyGraph α} {waiting : List (Row α)}
    {released : List α} (state : graph.Released waiting released) {vertex : α} :
    vertex ∈ ready waiting released ↔ vertex ∈ graph.vertices ∧ vertex ∉ released ∧
      ∀ dependency, graph.Depends vertex dependency → dependency ∈ released := by
  rw [ready, state.waiting_eq]
  simp only [List.mem_map, List.mem_filter, mem_rows, List.all_eq_true, decide_eq_true_eq]
  constructor
  · rintro ⟨row, ⟨⟨⟨member, same⟩, fresh⟩, all⟩, rfl⟩
    refine ⟨member, fresh, fun dependency depends => all dependency ?_⟩
    exact same ▸ mem_dependencies.2 depends
  · rintro ⟨member, fresh, all⟩
    refine ⟨(vertex, graph.dependencies vertex), ⟨⟨⟨member, rfl⟩, fresh⟩, ?_⟩, rfl⟩
    exact fun dependency depends => all dependency (mem_dependencies.1 depends)

/-- The release of a ready vertex. -/
theorem Released.next {graph : DependencyGraph α} {waiting : List (Row α)} {released : List α}
    (state : graph.Released waiting released) {vertex : α}
    (isReady : vertex ∈ ready waiting released) :
    graph.Released (waiting.filter fun row => row.1 ≠ vertex) (released ++ [vertex]) := by
  obtain ⟨member, fresh, all⟩ := state.mem_ready.1 isReady
  refine ⟨?_, ?_, ?_, ?_⟩
  · rw [state.waiting_eq, List.filter_filter]
    congr 1
    funext row
    by_cases same : row.1 = vertex <;> simp [same]
  · intro other otherMember
    rcases List.mem_append.1 otherMember with old | new
    · exact state.inside other old
    · exact List.mem_singleton.1 new ▸ member
  · refine List.nodup_append.2 ⟨state.nodup, List.nodup_singleton _, ?_⟩
    intro old oldMember new newMember same
    exact fresh (List.mem_singleton.1 newMember ▸ same ▸ oldMember)
  · intro before other after split dependency depends
    rcases List.eq_nil_or_concat after with rfl | ⟨rest, last, rfl⟩
    · obtain ⟨rfl, same⟩ := List.append_inj' split rfl
      obtain rfl : vertex = other := by simpa using same
      exact all dependency depends
    · have regrouped : released ++ [vertex] = (before ++ other :: rest) ++ [last] := by
        simpa using split
      exact state.earlier before other rest (List.append_inj' regrouped rfl).1 dependency depends

/-- What a released vertex depends on is released, at a smaller position. -/
theorem Released.idxOf_lt {graph : DependencyGraph α} {waiting : List (Row α)} {released : List α}
    (state : graph.Released waiting released) {vertex dependency : α} (member : vertex ∈ released)
    (depends : graph.Depends vertex dependency) :
    dependency ∈ released ∧ released.idxOf dependency < released.idxOf vertex := by
  obtain ⟨before, after, split⟩ := List.append_of_mem member
  have inBefore := state.earlier before vertex after split dependency depends
  have fresh : vertex ∉ before := fun repeated =>
    (List.nodup_append.1 (split ▸ state.nodup)).2.2 vertex repeated vertex (by simp) rfl
  refine ⟨split ▸ List.mem_append_left _ inBefore, ?_⟩
  rw [split, List.idxOf_append_of_mem inBefore, List.idxOf_append_of_notMem fresh,
    List.idxOf_cons_self, Nat.add_zero]
  exact List.idxOf_lt_length_of_mem inBefore

/-- Releasing goes on until no waiting vertex is ready. -/
theorem Released.release {ρ : Type} [Ord ρ] {graph : DependencyGraph α} (rank : α → ρ)
    {rounds : Nat} {waiting : List (Row α)} {released : List α}
    (state : graph.Released waiting released) (enough : waiting.length ≤ rounds) :
    graph.Released (release rank rounds waiting released).2 (release rank rounds waiting released).1 ∧
      ready (DependencyGraph.release rank rounds waiting released).2
        (DependencyGraph.release rank rounds waiting released).1 = [] := by
  induction rounds generalizing waiting released with
  | zero =>
    obtain rfl : waiting = [] := List.length_eq_zero_iff.1 (Nat.le_zero.1 enough)
    exact ⟨state, rfl⟩
  | succ rounds ih =>
    rw [DependencyGraph.release]
    split
    · next none => exact ⟨state, least?_eq_none.1 none⟩
    · next vertex found =>
      have isReady := least?_mem found
      refine ih (state.next isReady) ?_
      obtain ⟨row, rowReady, rfl⟩ := List.mem_map.1 isReady
      have rowWaiting := (List.mem_filter.1 rowReady).1
      have shorter : (waiting.filter fun other => other.1 ≠ row.1).length < waiting.length :=
        List.length_filter_lt_length_iff_exists.2 ⟨row, rowWaiting, by simp⟩
      omega

variable {ρ : Type} [Ord ρ] {graph : DependencyGraph α} {rank : α → ρ}

theorem released_releaseAll (graph : DependencyGraph α) (rank : α → ρ) :
    graph.Released (graph.releaseAll rank).2 (graph.releaseAll rank).1 ∧
      ready (graph.releaseAll rank).2 (graph.releaseAll rank).1 = [] :=
  (Released.start graph).release rank (by simp [rows, OrderedSet.size])

/-- A waiting vertex of a graph in which nothing is ready depends on another waiting one. -/
theorem exists_waiting_dependency (wellFormed : graph.WellFormed) {waiting : List (Row α)}
    {released : List α} (state : graph.Released waiting released)
    (nothing : ready waiting released = []) {vertex : α} (member : vertex ∈ graph.vertices)
    (fresh : vertex ∉ released) :
    ∃ dependency, graph.Depends vertex dependency ∧ dependency ∈ graph.vertices ∧
      dependency ∉ released := by
  have notReady : vertex ∉ ready waiting released := by simp [nothing]
  rw [state.mem_ready] at notReady
  push Not at notReady
  obtain ⟨dependency, depends, unreleased⟩ := notReady member fresh
  exact ⟨dependency, depends, wellFormed.dependency depends, unreleased⟩

/-- All vertices of a graph without circuits are released. -/
theorem mem_releaseAll (wellFormed : graph.WellFormed) (circuitless : Circuitless graph.Depends)
    (rank : α → ρ) {vertex : α} (member : vertex ∈ graph.vertices) :
    vertex ∈ (graph.releaseAll rank).1 := by
  obtain ⟨state, nothing⟩ := released_releaseAll graph rank
  by_contra fresh
  have waits : vertex ∈ graph.vertices.toList.filter fun other =>
      other ∉ (graph.releaseAll rank).1 :=
    List.mem_filter.2 ⟨member, by simpa using fresh⟩
  obtain ⟨last, lastMember, isLast⟩ := circuitless.exists_last (List.ne_nil_of_mem waits)
  obtain ⟨lastVertex, lastFresh⟩ := List.mem_filter.1 lastMember
  obtain ⟨dependency, depends, inside, unreleased⟩ :=
    exists_waiting_dependency wellFormed state nothing lastVertex (by simpa using lastFresh)
  exact isLast dependency (List.mem_filter.2 ⟨inside, by simpa using unreleased⟩) depends

theorem orderBy_eq_ok {order : List α} :
    graph.orderBy rank = .ok order ↔
      (graph.releaseAll rank).2 = [] ∧ (graph.releaseAll rank).1 = order := by
  rw [orderBy]
  split
  · next released _ split => simp [split]
  · next split => simp [split]

theorem mem_of_orderBy {order : List α} (isOrder : graph.orderBy rank = .ok order) {vertex : α} :
    vertex ∈ order ↔ vertex ∈ graph.vertices := by
  obtain ⟨nothingWaits, rfl⟩ := orderBy_eq_ok.1 isOrder
  obtain ⟨state, -⟩ := released_releaseAll graph rank
  refine ⟨state.inside vertex, fun member => ?_⟩
  by_contra fresh
  have waits : (vertex, graph.dependencies vertex) ∈ (graph.releaseAll rank).2 := by
    rw [state.waiting_eq, List.mem_filter]
    exact ⟨mem_rows.2 ⟨member, rfl⟩, by simpa using fresh⟩
  simp [nothingWaits] at waits

theorem nodup_of_orderBy {order : List α} (isOrder : graph.orderBy rank = .ok order) :
    order.Nodup := by
  obtain ⟨-, rfl⟩ := orderBy_eq_ok.1 isOrder
  exact (released_releaseAll graph rank).1.nodup

/-- In an order every vertex stands behind everything that it depends on. -/
theorem earlier_of_orderBy {order : List α} (isOrder : graph.orderBy rank = .ok order)
    {before after : List α} {vertex dependency : α} (split : order = before ++ vertex :: after)
    (depends : graph.Depends vertex dependency) : dependency ∈ before := by
  obtain ⟨-, rfl⟩ := orderBy_eq_ok.1 isOrder
  exact (released_releaseAll graph rank).1.earlier before vertex after split dependency depends

/-- In an order nothing depends on a later vertex. -/
theorem forward_of_orderBy {order : List α} (isOrder : graph.orderBy rank = .ok order) :
    order.Pairwise fun earlier later => ¬ graph.Depends earlier later := by
  suffices ∀ before after, order = before ++ after →
      after.Pairwise fun earlier later => ¬ graph.Depends earlier later from this [] order rfl
  intro before after split
  induction after generalizing before with
  | nil => exact .nil
  | cons vertex rest ih =>
    refine List.pairwise_cons.2 ⟨fun later isLater depends => ?_, ih (before ++ [vertex]) (by simp [split])⟩
    have distinct := nodup_of_orderBy isOrder
    rw [split] at distinct
    exact (List.nodup_append.1 distinct).2.2 later (earlier_of_orderBy isOrder split depends) later
      (List.mem_cons_of_mem _ isLater) rfl

theorem idxOf_lt_of_orderBy {order : List α} (isOrder : graph.orderBy rank = .ok order)
    {vertex dependency : α} (member : vertex ∈ order) (depends : graph.Depends vertex dependency) :
    order.idxOf dependency < order.idxOf vertex := by
  obtain ⟨-, rfl⟩ := orderBy_eq_ok.1 isOrder
  exact ((released_releaseAll graph rank).1.idxOf_lt member depends).2

theorem circuitless_of_orderBy (wellFormed : graph.WellFormed) {order : List α}
    (isOrder : graph.orderBy rank = .ok order) : Circuitless graph.Depends :=
  Circuitless.of_rank order.idxOf fun _ _ depends =>
    idxOf_lt_of_orderBy isOrder ((mem_of_orderBy isOrder).2 (wellFormed.dependent depends)) depends

/-- The vertices can be put into an order exactly when there is no circuit. -/
theorem orderBy_isOk_iff (wellFormed : graph.WellFormed) :
    (∃ order, graph.orderBy rank = .ok order) ↔ Circuitless graph.Depends := by
  constructor
  · rintro ⟨order, isOrder⟩
    exact circuitless_of_orderBy wellFormed isOrder
  · intro circuitless
    refine ⟨_, orderBy_eq_ok.2 ⟨?_, rfl⟩⟩
    rw [(released_releaseAll graph rank).1.waiting_eq, List.filter_eq_nil_iff]
    intro row member
    simpa using mem_releaseAll wellFormed circuitless rank (mem_rows.1 member).1

end StagePlanner.DependencyGraph
