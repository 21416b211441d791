import StagePlanner.Dependency.Countdown
import StagePlanner.Proofs.Dependency.Order

/-!
# Ranked orders

A vertex is available when it is not listed yet and everything that it depends on is. A list
that takes the smallest available vertex at every turn is greedy; greedy lists of a graph can
only be continued in one way, so those that cannot be continued at all are equal.

* `Greedy.eq_of_exhausted`: greedy lists after which nothing is available are equal.
* `greedy_release`: releasing vertices one by one is greedy.
* `run_countdown`: so is counting down, no counter falls below zero on the way, and the
  counters are what is missing.
* `orderBy_ranked`: both give the ranked order of the graph.
-/

namespace StagePlanner.DependencyGraph

variable {α : Type} [Ord α] {ρ : Type} [Ord ρ]

/-- A vertex that can be listed next. -/
structure Available (graph : DependencyGraph α) (listed : List α) (vertex : α) : Prop where
  member : vertex ∈ graph.vertices
  fresh : vertex ∉ listed
  released : ∀ dependency, graph.Depends vertex dependency → dependency ∈ listed

/-- Every vertex of a list is the smallest one that was available at its turn. -/
def Greedy (graph : DependencyGraph α) (rank : α → ρ) (order : List α) : Prop :=
  ∀ before vertex after, order = before ++ vertex :: after →
    graph.Available before vertex ∧
      ∀ other, graph.Available before other → other = vertex ∨ precedes rank vertex other = true

/-- All vertices of a graph, each behind its dependencies and the smallest by rank and key of those
that could stand in its place. -/
structure RankedOrder (graph : DependencyGraph α) (rank : α → ρ) (order : List α) : Prop where
  mem_iff : ∀ vertex, vertex ∈ order ↔ vertex ∈ graph.vertices
  nodup : order.Nodup
  earlier : ∀ before vertex after, order = before ++ vertex :: after →
    ∀ dependency, graph.Depends vertex dependency → dependency ∈ before
  smallest : ∀ before vertex after, order = before ++ vertex :: after →
    ∀ other, graph.Available before other → other = vertex ∨ precedes rank vertex other = true

variable {graph : DependencyGraph α} {rank : α → ρ}

namespace Greedy

theorem nil : graph.Greedy rank [] := by
  intro before vertex after split
  simp at split

/-- A greedy list goes on with the smallest available vertex. -/
theorem concat {order : List α} (greedy : graph.Greedy rank order) {vertex : α}
    (available : graph.Available order vertex)
    (smallest : ∀ other, graph.Available order other →
      other = vertex ∨ precedes rank vertex other = true) :
    graph.Greedy rank (order ++ [vertex]) := by
  intro before other after split
  rcases List.eq_nil_or_concat after with rfl | ⟨rest, last, rfl⟩
  · obtain ⟨rfl, same⟩ := List.append_inj' split rfl
    obtain rfl : vertex = other := by simpa using same
    exact ⟨available, smallest⟩
  · have regrouped : order ++ [vertex] = (before ++ other :: rest) ++ [last] := by simpa using split
    exact greedy before other rest (List.append_inj' regrouped rfl).1

theorem take {before after : List α} (greedy : graph.Greedy rank (before ++ after)) :
    graph.Greedy rank before := by
  rintro front vertex back rfl
  exact greedy front vertex (back ++ after) (by simp)

theorem nodup {order : List α} (greedy : graph.Greedy rank order) : order.Nodup := by
  induction order using List.reverseRecOn with
  | nil => exact List.nodup_nil
  | append_singleton before vertex ih =>
    refine List.nodup_append.2 ⟨ih greedy.take, List.nodup_singleton _, ?_⟩
    intro other member last isLast same
    obtain rfl := List.mem_singleton.1 isLast
    exact (greedy before last [] rfl).1.fresh (same ▸ member)

theorem inside {order : List α} (greedy : graph.Greedy rank order) {vertex : α}
    (member : vertex ∈ order) : vertex ∈ graph.vertices := by
  obtain ⟨before, after, split⟩ := List.append_of_mem member
  exact (greedy before vertex after split).1.member

/-- What a listed vertex depends on is listed. -/
theorem closed {order : List α} (greedy : graph.Greedy rank order) {vertex dependency : α}
    (member : vertex ∈ order) (depends : graph.Depends vertex dependency) : dependency ∈ order := by
  obtain ⟨before, after, rfl⟩ := List.append_of_mem member
  exact List.mem_append_left _ ((greedy before vertex after rfl).1.released dependency depends)

end Greedy

theorem rankedOrder_iff {order : List α} :
    graph.RankedOrder rank order ↔
      graph.Greedy rank order ∧ ∀ vertex ∈ graph.vertices, vertex ∈ order := by
  constructor
  · intro ranked
    refine ⟨fun before vertex after split => ?_, fun vertex => (ranked.mem_iff vertex).2⟩
    have member : vertex ∈ order := split ▸ by simp
    have fresh : vertex ∉ before := fun repeated =>
      (List.nodup_append.1 (split ▸ ranked.nodup)).2.2 vertex repeated vertex (by simp) rfl
    exact ⟨⟨(ranked.mem_iff vertex).1 member, fresh, ranked.earlier before vertex after split⟩,
      ranked.smallest before vertex after split⟩
  · rintro ⟨greedy, all⟩
    exact ⟨fun vertex => ⟨greedy.inside, all vertex⟩, greedy.nodup,
      fun before vertex after split => (greedy before vertex after split).1.released,
      fun before vertex after split => (greedy before vertex after split).2⟩

/-! ### The order of ranks and keys -/

theorem precedes_iff {left right : α} :
    precedes rank left right = true ↔
      compareLex (compareOn rank) compare left right = .lt := by
  simp [precedes, compareLex, compareOn]

section Smallest

variable [Std.TransOrd ρ] [Std.TransOrd α]

theorem precedes_trans {first second third : α} (below : precedes rank first second = true)
    (above : precedes rank second third = true) : precedes rank first third = true := by
  rw [precedes_iff] at below above ⊢
  exact Std.TransCmp.lt_trans below above

theorem not_precedes_of_precedes {left right : α} (below : precedes rank left right = true) :
    precedes rank right left ≠ true := by
  rw [Ne, precedes_iff]
  rw [precedes_iff] at below
  exact Std.OrientedCmp.not_lt_of_lt below

/-- Of two greedy lists one continues the other. -/
theorem Greedy.prefix_or_prefix {first second : List α} (firstGreedy : graph.Greedy rank first)
    (secondGreedy : graph.Greedy rank second) : first <+: second ∨ second <+: first := by
  induction first using List.reverseRecOn with
  | nil => exact .inl List.nil_prefix
  | append_singleton before vertex ih =>
    rcases ih firstGreedy.take with ⟨after, rfl⟩ | longer
    · cases after with
      | nil => exact .inr (by simp)
      | cons other after =>
        -- Both lists take the smallest of what is available behind `before`.
        obtain ⟨vertexAvailable, vertexSmallest⟩ := firstGreedy before vertex [] rfl
        obtain ⟨otherAvailable, otherSmallest⟩ := secondGreedy before other after rfl
        obtain rfl : vertex = other := by
          rcases vertexSmallest other otherAvailable with same | below
          · exact same.symm
          · rcases otherSmallest vertex vertexAvailable with same | above
            · exact same
            · exact absurd above (not_precedes_of_precedes below)
        exact .inl ⟨after, by simp⟩
    · exact .inr (longer.trans (List.prefix_append _ _))

/-- A greedy list behind which nothing is available has no other greedy continuation. -/
theorem Greedy.eq_of_exhausted {first second : List α} (firstGreedy : graph.Greedy rank first)
    (secondGreedy : graph.Greedy rank second) (firstDone : ∀ vertex, ¬ graph.Available first vertex)
    (secondDone : ∀ vertex, ¬ graph.Available second vertex) : first = second := by
  have ends : ∀ {short long : List α}, graph.Greedy rank long →
      (∀ vertex, ¬ graph.Available short vertex) → short <+: long → short = long := by
    rintro short long greedy done ⟨rest, rfl⟩
    cases rest with
    | nil => simp
    | cons vertex rest => exact absurd (greedy short vertex rest rfl).1 (done vertex)
  rcases firstGreedy.prefix_or_prefix secondGreedy with shorter | longer
  · exact ends secondGreedy firstDone shorter
  · exact (ends firstGreedy secondDone longer).symm

variable [Std.LawfulEqOrd α]

theorem eq_or_precedes (rank : α → ρ) (left right : α) :
    left = right ∨ precedes rank left right = true ∨ precedes rank right left = true := by
  simp only [precedes_iff]
  cases order : compareLex (compareOn rank) compare left right with
  | lt => exact .inr (.inl rfl)
  | eq => exact .inl (Std.LawfulEqCmp.eq_of_compare (Ordering.then_eq_eq.1 order).2)
  | gt => exact .inr (.inr (Std.OrientedCmp.gt_iff_lt.1 order))

/-- The chosen item is the smallest one. -/
theorem least?_smallest {items : List α} {best : α}
    (found : least? (precedes rank) items = some best) :
    ∀ other ∈ items, other = best ∨ precedes rank best other = true := by
  induction items generalizing best with
  | nil => simp
  | cons head tail ih =>
    rw [least?] at found
    split at found
    · next none =>
      cases found
      simp [least?_eq_none.1 none]
    · next tailBest tailFound =>
      have tailSmallest := ih tailFound
      intro other member
      split at found
      · next below =>
        cases found
        rcases List.mem_cons.1 member with rfl | member
        · exact .inr below
        · exact tailSmallest other member
      · next above =>
        cases found
        rcases List.mem_cons.1 member with rfl | member
        · exact .inl rfl
        · rcases eq_or_precedes rank head tailBest with rfl | below | below
          · exact tailSmallest other member
          · rcases tailSmallest other member with rfl | further
            · exact .inr below
            · exact .inr (precedes_trans below further)
          · exact absurd below above

end Smallest

/-! ### Releasing -/

variable [DecidableEq α]

theorem Released.mem_ready_iff {waiting : List (Row α)} {released : List α}
    (state : graph.Released waiting released) {vertex : α} :
    vertex ∈ ready waiting released ↔ graph.Available released vertex :=
  state.mem_ready.trans
    ⟨fun ⟨member, fresh, all⟩ => ⟨member, fresh, all⟩,
      fun available => ⟨available.member, available.fresh, available.released⟩⟩

section Smallest

variable [Std.TransOrd ρ] [Std.TransOrd α] [Std.LawfulEqOrd α]

/-- Releasing vertices one by one is greedy. -/
theorem greedy_release {rounds : Nat} {waiting : List (Row α)} {released : List α}
    (state : graph.Released waiting released) (greedy : graph.Greedy rank released) :
    graph.Greedy rank (release rank rounds waiting released).1 := by
  induction rounds generalizing waiting released with
  | zero => exact greedy
  | succ rounds ih =>
    rw [release]
    split
    · exact greedy
    · next vertex found =>
      have isReady := least?_mem found
      refine ih (state.next isReady) (greedy.concat (state.mem_ready_iff.1 isReady) ?_)
      intro other available
      exact least?_smallest found other (state.mem_ready_iff.2 available)

theorem greedy_releaseAll (graph : DependencyGraph α) (rank : α → ρ) :
    graph.Greedy rank (graph.releaseAll rank).1 :=
  greedy_release (.start graph) .nil

omit [Std.TransOrd ρ] [Std.TransOrd α] [Std.LawfulEqOrd α] in
theorem not_available_releaseAll (vertex : α) :
    ¬ graph.Available (graph.releaseAll rank).1 vertex := by
  obtain ⟨state, nothing⟩ := released_releaseAll graph rank
  rw [← state.mem_ready_iff, nothing]
  exact List.not_mem_nil

omit [Std.TransOrd ρ] [Std.TransOrd α] [Std.LawfulEqOrd α] in
/-- Nothing waits in the end exactly when every vertex was released. -/
theorem releaseAll_waiting_iff :
    (graph.releaseAll rank).2 = [] ↔
      ∀ vertex ∈ graph.vertices, vertex ∈ (graph.releaseAll rank).1 := by
  rw [(released_releaseAll graph rank).1.waiting_eq, List.filter_eq_nil_iff]
  simp only [mem_rows, decide_not, Bool.not_eq_true', decide_eq_false_iff_not, not_not, and_imp]
  constructor
  · intro all vertex member
    exact all (vertex, graph.dependencies vertex) member rfl
  · intro all row member _
    exact all row.1 member

omit [Std.TransOrd ρ] [Std.TransOrd α] [Std.LawfulEqOrd α] in
theorem orderBy_of_waiting (waiting : (graph.releaseAll rank).2 ≠ []) :
    graph.orderBy rank = .error graph.circuits := by
  rw [orderBy]
  split
  · next split => simp [split] at waiting
  · rfl

/-- The order of a graph is its only ranked order. -/
theorem orderBy_eq_ok_iff {order : List α} :
    graph.orderBy rank = .ok order ↔ graph.RankedOrder rank order := by
  rw [orderBy_eq_ok, releaseAll_waiting_iff, rankedOrder_iff]
  constructor
  · rintro ⟨all, rfl⟩
    exact ⟨greedy_releaseAll graph rank, all⟩
  · rintro ⟨greedy, all⟩
    have same : (graph.releaseAll rank).1 = order :=
      (greedy_releaseAll graph rank).eq_of_exhausted greedy not_available_releaseAll
        fun vertex available => available.fresh (all vertex available.member)
    exact ⟨same ▸ all, same⟩

end Smallest

/-! ### Counting down -/

/-- The number of dependencies of a vertex that are not listed yet. -/
def missing (graph : DependencyGraph α) (listed : List α) (vertex : α) : Nat :=
  ((graph.dependencies vertex).filter fun dependency => dependency ∉ listed).length

theorem missing_eq_zero {listed : List α} {vertex : α} :
    graph.missing listed vertex = 0 ↔
      ∀ dependency, graph.Depends vertex dependency → dependency ∈ listed := by
  simp [missing, mem_dependencies]

theorem available_iff {listed : List α} {vertex : α} :
    graph.Available listed vertex ↔
      vertex ∈ graph.vertices ∧ vertex ∉ listed ∧ graph.missing listed vertex = 0 := by
  rw [missing_eq_zero]
  exact ⟨fun available => ⟨available.member, available.fresh, available.released⟩,
    fun ⟨member, fresh, released⟩ => ⟨member, fresh, released⟩⟩

theorem mem_dependents {dependent dependency : α} :
    dependent ∈ graph.dependents dependency ↔ graph.Depends dependent dependency := by
  simp only [dependents, List.mem_map, List.mem_filter, decide_eq_true_eq, Depends]
  constructor
  · rintro ⟨⟨source, target⟩, ⟨member, rfl⟩, rfl⟩
    exact member
  · intro member
    exact ⟨_, ⟨member, rfl⟩, rfl⟩

section Distinct

variable [Std.TransOrd α]

theorem nodup_dependencies (graph : DependencyGraph α) (vertex : α) :
    (graph.dependencies vertex).Nodup := by
  refine (graph.arcs.nodup.filter _).map_on ?_
  rintro ⟨dependent, dependency⟩ member ⟨other, target⟩ otherMember rfl
  simp only [List.mem_filter, decide_eq_true_eq] at member otherMember
  rw [member.2, otherMember.2]

theorem nodup_dependents (graph : DependencyGraph α) (vertex : α) :
    (graph.dependents vertex).Nodup := by
  refine (graph.arcs.nodup.filter _).map_on ?_
  rintro ⟨dependent, dependency⟩ member ⟨source, other⟩ otherMember rfl
  simp only [List.mem_filter, decide_eq_true_eq] at member otherMember
  rw [member.2, otherMember.2]

/-- Listing a vertex leaves one dependency less to each of its dependents. -/
theorem missing_concat {listed : List α} {vertex : α} (fresh : vertex ∉ listed) (other : α) :
    graph.missing (listed ++ [vertex]) other =
      if other ∈ graph.dependents vertex then graph.missing listed other - 1
      else graph.missing listed other := by
  have erased : ((graph.dependencies other).filter fun dependency => dependency ∉ listed ++ [vertex]) =
      ((graph.dependencies other).filter fun dependency => dependency ∉ listed).erase vertex := by
    rw [((nodup_dependencies graph other).filter _).erase_eq_filter, List.filter_filter]
    congr 1
    funext dependency
    by_cases same : dependency = vertex <;> simp [same]
  have isMissing : (vertex ∈ (graph.dependencies other).filter fun dependency => dependency ∉ listed) ↔
      other ∈ graph.dependents vertex := by
    simp [mem_dependencies, mem_dependents, fresh]
  simp only [missing, erased, List.length_erase, isMissing]

end Distinct

namespace Countdown

/-- The counters of a countdown, and its ready vertices in line with them. -/
structure Tallies (graph : DependencyGraph α) (rank : α → ρ) (count : α → Nat)
    (state : Countdown α ρ) : Prop where
  pending_eq : state.pending = graph.vertices.toList.map fun vertex => (vertex, count vertex)
  ready_eq : ∃ keys : List α, state.ready = (keys.map fun vertex => (rank vertex, vertex)) ∧
    keys.Nodup ∧
      ∀ vertex, vertex ∈ keys ↔ vertex ∈ graph.vertices ∧ vertex ∉ state.order ∧ count vertex = 0

variable {state : Countdown α ρ} {count : α → Nat}

omit [Ord ρ] in
/-- A counter above zero can be lowered. -/
theorem Tallies.lower (tallies : Tallies graph rank count state) {vertex : α}
    (member : vertex ∈ graph.vertices) (fresh : vertex ∉ state.order) (positive : 0 < count vertex) :
    ∃ next, state.lower rank vertex = some next ∧ next.order = state.order ∧
      Tallies graph rank (Function.update count vertex (count vertex - 1)) next := by
  obtain ⟨below, above⟩ := Nat.exists_eq_succ_of_ne_zero positive.ne'
  have found : state.pending.lookup vertex = some (below + 1) := by
    rw [tallies.pending_eq, List.lookup_graph _ (OrderedSet.mem_toList.2 member), above]
  obtain ⟨keys, readyEq, distinct, keysEq⟩ := tallies.ready_eq
  rw [Countdown.lower, found]
  refine ⟨_, rfl, rfl, ?_, ?_⟩
  · simp only [tallies.pending_eq, List.map_map]
    refine List.map_congr_left fun other _ => ?_
    by_cases same : other = vertex <;> simp [same, above]
  · have notReady : vertex ∉ keys := fun isReady => positive.ne' ((keysEq vertex).1 isReady).2.2
    refine ⟨if below = 0 then vertex :: keys else keys, ?_, ?_, ?_⟩
    · by_cases zero : below = 0 <;> simp [zero, readyEq]
    · by_cases zero : below = 0 <;> simp [zero, distinct, notReady]
    · intro other
      by_cases same : other = vertex
      · subst same
        by_cases zero : below = 0 <;> simp [zero, above, notReady, member, fresh]
      · by_cases zero : below = 0 <;> simp [zero, same, keysEq]

omit [Ord ρ] in
/-- The counters of distinct vertices can be lowered one after another. -/
theorem Tallies.lowerAll (tallies : Tallies graph rank count state) {vertices : List α}
    (distinct : vertices.Nodup)
    (inside : ∀ vertex ∈ vertices, vertex ∈ graph.vertices ∧ vertex ∉ state.order ∧ 0 < count vertex) :
    ∃ next, vertices.foldlM (Countdown.lower rank) state = some next ∧ next.order = state.order ∧
      Tallies graph rank
        (fun vertex => if vertex ∈ vertices then count vertex - 1 else count vertex) next := by
  induction vertices generalizing state count with
  | nil => exact ⟨state, rfl, rfl, by simpa using tallies⟩
  | cons head tail ih =>
    obtain ⟨headFresh, tailDistinct⟩ := List.nodup_cons.1 distinct
    obtain ⟨member, fresh, positive⟩ := inside head (by simp)
    obtain ⟨middle, lowered, sameOrder, middleTallies⟩ := tallies.lower member fresh positive
    obtain ⟨next, loweredAll, nextOrder, nextTallies⟩ := ih middleTallies tailDistinct (by
      intro vertex vertexMember
      have other : vertex ≠ head := fun same => headFresh (same ▸ vertexMember)
      rw [sameOrder, Function.update_of_ne other]
      exact inside vertex (List.mem_cons_of_mem _ vertexMember))
    refine ⟨next, ?_, nextOrder.trans sameOrder, ?_⟩
    · rw [List.foldlM_cons, lowered]
      exact loweredAll
    · convert nextTallies using 2 with vertex
      by_cases same : vertex = head
      · subst same
        simp [headFresh]
      · simp [same]

variable [Std.TransOrd α]

/-- Listing an available vertex lowers exactly the counters that have to be lowered. -/
theorem Tallies.list (wellFormed : graph.WellFormed)
    (tallies : Tallies graph rank (graph.missing state.order) state)
    (greedy : graph.Greedy rank state.order) {vertex : α}
    (available : graph.Available state.order vertex) :
    ∃ next, state.list graph rank vertex = some next ∧ next.order = state.order ++ [vertex] ∧
      Tallies graph rank (graph.missing next.order) next := by
  obtain ⟨keys, readyEq, distinct, keysEq⟩ := tallies.ready_eq
  have popped : Tallies graph rank (graph.missing state.order)
      { state with
        ready := state.ready.eraseP fun entry => entry.2 = vertex
        order := state.order ++ [vertex] } := by
    refine ⟨tallies.pending_eq, keys.erase vertex, ?_, distinct.erase vertex, ?_⟩
    · have sameTest : ((fun entry : ρ × α => decide (entry.2 = vertex)) ∘
          fun other => (rank other, other)) = fun other => vertex == other := by
        funext other
        rw [Function.comp_apply, beq_eq_decide, decide_eq_decide]
        exact eq_comm
      rw [List.erase_eq_eraseP, ← sameTest, ← List.eraseP_map, readyEq]
    · intro other
      rw [distinct.mem_erase_iff, keysEq]
      simp only [List.mem_append, List.mem_singleton, not_or]
      tauto
  obtain ⟨next, listed, order, nextTallies⟩ :=
    popped.lowerAll (nodup_dependents graph vertex) (by
      intro dependent isDependent
      have depends := mem_dependents.1 isDependent
      refine ⟨wellFormed.dependent depends, ?_, ?_⟩
      · simp only [List.mem_append, List.mem_singleton, not_or]
        refine ⟨fun listed => available.fresh (greedy.closed listed depends), ?_⟩
        rintro rfl
        exact available.fresh (available.released dependent depends)
      · refine Nat.pos_of_ne_zero fun zero => available.fresh ?_
        exact missing_eq_zero.1 zero vertex depends)
  refine ⟨next, listed, order, ?_⟩
  convert nextTallies using 2 with other
  rw [order]
  exact missing_concat available.fresh other

omit [DecidableEq α] [Std.TransOrd α] in
/-- The smallest entry belongs to the smallest vertex. -/
theorem least?_entries (rank : α → ρ) (keys : List α) :
    least? smaller (keys.map fun vertex => (rank vertex, vertex)) =
      (least? (precedes rank) keys).map fun vertex => (rank vertex, vertex) := by
  induction keys with
  | nil => rfl
  | cons head tail ih =>
    rw [List.map_cons, least?, least?, ih]
    cases least? (precedes rank) tail with
    | none => rfl
    | some best =>
      have sameTest : smaller (rank best, best) (rank head, head) = precedes rank best head := rfl
      simp only [Option.map_some, sameTest]
      cases precedes rank best head <;> rfl

omit [Ord ρ] [DecidableEq α] [Std.TransOrd α] in
theorem all_listed_of_le {order : List α} (distinct : order.Nodup)
    (inside : ∀ vertex ∈ order, vertex ∈ graph.vertices) (long : graph.vertices.size ≤ order.length) :
    ∀ vertex ∈ graph.vertices, vertex ∈ order := by
  have everything : order.Perm graph.vertices.toList :=
    (List.subperm_of_subset distinct inside).perm_of_length_le long
  exact fun vertex member => everything.mem_iff.2 member

variable [Std.TransOrd ρ] [Std.LawfulEqOrd α]

/-- Counting down never gets stuck at a counter, lists greedily and ends when nothing is ready. -/
theorem Tallies.run (wellFormed : graph.WellFormed) (rounds : Nat)
    (tallies : Tallies graph rank (graph.missing state.order) state)
    (greedy : graph.Greedy rank state.order) :
    ∃ final, run graph rank rounds state = some final ∧
      Tallies graph rank (graph.missing final.order) final ∧ graph.Greedy rank final.order ∧
        (graph.vertices.size ≤ state.order.length + rounds → final.ready = []) := by
  induction rounds generalizing state with
  | zero =>
    refine ⟨state, rfl, tallies, greedy, fun enough => ?_⟩
    obtain ⟨keys, readyEq, -, keysEq⟩ := tallies.ready_eq
    have all := all_listed_of_le greedy.nodup (fun _ => greedy.inside) enough
    rw [readyEq, List.map_eq_nil_iff, List.eq_nil_iff_forall_not_mem]
    intro vertex isReady
    obtain ⟨member, fresh, -⟩ := (keysEq vertex).1 isReady
    exact fresh (all vertex member)
  | succ rounds ih =>
    obtain ⟨keys, readyEq, -, keysEq⟩ := tallies.ready_eq
    have available_iff_mem : ∀ vertex, vertex ∈ keys ↔ graph.Available state.order vertex :=
      fun vertex => (keysEq vertex).trans available_iff.symm
    rw [Countdown.run, readyEq, least?_entries]
    cases found : least? (precedes rank) keys with
    | none =>
      refine ⟨state, rfl, tallies, greedy, fun _ => ?_⟩
      rw [readyEq, least?_eq_none.1 found, List.map_nil]
    | some vertex =>
      have available := (available_iff_mem vertex).1 (least?_mem found)
      have smallest : ∀ other, graph.Available state.order other →
          other = vertex ∨ precedes rank vertex other = true := fun other otherAvailable =>
        least?_smallest found other ((available_iff_mem other).2 otherAvailable)
      obtain ⟨next, listed, order, nextTallies⟩ := tallies.list wellFormed greedy available
      have nextGreedy : graph.Greedy rank next.order := order ▸ greedy.concat available smallest
      obtain ⟨final, ran, finalTallies, finalGreedy, finished⟩ := ih nextTallies nextGreedy
      refine ⟨final, ?_, finalTallies, finalGreedy, fun enough => finished ?_⟩
      · simp only [Option.map_some, listed]
        exact ran
      · rw [order, List.length_append, List.length_singleton]
        omega

omit [Ord ρ] [Std.TransOrd ρ] [Std.LawfulEqOrd α] in
theorem tallies_countdown (graph : DependencyGraph α) (rank : α → ρ) :
    Tallies graph rank (graph.missing (graph.countdown rank).order) (graph.countdown rank) := by
  have full : ∀ vertex, graph.missing [] vertex = (graph.dependencies vertex).length := by
    intro vertex
    simp [missing]
  refine ⟨?_, graph.vertices.toList.filter fun vertex => (graph.dependencies vertex).length = 0,
    ?_, graph.vertices.nodup.filter _, ?_⟩
  · simp [countdown, full]
  · simp [countdown, List.filter_map, Function.comp_def]
  · intro vertex
    simp [countdown, full]

theorem run_countdown (wellFormed : graph.WellFormed) (rank : α → ρ) (rounds : Nat) :
    ∃ final, run graph rank rounds (graph.countdown rank) = some final ∧
      Tallies graph rank (graph.missing final.order) final ∧ graph.Greedy rank final.order ∧
        (graph.vertices.size ≤ rounds → final.ready = []) := by
  obtain ⟨final, ran, tallies, greedy, finished⟩ :=
    (tallies_countdown graph rank).run wellFormed rounds .nil
  exact ⟨final, ran, tallies, greedy, fun enough => finished (enough.trans (Nat.le_add_left _ _))⟩

end Countdown

section Agreement

variable [Std.TransOrd ρ] [Std.TransOrd α] [Std.LawfulEqOrd α]

/-- Counting down and asking every waiting vertex give the same order. -/
theorem countedOrder_eq (wellFormed : graph.WellFormed) (rank : α → ρ) :
    graph.countedOrder rank = some (graph.orderBy rank) := by
  obtain ⟨final, ran, tallies, greedy, finished⟩ :=
    Countdown.run_countdown wellFormed rank graph.vertices.size
  obtain ⟨keys, readyEq, -, keysEq⟩ := tallies.ready_eq
  have exhausted : ∀ vertex, ¬ graph.Available final.order vertex := by
    intro vertex available
    have isReady := (keysEq vertex).2 (available_iff.1 available)
    rw [finished le_rfl, eq_comm, List.map_eq_nil_iff] at readyEq
    exact List.not_mem_nil (readyEq ▸ isReady)
  have same : final.order = (graph.releaseAll rank).1 :=
    greedy.eq_of_exhausted (greedy_releaseAll graph rank) exhausted not_available_releaseAll
  have full_iff : final.order.length = graph.vertices.size ↔ (graph.releaseAll rank).2 = [] := by
    rw [releaseAll_waiting_iff, ← same]
    constructor
    · intro full
      exact Countdown.all_listed_of_le greedy.nodup (fun _ => greedy.inside) full.ge
    · intro all
      exact ((List.perm_ext_iff_of_nodup greedy.nodup graph.vertices.nodup).2 fun vertex =>
        ⟨greedy.inside, all vertex⟩).length_eq
  by_cases all : (graph.releaseAll rank).2 = []
  · rw [orderBy_eq_ok.2 ⟨all, same.symm⟩]
    simp [countedOrder, ran, full_iff.2 all]
  · rw [orderBy_of_waiting all]
    simp [countedOrder, ran, mt full_iff.1 all]

/-- The order of a graph exists exactly when nothing depends on itself, directly or not. It is the
one list of all vertices that takes the smallest available one at every turn, and counting down
computes it: it ends with no vertex ready, and on the way every counter stands at the number of
dependencies that are not listed, so that none is lowered below zero. -/
theorem orderBy_ranked (wellFormed : graph.WellFormed) (rank : α → ρ) :
    ((∃ order, graph.orderBy rank = .ok order) ↔ Circuitless graph.Depends) ∧
      (∀ order, graph.orderBy rank = .ok order ↔ graph.RankedOrder rank order) ∧
      (∀ first second, graph.RankedOrder rank first → graph.RankedOrder rank second →
        first = second) ∧
      graph.countedOrder rank = some (graph.orderBy rank) ∧
      ∀ rounds, ∃ state, Countdown.run graph rank rounds (graph.countdown rank) = some state ∧
        (graph.vertices.size ≤ rounds → state.ready = []) ∧
        state.pending =
          graph.vertices.toList.map fun vertex => (vertex, graph.missing state.order vertex) := by
  refine ⟨orderBy_isOk_iff wellFormed, fun _ => orderBy_eq_ok_iff, ?_,
    countedOrder_eq wellFormed rank, ?_⟩
  · intro first second firstRanked secondRanked
    exact Except.ok.inj
      ((orderBy_eq_ok_iff.2 firstRanked).symm.trans (orderBy_eq_ok_iff.2 secondRanked))
  · intro rounds
    obtain ⟨state, ran, tallies, -, finished⟩ := Countdown.run_countdown wellFormed rank rounds
    exact ⟨state, ran, finished, tallies.pending_eq⟩

end Agreement

/-- Two ways from one vertex to another, and a vertex of its own. -/
def diamondSample : DependencyGraph Nat :=
  ofLists [0, 1, 2, 3, 4] [⟨3, 1⟩, ⟨3, 2⟩, ⟨1, 0⟩, ⟨2, 0⟩]

theorem orderBy_ranked_diamondSample : diamondSample.WellFormed ∧
    diamondSample.countedOrder (fun vertex => 4 - vertex) = some (.ok [4, 0, 2, 1, 3]) ∧
    diamondSample.RankedOrder (fun vertex => 4 - vertex) [4, 0, 2, 1, 3] := by
  have wellFormed : diamondSample.WellFormed := ofLists_wellFormed
  obtain ⟨-, ranked, -, counted, -⟩ := orderBy_ranked wellFormed fun vertex => 4 - vertex
  have order : diamondSample.orderBy (fun vertex => 4 - vertex) = .ok [4, 0, 2, 1, 3] := by
    decide +kernel
  exact ⟨wellFormed, counted.trans (congrArg some order), (ranked _).1 order⟩

end StagePlanner.DependencyGraph
