import StagePlanner.Proofs.Graph.Editing
import StagePlanner.Proofs.Graph.Wiring
import StagePlanner.Proofs.Reachability

/-!
# Ancestors

`Graph.ancestors` collects the operators with a way to a start on which every operator but the
start passes a test. `mem_ancestors_iff` reads it as a closure of the wires without the start, since
the search never returns to the start; `mem_ancestors` does without this exception where the start
lies on no circuit.

`AncestorSearch.run` finds the same operators with a queue and nothing that bounds it.
`AncestorSearch.Sound` is what holds before each of its rounds: what is found is an ancestor, and the
predecessors of what has left the queue are found. Every round takes one from
`AncestorSearch.remaining`, so the search ends on every graph (`Graph.searchAncestors_eq`).
-/

namespace StagePlanner

open Relation

theorem Operator.not_marker_of_core {operator : Operator} {kind : CoreKind}
    (isCore : operator.isCore kind = true) : ¬ operator.isMarker = true := by
  rw [Operator.isMarker, Operator.marker?, of_decide_eq_true isCore]
  nofun

theorem Operator.not_marker_of_isInput {operator : Operator} (isInput : operator.kind.isInput = true) :
    ¬ operator.isMarker = true := by
  rw [Operator.isMarker, Operator.marker?]
  cases kind : operator.kind <;> simp_all [OperatorKind.isInput, OperatorKind.marker?]

theorem Operator.not_marker_of_isOutput {operator : Operator}
    (isOutput : operator.kind.isOutput = true) : ¬ operator.isMarker = true := by
  rw [Operator.isMarker, Operator.marker?]
  cases kind : operator.kind <;> simp_all [OperatorKind.isOutput, OperatorKind.marker?]

theorem Operator.not_markerOf (operator : Operator) (notMarker : ¬ operator.isMarker = true)
    (marker : Marker) : operator.isMarkerOf marker = false := by
  rw [Operator.isMarker, Option.not_isSome_iff_eq_none] at notMarker
  rw [Operator.isMarkerOf, notMarker]
  rfl

theorem Operator.kind_of_isMarkerOf {operator : Operator} {marker : Marker}
    (isMarker : operator.isMarkerOf marker = true) : operator.kind = .marker marker := by
  have found : operator.kind.marker? = some marker := of_decide_eq_true isMarker
  cases kind : operator.kind <;> rw [kind] at found <;> cases found
  rfl

namespace Graph

variable {graph : Graph}

theorem holds_iff (wellFormed : graph.WellFormed) {test : Operator → Bool} {id : OperatorId} :
    graph.holds test id = true ↔
      ∃ operator ∈ graph.operators, operator.id = id ∧ test operator = true := by
  rw [holds, Option.any_eq_true]
  constructor
  · rintro ⟨operator, found, passes⟩
    obtain ⟨member, same⟩ := wellFormed.operator?_eq_some_iff.1 found
    exact ⟨operator, member, same, passes⟩
  · rintro ⟨operator, member, same, passes⟩
    exact ⟨operator, wellFormed.operator?_eq_some_iff.2 ⟨member, same⟩, passes⟩

/-- An operator of the graph passes a test exactly when the test accepts it. -/
theorem holds_id (wellFormed : graph.WellFormed) {test : Operator → Bool} {operator : Operator}
    (member : operator ∈ graph.operators) : graph.holds test operator.id = test operator := by
  rw [holds, wellFormed.operator?_eq_some_iff.2 ⟨member, rfl⟩, Option.any_some]

theorem isMarker_eq_true_or (graph : Graph) (id : OperatorId) :
    graph.isMarker id = true ∨ graph.isMarker id = false := by
  cases graph.isMarker id <;> simp

/-- The first operator passes a test and feeds the second one. -/
def FeedsBy (graph : Graph) (pass : Operator → Bool) (source target : OperatorId) : Prop :=
  graph.holds pass source = true ∧ graph.Feeds source target

/-- The ancestors of an operator are the ends of the ways back from it through operators that pass,
itself left out. -/
theorem mem_ancestors_iff (wellFormed : graph.WellFormed) {pass : Operator → Bool}
    {start id : OperatorId} :
    id ∈ graph.ancestors pass start ↔ id ≠ start ∧ TransGen (graph.FeedsBy pass) id start := by
  rw [ancestors, OrderedSet.mem_ofList, Reach.mem_reachable]
  simp only [List.mem_singleton, exists_eq_left]
  constructor
  · intro way
    refine ⟨?_, transGen_swap.1 (way.lift (·) fun source target taken => ?_)⟩
    · obtain ⟨_, -, last⟩ := TransGen.tail'_iff.1 way
      exact of_decide_eq_true (Bool.and_eq_true_iff.1 (List.mem_filter.1 last.2).2).1
    · obtain ⟨predecessor, inside⟩ := taken
      refine ⟨?_, (mem_predecessors wellFormed).1 predecessor⟩
      exact (Bool.and_eq_true_iff.1 (List.mem_filter.1 inside).2).2
  · rintro ⟨differs, way⟩
    -- A way that meets the start earlier is cut there.
    induction way using TransGen.head_induction_on with
    | single last => exact .single (stepInto last differs)
    | @head _ next first _ ih =>
      by_cases atStart : next = start
      · exact .single (stepInto (atStart ▸ first) differs)
      · exact (ih atStart).tail (stepInto first differs)
where
  /-- A wire from an operator that passes is a step of the search unless it leads to the start. -/
  stepInto {source target : OperatorId} (feeds : graph.FeedsBy pass source target)
      (different : source ≠ start) :
      Reach.StepInto (fun id => (graph.predecessors id).toList)
        (graph.operatorIds.filter fun id => id ≠ start && graph.holds pass id) target source := by
    refine ⟨(mem_predecessors wellFormed).2 feeds.2, List.mem_filter.2 ⟨?_, ?_⟩⟩
    · exact mem_operatorIds.2 feeds.2.operators.1
    · simp [different, feeds.1]

/-- An operator on no circuit is not met again on a way back from it. -/
theorem mem_ancestors (wellFormed : graph.WellFormed) {pass : Operator → Bool}
    {start id : OperatorId} (noCircuit : ¬ TransGen (graph.FeedsBy pass) start start) :
    id ∈ graph.ancestors pass start ↔ TransGen (graph.FeedsBy pass) id start := by
  rw [mem_ancestors_iff wellFormed]
  refine ⟨And.right, fun way => ⟨?_, way⟩⟩
  rintro rfl
  exact noCircuit way

/-- In a graph without circuits no way through passing operators returns. -/
theorem Acyclic.feedsBy (acyclic : graph.Acyclic) (pass : Operator → Bool) :
    Circuitless (graph.FeedsBy pass) :=
  Circuitless.mono acyclic fun _ _ feeds => feeds.2

end Graph

/-! ### The search -/

namespace Graph

theorem mem_operatorIds_of_holds {graph : Graph} {pass : Operator → Bool} {id : OperatorId}
    (passes : graph.holds pass id = true) : id ∈ graph.operatorIds := by
  rw [holds, operator?, Option.any_eq_true] at passes
  obtain ⟨operator, found, -⟩ := passes
  exact mem_operatorIds.2
    ⟨operator, List.mem_of_find?_eq_some found, by simpa using List.find?_some found⟩

/-- A wire on a way to a start; its source passes a test unless it is the start itself. -/
def FeedsPast (graph : Graph) (pass : Operator → Bool) (start source target : OperatorId) : Prop :=
  (source = start ∨ graph.holds pass source = true) ∧ graph.Feeds source target

/-- From another operator a way leads to the start on which the start may be met before exactly when one
leads there on which every operator before the end passes. -/
theorem transGen_feedsPast_iff {graph : Graph} {pass : Operator → Bool} {start id : OperatorId}
    (differs : id ≠ start) : TransGen (graph.FeedsPast pass start) id start ↔
      TransGen (graph.FeedsBy pass) id start := by
  constructor
  · intro way
    -- A way that meets the start earlier is cut there.
    induction way using TransGen.head_induction_on with
    | single last => exact .single ⟨last.1.resolve_left differs, last.2⟩
    | @head _ next first _ ih =>
      have feeds : graph.FeedsBy pass _ next := ⟨first.1.resolve_left differs, first.2⟩
      by_cases atStart : next = start
      · exact .single (atStart ▸ feeds)
      · exact .head feeds (ih atStart)
  · exact fun way => way.lift (·) fun _ _ feeds => ⟨.inr feeds.1, feeds.2⟩

end Graph

namespace AncestorSearch

variable {graph : Graph} {pass : Operator → Bool} {start : OperatorId}

/-! ### Meeting predecessors -/

/-- The number of operators that are queued or may still be found. -/
def remaining (graph : Graph) (search : AncestorSearch) : Nat :=
  search.queue.length + (graph.operatorIds.filter fun id => id ∉ search.found).length

/-- What a search finds among some predecessors, and queues in turn. -/
structure Meets (graph : Graph) (pass : Operator → Bool) (start : OperatorId)
    (ids : List OperatorId) (search result : AncestorSearch) : Prop where
  found : ∀ id, id ∈ result.found ↔
    id ∈ search.found ∨ id ∈ ids ∧ id ≠ start ∧ graph.holds pass id = true
  queue : ∀ id, id ∈ result.queue ↔ id ∈ search.queue ∨ id ∈ result.found ∧ id ∉ search.found
  remaining : result.remaining graph ≤ search.remaining graph

/-- An operator that is found for the first time moves from those not found to the queue. -/
theorem remaining_insert_le {search : AncestorSearch} {id : OperatorId}
    (member : id ∈ graph.operatorIds) (fresh : id ∉ search.found) :
    remaining graph ⟨search.queue ++ [id], search.found.insert id⟩ ≤ search.remaining graph := by
  have fewer : (graph.operatorIds.filter fun other => other ∉ search.found.insert id).length <
      (graph.operatorIds.filter fun other => other ∉ search.found).length := by
    have nested : (graph.operatorIds.filter fun other => other ∉ search.found.insert id) =
        (graph.operatorIds.filter fun other => other ∉ search.found).filter fun other =>
          other ≠ id := by
      rw [List.filter_filter]
      exact List.filter_congr fun other _ => by simp
    rw [nested]
    refine List.length_filter_lt_length_iff_exists.2 ⟨id, ?_, by simp⟩
    exact List.mem_filter.2 ⟨member, by simpa using fresh⟩
  simp only [remaining, List.length_append, List.length_singleton]
  omega

/-- Nothing changes where every predecessor is skipped or does not pass. -/
theorem Meets.unchanged {ids : List OperatorId} {search : AncestorSearch}
    (nothing : ∀ id ∈ ids, id ≠ start → graph.holds pass id = true → id ∈ search.found) :
    Meets graph pass start ids search search where
  found id := ⟨.inl, fun reached => reached.elim (·) fun new => nothing id new.1 new.2.1 new.2.2⟩
  queue := by simp
  remaining := Nat.le_refl _

/-- A predecessor that is found for the first time is queued. -/
theorem Meets.found_first {search : AncestorSearch} {id : OperatorId} (differs : id ≠ start)
    (fresh : id ∉ search.found) (passes : graph.holds pass id = true) :
    Meets graph pass start [id] search ⟨search.queue ++ [id], search.found.insert id⟩ where
  found other := by
    rw [OrderedSet.mem_insert, List.mem_singleton, or_comm]
    refine or_congr_right ⟨?_, And.left⟩
    rintro rfl
    exact ⟨rfl, differs, passes⟩
  queue other := by
    rw [OrderedSet.mem_insert, List.mem_append, List.mem_singleton]
    refine or_congr_right ⟨?_, fun new => new.1.resolve_right new.2⟩
    rintro rfl
    exact ⟨.inl rfl, fresh⟩
  remaining := remaining_insert_le (Graph.mem_operatorIds_of_holds passes) fresh

theorem meets_meet (search : AncestorSearch) (id : OperatorId) :
    Meets graph pass start [id] search (search.meet graph pass start id) := by
  rw [meet]
  split
  · next skipped =>
    refine .unchanged fun other isIt differs _ => ?_
    obtain rfl := List.mem_singleton.1 isIt
    simpa [differs] using skipped
  · next notSkipped =>
    obtain ⟨differs, fresh⟩ : id ≠ start ∧ id ∉ search.found := by simpa using notSkipped
    split
    · next passes => exact .found_first differs fresh passes
    · next blocked =>
      refine .unchanged fun other isIt _ passes => ?_
      exact absurd (List.mem_singleton.1 isIt ▸ passes) blocked

theorem Meets.cons {id : OperatorId} {ids : List OperatorId} {search next result : AncestorSearch}
    (first : Meets graph pass start [id] search next) (rest : Meets graph pass start ids next result) :
    Meets graph pass start (id :: ids) search result where
  found other := by
    rw [rest.found, first.found, List.mem_singleton, List.mem_cons, or_and_right, or_assoc]
  queue other := by
    rw [rest.queue, first.queue, or_assoc]
    have grows := rest.found other
    have grew := first.found other
    tauto
  remaining := rest.remaining.trans first.remaining

theorem meets_foldl (ids : List OperatorId) (search : AncestorSearch) :
    Meets graph pass start ids search (ids.foldl (meet graph pass start) search) := by
  induction ids generalizing search with
  | nil => exact .unchanged fun _ isThere => absurd isThere List.not_mem_nil
  | cons id ids ih => exact (meets_meet search id).cons (ih _)

/-! ### Rounds -/

/-- What holds of a search before each of its rounds. -/
structure Sound (graph : Graph) (pass : Operator → Bool) (start : OperatorId)
    (search : AncestorSearch) : Prop where
  /-- Everything found is an ancestor. -/
  found : ∀ id ∈ search.found, id ≠ start ∧ TransGen (graph.FeedsPast pass start) id start
  /-- Only the start and what is found is queued. -/
  queued : ∀ id ∈ search.queue, id = start ∨ id ∈ search.found
  /-- The predecessors of what is no longer queued are found if they pass. -/
  closed : ∀ id, id = start ∨ id ∈ search.found → id ∉ search.queue →
    ∀ predecessor ∈ graph.predecessors id, predecessor ≠ start →
      graph.holds pass predecessor = true → predecessor ∈ search.found

theorem Sound.initial : Sound graph pass start { queue := [start], found := ∅ } where
  found id isFound := absurd isFound OrderedSet.not_mem_empty
  queued id isQueued := .inl (List.mem_singleton.1 isQueued)
  closed := by
    rintro id (rfl | isFound) left
    · exact absurd (List.mem_singleton_self _) left
    · exact absurd isFound OrderedSet.not_mem_empty

section Round

variable {id : OperatorId} {rest : List OperatorId} {found : OrderedSet OperatorId}
  {result : AncestorSearch}

/-- A round keeps the invariant. -/
theorem Sound.round (wellFormed : graph.WellFormed)
    (sound : Sound graph pass start ⟨id :: rest, found⟩)
    (meets : Meets graph pass start (graph.predecessors id).toList ⟨rest, found⟩ result) :
    Sound graph pass start result where
  found other isFound := by
    rcases (meets.found other).1 isFound with old | ⟨isPredecessor, differs, passes⟩
    · exact sound.found other old
    · have feeds : graph.FeedsPast pass start other id :=
        ⟨.inr passes, (Graph.mem_predecessors wellFormed).1 isPredecessor⟩
      refine ⟨differs, ?_⟩
      rcases sound.queued id List.mem_cons_self with rfl | isFound
      · exact .single feeds
      · exact .head feeds (sound.found id isFound).2
  queued other isQueued := by
    rcases (meets.queue other).1 isQueued with old | new
    · exact (sound.queued other (List.mem_cons_of_mem _ old)).imp_right
        fun isFound => (meets.found other).2 (.inl isFound)
    · exact .inr new.1
  closed other reached left predecessor isPredecessor differs passes := by
    by_cases visited : other = id
    · subst visited
      exact (meets.found predecessor).2 (.inr ⟨isPredecessor, differs, passes⟩)
    · -- What this round found is queued, so the operator was reached and visited before.
      have before : other = start ∨ other ∈ found := by
        refine reached.imp_right fun isFound => ?_
        by_contra new
        exact left ((meets.queue other).2 (.inr ⟨isFound, new⟩))
      have leftBefore : other ∉ id :: rest := by
        rw [List.mem_cons, not_or]
        exact ⟨visited, fun isQueued => left ((meets.queue other).2 (.inl isQueued))⟩
      exact (meets.found predecessor).2
        (.inl (sound.closed other before leftBefore predecessor isPredecessor differs passes))

/-- Every round takes an operator away that is queued or may still be found. -/
theorem Meets.remaining_lt
    (meets : Meets graph pass start (graph.predecessors id).toList ⟨rest, found⟩ result) :
    result.remaining graph < AncestorSearch.remaining graph ⟨id :: rest, found⟩ := by
  have fewer := meets.remaining
  simp only [AncestorSearch.remaining, List.length_cons] at fewer ⊢
  omega

end Round

/-- When the queue is empty, everything with a way to the start is found. -/
theorem Sound.complete (wellFormed : graph.WellFormed) {found : OrderedSet OperatorId}
    (sound : Sound graph pass start ⟨[], found⟩) {id : OperatorId} (differs : id ≠ start)
    (way : TransGen (graph.FeedsPast pass start) id start) : id ∈ found := by
  have step : ∀ {source target}, graph.FeedsPast pass start source target → source ≠ start →
      target = start ∨ target ∈ found → source ∈ found := by
    intro source target feeds different reached
    exact sound.closed target reached List.not_mem_nil source
      ((Graph.mem_predecessors wellFormed).2 feeds.2) different (feeds.1.resolve_left different)
  induction way using TransGen.head_induction_on with
  | single last => exact step last differs (.inl rfl)
  | @head _ next first _ ih =>
    by_cases atStart : next = start
    · exact step first differs (.inl atStart)
    · exact step first differs (.inr (ih atStart))

/-- A search ends and finds the operators other than the start that have a way to it. -/
theorem Sound.run (wellFormed : graph.WellFormed) {search : AncestorSearch}
    (sound : Sound graph pass start search) :
    ∃ found, search.run graph pass start = some found ∧
      ∀ id, id ∈ found ↔ id ≠ start ∧ TransGen (graph.FeedsPast pass start) id start := by
  induction bound : search.remaining graph using Nat.strongRecOn generalizing search with
  | ind count ih =>
    obtain ⟨queue, found⟩ := search
    cases queue with
    | nil =>
      refine ⟨found, by rw [AncestorSearch.run], fun id => ⟨sound.found id, ?_⟩⟩
      exact fun ancestor => sound.complete wellFormed ancestor.1 ancestor.2
    | cons id rest =>
      have meets : Meets graph pass start (graph.predecessors id).toList ⟨rest, found⟩ _ :=
        meets_foldl _ _
      rw [AncestorSearch.run]
      exact ih _ (bound ▸ meets.remaining_lt) (sound.round wellFormed meets) rfl

end AncestorSearch

/-- The search for ancestors ends on every graph, with circuits or without. It gives exactly the
operators other than the start that have a way of at least one wire to it, on which every operator
but the start passes. -/
theorem Graph.searchAncestors_eq {graph : Graph} (wellFormed : graph.WellFormed)
    (pass : Operator → Bool) (start : OperatorId) :
    graph.searchAncestors pass start = some (graph.ancestors pass start) ∧
      ∀ id, id ∈ graph.ancestors pass start ↔
        id ≠ start ∧ TransGen (graph.FeedsPast pass start) id start := by
  have isAncestor : ∀ id, id ∈ graph.ancestors pass start ↔
      id ≠ start ∧ TransGen (graph.FeedsPast pass start) id start := by
    intro id
    rw [mem_ancestors_iff wellFormed]
    exact and_congr_right fun differs => (transGen_feedsPast_iff differs).symm
  refine ⟨?_, isAncestor⟩
  obtain ⟨found, ends, isFound⟩ := AncestorSearch.Sound.initial.run wellFormed
  rw [searchAncestors, ends]
  exact congrArg some (OrderedSet.ext fun id => (isFound id).trans (isAncestor id).symm)

/-- Two projections that feed each other, and a marker before the second one that a third projection
feeds. -/
def Graph.blockedSample : Graph :=
  let projection := Blueprint.core .project (.named "t")
  let graph := ((Graph.empty.add projection).2.add projection).2
  let graph := ((graph.add (.marker .checkpoint (.named "t"))).2.add projection).2
  (((graph.link ⟨1⟩ ⟨2⟩).link ⟨3⟩ ⟨0⟩).link ⟨5⟩ ⟨2⟩).link ⟨7⟩ ⟨4⟩

theorem Graph.wellFormed_blockedSample : Graph.blockedSample.WellFormed := by
  have empty : Graph.empty.WellFormed := Graph.wellFormed_of_no_operators rfl rfl
  refine .link (.link (.link (.link ((((empty.add _).add _).add _).add _) ?_ ?_) ?_ ?_) ?_ ?_) ?_ ?_
  all_goals decide

/-- The circuit through the start is no obstacle; nothing before the marker is found. -/
theorem Graph.searchAncestors_eq_blockedSample :
    blockedSample.searchAncestors (fun operator => !operator.isMarker) ⟨1⟩ = some (.ofList [⟨0⟩]) ∧
      TransGen (blockedSample.FeedsPast (fun operator => !operator.isMarker) ⟨1⟩) ⟨0⟩ ⟨1⟩ := by
  obtain ⟨ends, isAncestor⟩ :=
    searchAncestors_eq wellFormed_blockedSample (fun operator => !operator.isMarker) ⟨1⟩
  have found : blockedSample.ancestors (fun operator => !operator.isMarker) ⟨1⟩ = .ofList [⟨0⟩] := by
    decide +kernel
  rw [found] at ends isAncestor
  exact ⟨ends, ((isAncestor ⟨0⟩).1 (by decide)).2⟩

end StagePlanner
