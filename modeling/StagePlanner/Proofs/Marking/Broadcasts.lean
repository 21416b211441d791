import StagePlanner.Proofs.Preparation.Totality

/-!
# Breaking cyclic broadcasts

A round of `Edit.removeCyclicBroadcasts` treats one cyclic broadcast: it puts checkpoints before all
inputs of the broadcast's consumers that no marker feeds. From then on a marker feeds every one of
these inputs (`Graph.Guarded`). No later round undoes this, since checkpoints are put only before
inputs that no marker feeds, so neither a guarded input nor an edge of a broadcast is touched. A
broadcast that is met again has therefore no input left to checkpoint, and the loop treats every
broadcast at most once.
-/

namespace StagePlanner

open Relation

namespace Graph

variable {graph result : Graph}

/-- The broadcast markers of a graph. -/
def broadcasts (graph : Graph) : List Operator :=
  graph.operators.filter fun operator => operator.isMarkerOf .broadcast

/-- A marker feeds every input of an operator's consumers that is not listed. -/
def GuardedBut (graph : Graph) (unguarded : List PortId) (id : OperatorId) : Prop :=
  ∀ consumer ∈ graph.operators, graph.Feeds id consumer.id →
    ∀ input ∈ consumer.inputs.map Port.id, input ∉ unguarded → graph.FedByMarker input

/-- A marker feeds every input of an operator's consumers. -/
def Guarded (graph : Graph) (id : OperatorId) : Prop :=
  ∀ consumer ∈ graph.operators, graph.Feeds id consumer.id →
    ∀ input ∈ consumer.inputs.map Port.id, graph.FedByMarker input

theorem guardedBut_nil {id : OperatorId} : graph.GuardedBut [] id ↔ graph.Guarded id := by
  simp only [GuardedBut, Guarded, List.not_mem_nil, not_false_eq_true, true_imp_iff]

namespace WellFormed

variable (wellFormed : graph.WellFormed)

include wellFormed

theorem guarded_iff {id : OperatorId} :
    graph.Guarded id ↔ ∀ input, input ∉ graph.unboundedInputs id := by
  simp only [wellFormed.mem_unboundedInputs, not_exists, not_and, not_not]
  exact ⟨fun guarded input consumer member feeds owned => guarded consumer member feeds input owned,
    fun none consumer member feeds input owned => none input consumer member feeds owned⟩

end WellFormed

/-! ### A checkpoint before one input -/

namespace Interposed

variable {operator : Operator} {entry exit input : PortId}
  (interposed : graph.Interposed result operator entry exit
    (fun source => ⟨source, input⟩ ∈ graph.edges) fun target => target = input)
  (wellFormed : graph.WellFormed) (resultWellFormed : result.WellFormed)

include interposed

/-- A marker before an input feeds it. -/
theorem fedByMarker_target (isMarker : operator.isMarker = true) : result.FedByMarker input := by
  refine ⟨exit, (interposed.edges exit input).2 (.inr (.inr ⟨rfl, rfl⟩)), operator,
    interposed.isMember, ?_, isMarker⟩
  rw [interposed.outputs]
  exact List.mem_cons_self

include wellFormed resultWellFormed

/-- The producers of other inputs stay. -/
theorem fedByMarker_iff {consumer : Operator} (member : consumer ∈ graph.operators) {other : PortId}
    (owned : other ∈ consumer.inputs.map Port.id) (differs : other ≠ input) :
    result.FedByMarker other ↔ graph.FedByMarker other := by
  have notPort := interposed.ne_ports resultWellFormed member
    (Operator.mem_ports_of_mem_portsOn .input owned)
  have sameEdge : ∀ source, ⟨source, other⟩ ∈ result.edges ↔ ⟨source, other⟩ ∈ graph.edges := by
    intro source
    rw [interposed.edges]
    constructor
    · rintro (⟨old, -⟩ | ⟨-, isEntry⟩ | ⟨-, isInput⟩)
      · exact old
      · exact absurd isEntry notPort.1
      · exact absurd isInput differs
    · exact fun old => .inl ⟨old, fun both => differs both.2⟩
  simp only [FedByMarker, sameEdge]
  refine exists_congr fun source => and_congr_right fun isEdge => exists_congr fun producer => ?_
  rw [interposed.operators]
  refine ⟨fun ⟨isProducer, gives, isMarker⟩ => ⟨isProducer.resolve_right ?_, gives, isMarker⟩,
    fun ⟨isProducer, gives⟩ => ⟨.inl isProducer, gives⟩⟩
  rintro rfl
  rw [interposed.outputs, List.mem_singleton] at gives
  exact (interposed.ne_of_edge wellFormed resultWellFormed isEdge).1.2 gives

/-- A marker before an input that no marker feeds has nothing to do with the outputs of markers, and
it guards the input. -/
theorem guardedBut (isMarker : operator.isMarker = true) (free : ¬ graph.FedByMarker input)
    {rest : List PortId} {broadcast : Operator} (member : broadcast ∈ graph.operators)
    (alsoMarker : broadcast.isMarker = true) (guarded : graph.GuardedBut (input :: rest) broadcast.id) :
    result.GuardedBut rest broadcast.id := by
  intro consumer isConsumer feeds other owned unlisted
  have notNew : broadcast.id ≠ operator.id := fun same =>
    interposed.fresh (mem_operatorIds.2 ⟨broadcast, member, same⟩)
  rcases (interposed.operators consumer).1 isConsumer with isOld | rfl
  · by_cases same : other = input
    · exact same ▸ interposed.fedByMarker_target isMarker
    · have oldFeeds := interposed.feeds_direct resultWellFormed notNew
        (fun same => interposed.fresh (mem_operatorIds.2 ⟨consumer, isOld, same⟩)) feeds
      exact (interposed.fedByMarker_iff wellFormed resultWellFormed isOld owned same).2
        (guarded consumer isOld oldFeeds other owned (by simp [same, unlisted]))
  · obtain ⟨output, isSource, producer, isProducer, same, gives⟩ :=
      interposed.feeds_into wellFormed resultWellFormed feeds
    obtain rfl := wellFormed.operator_unique isProducer member same
    exact absurd ⟨output, isSource, producer, isProducer, gives, alsoMarker⟩ free

end Interposed

/-! ### One round -/

/-- A round put checkpoints into the graph that guard a broadcast, and what was guarded stays so. -/
structure Guards (graph : Graph) (broadcast : Operator) (result : Graph) : Prop where
  wellFormed : result.WellFormed
  kept : ∀ operator ∈ graph.operators, operator ∈ result.operators
  new : ∀ operator ∈ result.operators,
    operator ∈ graph.operators ∨ operator.isMarkerOf .checkpoint = true
  guarded : result.Guarded broadcast.id
  stays : ∀ operator ∈ graph.operators, operator.isMarker = true → graph.Guarded operator.id →
    result.Guarded operator.id

/-- In the middle of a round some inputs are left, none of which a marker feeds. -/
structure Guarding (start : Graph) (broadcast : Operator) (rest : List PortId) (graph : Graph) :
    Prop where
  wellFormed : graph.WellFormed
  distinct : rest.Nodup
  areInputs : ∀ input ∈ rest, ∃ owner ∈ graph.operators, input ∈ owner.inputs.map Port.id
  free : ∀ input ∈ rest, ¬ graph.FedByMarker input
  kept : ∀ operator ∈ start.operators, operator ∈ graph.operators
  new : ∀ operator ∈ graph.operators,
    operator ∈ start.operators ∨ operator.isMarkerOf .checkpoint = true
  guarded : ∀ operator ∈ start.operators, operator.isMarker = true →
    operator = broadcast ∨ start.Guarded operator.id → graph.GuardedBut rest operator.id

end Graph

namespace Edit

variable {graph result start : Graph} {because : Fault → Graph → Prop}

/-- One of the inputs is checkpointed. -/
theorem guarding_checkpointInput {broadcast : Operator} {input : PortId} {rest : List PortId}
    (guarding : start.Guarding broadcast (input :: rest) graph) :
    (checkpointInput input).Ends graph (fun _ => start.Guarding broadcast rest) because := by
  have wellFormed := guarding.wellFormed
  obtain ⟨⟨owner, member, owned⟩, areInputs⟩ := List.forall_mem_cons.1 guarding.areInputs
  obtain ⟨free, stillFree⟩ := List.forall_mem_cons.1 guarding.free
  obtain ⟨unlisted, distinct⟩ := List.nodup_cons.1 guarding.distinct
  refine (ends_checkpointInput wellFormed member owned).mono fun _ result _ ⟨dataType, id, inserted⟩ => ?_
  have resultWellFormed := (keeps_insertBefore _ _).wellFormed wellFormed inserted
  obtain ⟨-, -, -, interposed⟩ := yields_insertBefore wellFormed inserted
  have isMarker : (graph.added (.marker .checkpoint dataType)).isMarker = true := isMarker_added rfl
  exact {
    wellFormed := resultWellFormed
    distinct
    areInputs := fun other listed => by
      obtain ⟨consumer, isConsumer, takes⟩ := areInputs other listed
      exact ⟨consumer, (interposed.operators consumer).2 (.inl isConsumer), takes⟩
    free := fun other listed => by
      obtain ⟨consumer, isConsumer, takes⟩ := areInputs other listed
      exact mt (interposed.fedByMarker_iff wellFormed resultWellFormed isConsumer takes
        fun same => unlisted (same ▸ listed)).1 (stillFree other listed)
    kept := fun operator isOld => (interposed.operators operator).2 (.inl (guarding.kept operator isOld))
    new := fun operator isThere => by
      rcases (interposed.operators operator).1 isThere with before | rfl
      · exact guarding.new operator before
      · exact .inr (by rw [isMarkerOf_added rfl]; rfl)
    guarded := fun operator isOld alsoMarker treated =>
      interposed.guardedBut wellFormed resultWellFormed isMarker free (guarding.kept operator isOld)
        alsoMarker (guarding.guarded operator isOld alsoMarker treated) }

/-- A round guards its broadcast, or the broadcast is guarded already and the graph stays as it is. -/
theorem ends_breakBroadcast_guards (wellFormed : graph.WellFormed) {broadcast : Operator}
    (member : broadcast ∈ graph.operators) (isMarker : broadcast.isMarker = true) :
    (breakBroadcast broadcast).Ends graph
      (fun _ result => ¬ graph.Guarded broadcast.id ∧ graph.Guards broadcast result)
      fun fault result => result = graph ∧ graph.Guarded broadcast.id ∧
        fault = .invariant (.nothingToCheckpoint broadcast.label) := by
  refine Ends.get_bind ?_
  dsimp only
  split
  · next none =>
    have fails : (throw (.invariant (.nothingToCheckpoint broadcast.label)) : Edit Unit).Ends graph
        (fun _ _ => False) fun fault result => result = graph ∧ graph.Guarded broadcast.id ∧
          fault = .invariant (.nothingToCheckpoint broadcast.label) :=
      Ends.fail ⟨rfl, wellFormed.guarded_iff.2 (OrderedSet.isEmpty_iff.1 none), rfl⟩
    exact fails.bind fun _ _ => False.elim
  · next some =>
    have unguarded : ¬ graph.Guarded broadcast.id := fun guarded =>
      some (OrderedSet.isEmpty_iff.2 (wellFormed.guarded_iff.1 guarded))
    -- What is still to be treated are the inputs that may lack a guard.
    refine (Ends.forM (fun rest => graph.Guarding broadcast rest) ?_ fun input rest changed guarding =>
      guarding_checkpointInput guarding).mono fun _ result _ guarding => ?_
    · exact {
        wellFormed
        distinct := OrderedSet.nodup _
        areInputs := fun input listed => by
          obtain ⟨consumer, isConsumer, -, owned, -⟩ :=
            wellFormed.mem_unboundedInputs.1 (OrderedSet.mem_toList.1 listed)
          exact ⟨consumer, isConsumer, owned⟩
        free := fun input listed => by
          obtain ⟨_, -, -, -, free⟩ :=
            wellFormed.mem_unboundedInputs.1 (OrderedSet.mem_toList.1 listed)
          exact free
        kept := fun _ => id
        new := fun _ => .inl
        guarded := fun operator _ _ treated consumer isConsumer feeds input owned unlisted => by
          rcases treated with rfl | guarded
          · by_contra free
            exact unlisted (OrderedSet.mem_toList.2
              (wellFormed.mem_unboundedInputs.2 ⟨consumer, isConsumer, feeds, owned, free⟩))
          · exact guarded consumer isConsumer feeds input owned }
    · exact ⟨unguarded, guarding.wellFormed, guarding.kept, guarding.new,
        Graph.guardedBut_nil.1 (guarding.guarded broadcast member isMarker (.inl rfl)),
        fun operator isOld alsoMarker guarded =>
          Graph.guardedBut_nil.1 (guarding.guarded operator isOld alsoMarker (.inr guarded))⟩

end Edit

/-! ### All rounds -/

namespace Graph

variable {graph result : Graph}

/-- One cyclic broadcast after the other is treated, always the first one that there is. -/
inductive Breaks : Graph → List Operator → Graph → Prop where
  | done {graph : Graph} : Breaks graph [] graph
  | round {graph middle result : Graph} {broadcast : Operator} {treated : List Operator}
      (picked : graph.cyclicBroadcast? = some broadcast)
      (breaks : (Edit.breakBroadcast broadcast).Yields graph () middle)
      (later : Breaks middle treated result) : Breaks graph (broadcast :: treated) result

/-- After some rounds the next one meets a cyclic broadcast that is guarded already. -/
def Jams (graph : Graph) (fault : Fault) (result : Graph) : Prop :=
  ∃ treated broadcast, graph.Breaks treated result ∧ result.cyclicBroadcast? = some broadcast ∧
    result.Guarded broadcast.id ∧ fault = .invariant (.nothingToCheckpoint broadcast.label)

theorem mem_broadcasts_of_cyclic {broadcast : Operator}
    (picked : graph.cyclicBroadcast? = some broadcast) :
    broadcast ∈ graph.broadcasts ∧ broadcast.isMarker = true := by
  have member := List.mem_of_find?_eq_some picked
  rw [cyclicBroadcast?, List.find?_eq_some_iff_append, Bool.and_eq_true] at picked
  obtain ⟨⟨isBroadcast, -⟩, -⟩ := picked
  refine ⟨List.mem_filter.2 ⟨member, isBroadcast⟩, ?_⟩
  rw [Operator.isMarker, of_decide_eq_true isBroadcast]
  rfl

theorem guards_of_picked (wellFormed : graph.WellFormed) {broadcast : Operator}
    (picked : graph.cyclicBroadcast? = some broadcast)
    (breaks : (Edit.breakBroadcast broadcast).Yields graph () result) :
    ¬ graph.Guarded broadcast.id ∧ graph.Guards broadcast result := by
  obtain ⟨isBroadcast, isMarker⟩ := mem_broadcasts_of_cyclic picked
  have ends := Edit.ends_breakBroadcast_guards wellFormed (List.mem_filter.1 isBroadcast).1 isMarker
  rwa [Edit.Ends, breaks] at ends

/-- No round adds a broadcast. -/
theorem Guards.broadcasts {broadcast : Operator} (guards : graph.Guards broadcast result)
    {operator : Operator} (isBroadcast : operator ∈ result.broadcasts) :
    operator ∈ graph.broadcasts := by
  obtain ⟨member, isMarker⟩ := List.mem_filter.1 isBroadcast
  refine List.mem_filter.2 ⟨(guards.new operator member).resolve_right fun isCheckpoint => ?_, isMarker⟩
  have same := (of_decide_eq_true isCheckpoint).symm.trans (of_decide_eq_true isMarker)
  cases same

/-- A broadcast is treated at most once, and not at all when it is guarded. -/
theorem Breaks.treated_once {treated : List Operator} (breaks : graph.Breaks treated result)
    (wellFormed : graph.WellFormed) :
    result.WellFormed ∧ treated.Nodup ∧ (∀ broadcast ∈ treated, broadcast ∈ graph.broadcasts) ∧
      ∀ operator ∈ graph.operators, operator.isMarker = true → graph.Guarded operator.id →
        operator ∉ treated := by
  induction breaks with
  | done => exact ⟨wellFormed, .nil, by simp, by simp⟩
  | @round graph middle result broadcast treated picked breaks later ih =>
    obtain ⟨isBroadcast, isMarker⟩ := mem_broadcasts_of_cyclic picked
    have member := (List.mem_filter.1 isBroadcast).1
    obtain ⟨unguarded, guards⟩ := guards_of_picked wellFormed picked breaks
    obtain ⟨resultWellFormed, distinct, areBroadcasts, untreated⟩ := ih guards.wellFormed
    refine ⟨resultWellFormed, List.nodup_cons.2 ⟨?_, distinct⟩, ?_, ?_⟩
    · exact untreated broadcast (guards.kept broadcast member) isMarker guards.guarded
    · exact List.forall_mem_cons.2
        ⟨isBroadcast, fun other listed => guards.broadcasts (areBroadcasts other listed)⟩
    · intro operator isThere alsoMarker guarded listed
      rcases List.mem_cons.1 listed with rfl | later
      · exact unguarded guarded
      · exact untreated operator (guards.kept operator isThere) alsoMarker
          (guards.stays operator isThere alsoMarker guarded) later

/-- There are no more rounds than broadcasts. -/
theorem Breaks.length_le {treated : List Operator} (breaks : graph.Breaks treated result)
    (wellFormed : graph.WellFormed) : treated.length ≤ graph.broadcasts.length := by
  obtain ⟨-, distinct, areBroadcasts, -⟩ := breaks.treated_once wellFormed
  exact distinct.length_le_of_subset areBroadcasts

/-- No consumer of a broadcast has a producer of it before it without a marker in between. -/
theorem unbroken_of_none (wellFormed : graph.WellFormed) (none : graph.cyclicBroadcast? = none)
    {broadcast producer consumer : Operator} (isBroadcast : broadcast ∈ graph.broadcasts)
    (isConsumer : consumer ∈ graph.operators) (reads : graph.Feeds broadcast.id consumer.id)
    (consumerUnmarked : consumer.isMarker = false) (isProducer : producer ∈ graph.operators)
    (gives : graph.Feeds producer.id broadcast.id) (producerUnmarked : producer.isMarker = false)
    (differ : producer.id ≠ consumer.id) :
    ¬ TransGen (graph.FeedsBy fun operator => !operator.isMarker) producer.id consumer.id := by
  intro way
  have isAncestor := (mem_ancestors_iff wellFormed).2 ⟨differ, way⟩
  obtain ⟨member, isMarker⟩ := List.mem_filter.1 isBroadcast
  refine List.find?_eq_none.1 none broadcast member (Bool.and_eq_true_iff.2 ⟨isMarker, ?_⟩)
  have unmarked : ∀ operator ∈ graph.operators, operator.isMarker = false →
      graph.holds (fun operator => !operator.isMarker) operator.id = true := by
    intro operator isThere unmarked
    rw [holds_id wellFormed isThere, unmarked, Bool.not_false]
  exact List.any_eq_true.2 ⟨consumer.id, OrderedSet.mem_toList.2 (OrderedSet.mem_filter.2
      ⟨(mem_successors wellFormed).2 reads, unmarked consumer isConsumer consumerUnmarked⟩),
    (OrderedSet.meets_iff).2 ⟨producer.id, isAncestor, OrderedSet.mem_filter.2
      ⟨(mem_predecessors wellFormed).2 gives, unmarked producer isProducer producerUnmarked⟩⟩⟩

end Graph

namespace Edit

variable {graph : Graph}

/-- The loop runs rounds until its limit, until no broadcast is cyclic, or until it meets a cyclic
broadcast that is guarded. -/
theorem ends_breakBroadcasts_rounds (done remaining : Nat) (wellFormed : graph.WellFormed) :
    (breakBroadcasts done remaining).Ends graph
      (fun outcome result => ∃ treated, graph.Breaks treated result ∧
        outcome.steps = done + treated.length ∧
        (outcome.converged = false → treated.length = remaining) ∧
        (outcome.converged = true → result.cyclicBroadcast? = none))
      fun fault result => graph.Jams fault result := by
  induction remaining generalizing graph done with
  | zero =>
    exact Ends.get_bind (Ends.pure ⟨[], .done, rfl, fun _ => rfl, Option.isNone_iff_eq_none.1⟩)
  | succ remaining ih =>
    refine Ends.get_bind ?_
    split
    · next none => exact Ends.pure ⟨[], .done, rfl, nofun, fun _ => none⟩
    · next broadcast picked =>
      obtain ⟨isBroadcast, isMarker⟩ := Graph.mem_broadcasts_of_cyclic picked
      have first : (breakBroadcast broadcast).Ends graph
          (fun _ middle => graph.Guards broadcast middle ∧
            (breakBroadcast broadcast).Yields graph () middle)
          fun fault result => graph.Jams fault result :=
        ((ends_breakBroadcast_guards wellFormed (List.mem_filter.1 isBroadcast).1 isMarker).mono
          fun _ _ breaks guards => ⟨guards.2, breaks⟩).weaken fun fault result jams => by
            obtain ⟨rfl, guarded, is⟩ := jams
            exact ⟨[], broadcast, .done, picked, guarded, is⟩
      refine first.bind fun _ middle ⟨guards, breaks⟩ => ?_
      refine ((ih (done + 1) guards.wellFormed).mono ?_).weaken ?_
      · rintro outcome result - ⟨treated, later, steps, limited, converged⟩
        refine ⟨broadcast :: treated, .round picked breaks later, ?_, fun short => ?_, converged⟩
        · rw [steps, List.length_cons]
          omega
        · rw [List.length_cons, limited short]
      · rintro fault result ⟨treated, met, later, jams⟩
        exact ⟨broadcast :: treated, met, .round picked breaks later, jams⟩

/-- Removal of cyclic broadcasts treats every broadcast at most once. It needs no more rounds than
there are broadcasts, so a higher limit is never reached; when it converges no broadcast is cyclic;
and it fails only at a cyclic broadcast of which every consumer has a marker before each of its
inputs. -/
theorem removeCyclicBroadcasts_once (wellFormed : graph.WellFormed) (limit : Nat) :
    (removeCyclicBroadcasts limit).Ends graph
      (fun outcome result =>
        (∃ treated : List Operator, treated.Nodup ∧ treated ⊆ graph.broadcasts ∧
          graph.Breaks treated result ∧ treated.length = outcome.steps) ∧
        outcome.steps ≤ graph.broadcasts.length ∧
        (graph.broadcasts.length < limit → outcome.converged = true) ∧
        (outcome.converged = true → ∀ broadcast ∈ result.broadcasts,
          ∀ consumer ∈ result.operators, result.Feeds broadcast.id consumer.id →
          consumer.isMarker = false → ∀ producer ∈ result.operators,
          result.Feeds producer.id broadcast.id → producer.isMarker = false →
          producer.id ≠ consumer.id →
            ¬ TransGen (result.FeedsBy fun operator => !operator.isMarker) producer.id consumer.id))
      fun fault result => ∃ (treated : List Operator) (broadcast : Operator),
        graph.Breaks treated result ∧ treated.length ≤ graph.broadcasts.length ∧
        result.cyclicBroadcast? = some broadcast ∧
        (∀ consumer ∈ result.operators, result.Feeds broadcast.id consumer.id →
          ∀ input ∈ consumer.inputs.map Port.id, result.FedByMarker input) ∧
        fault = .invariant (.nothingToCheckpoint broadcast.label) := by
  refine ((ends_breakBroadcasts_rounds 0 limit wellFormed).mono ?_).weaken ?_
  · rintro outcome result - ⟨treated, breaks, steps, limited, converged⟩
    obtain ⟨resultWellFormed, distinct, areBroadcasts, -⟩ := breaks.treated_once wellFormed
    have few := breaks.length_le wellFormed
    rw [Nat.zero_add] at steps
    refine ⟨⟨treated, distinct, areBroadcasts, breaks, steps.symm⟩, steps ▸ few, fun above => ?_,
      fun isConverged broadcast isBroadcast consumer isConsumer reads consumerUnmarked producer
        isProducer gives producerUnmarked differ => ?_⟩
    · by_contra short
      have reached := limited (Bool.eq_false_iff.2 short)
      omega
    · exact Graph.unbroken_of_none resultWellFormed (converged isConverged) isBroadcast isConsumer reads
        consumerUnmarked isProducer gives producerUnmarked differ
  · rintro fault result ⟨treated, broadcast, breaks, picked, guarded, is⟩
    exact ⟨treated, broadcast, breaks, breaks.length_le wellFormed, picked, guarded, is⟩

/-- A producer feeds a consumer directly and by a broadcast. -/
def broadcastSample : Graph :=
  let row (name : String) : PortShape := { name, dataType := .named "row" }
  let producer := (Blueprint.user "produce" .extract).withOutput (row "rows")
  let consumer := ((Blueprint.user "consume" .extract).withInput (row "each")).withInput (row "all")
  let operators := [producer, .marker .broadcast (.named "row"), consumer].foldl
    (fun graph blueprint => (graph.add blueprint).2) Graph.empty
  [(0, 1), (0, 3), (2, 4)].foldl (fun graph (source, target) => graph.link ⟨source⟩ ⟨target⟩) operators

theorem wellFormed_broadcastSample : broadcastSample.WellFormed where
  ascending := by decide +kernel
  operatorsBelow := by decide +kernel
  ports := by decide +kernel
  portsBelow := by decide +kernel
  sources := by
    change ∀ edge ∈ broadcastSample.edges.toList, _
    decide +kernel
  targets := by
    change ∀ edge ∈ broadcastSample.edges.toList, _
    decide +kernel

/-- One round is enough for the only broadcast. -/
theorem removeCyclicBroadcasts_once_sample : broadcastSample.WellFormed ∧
    ∃ outcome result, (removeCyclicBroadcasts 2).Yields broadcastSample outcome result ∧
      outcome.steps ≤ 1 ∧ outcome.converged = true := by
  obtain ⟨outcome, isOutcome⟩ := exists_of_isOk
    (by decide +kernel : ((removeCyclicBroadcasts 2).apply broadcastSample).1.isOk = true)
  have yields : (removeCyclicBroadcasts 2).Yields broadcastSample outcome
      ((removeCyclicBroadcasts 2).apply broadcastSample).2 := Prod.ext isOutcome rfl
  have ends := removeCyclicBroadcasts_once wellFormed_broadcastSample 2
  rw [Ends, yields] at ends
  obtain ⟨-, few, converges, -⟩ := ends
  have one : broadcastSample.broadcasts.length = 1 := by decide +kernel
  exact ⟨wellFormed_broadcastSample, outcome, _, yields, one ▸ few,
    converges (by rw [one]; decide)⟩

end Edit

end StagePlanner
