import StagePlanner.Proofs.Preparation.Bounds

/-!
# Bounds that units demand

A grouped input of an operator of a user demands that the data are shuffled, one that is consumed
whole that they are broadcast (`Operator.Demands`). Inserting markers meets these demands if grouped
inputs belong to operators that are classified so (`Planner.bounded_bounding`): the inputs of each
operator are bounded as its class asks, and no checkpoint that is inserted later stands before a
bounded input.
-/

namespace StagePlanner

/-- What the unit of an input demands: the marker that has to stand before the input, with the data
that cross it. -/
inductive Operator.Demands (operator : Operator) : Port → Marker → Crossing → Prop
  | gathered {definition : UserOperator} {input : Port} (isUser : operator.kind = .user definition)
      (member : input ∈ operator.inputs) (isGroup : input.unit = some .group) :
      Demands operator input .gather (input.crossing
        (if definition.partialAggregation && definition.kind.supportsPartialReduction then
          some operator.serial else none))
  | broadcast {definition : UserOperator} {input : Port} (isUser : operator.kind = .user definition)
      (member : input ∈ operator.inputs) (isWhole : input.unit = some .whole) :
      Demands operator input .broadcast (input.crossing none)

namespace Operator.Demands

variable {operator : Operator} {input : Port} {marker : Marker} {crossing : Crossing}

theorem member (demands : operator.Demands input marker crossing) : input ∈ operator.inputs := by
  cases demands <;> assumption

theorem isUser (demands : operator.Demands input marker crossing) :
    ∃ definition, operator.kind = .user definition := by
  cases demands <;> exact ⟨_, by assumption⟩

end Operator.Demands

/-- Markers were added to a graph, and the bounds are there that the units of its operators
demand. -/
structure Graph.Bounded (start graph : Graph) : Prop extends start.Grown graph where
  bounds : ∀ operator ∈ start.operators, ∀ input marker crossing,
    operator.Demands input marker crossing → graph.BoundBy marker crossing input.id

namespace Edit

variable {start graph result : Graph}

/-! ### Classes -/

/-- A class that assigns the inputs of an operator. -/
structure Assigns (operatorClass : OperatorClass) (operator : Operator) : Prop where
  sameId : operatorClass.operator = operator.id
  notMarker : ¬ operator.isMarker = true
  primary : ∀ port ∈ operatorClass.primary,
    port ∈ operator.inputs.map Port.id ∧ port ∉ operatorClass.secondary
  secondary : ∀ port ∈ operatorClass.secondary, port ∈ operator.inputs.map Port.id

/-- The inputs of an operator are bounded as its class asks. -/
structure Obeys (graph : Graph) (operatorClass : OperatorClass) (operator : Operator) : Prop where
  gathered : operatorClass.primaryUse = .group → ∀ port ∈ operator.inputs,
    port.id ∈ operatorClass.primary → graph.BoundBy .gather
      (port.crossing (if operatorClass.partialReduction then some operator.serial else none)) port.id
  broadcast : ∀ port ∈ operator.inputs, port.id ∈ operatorClass.secondary →
    graph.BoundBy .broadcast (port.crossing none) port.id

theorem grown_boundInputs (grown : start.Grown graph) {operatorClass : OperatorClass}
    {operator : Operator} (member : operator ∈ start.operators)
    (assigns : Assigns operatorClass operator) {done : Unit}
    (yields : (boundInputs operatorClass).Yields graph done result) :
    start.Grown result ∧ Obeys result operatorClass operator ∧
      ∀ consumer ∈ start.operators, ∀ other ∈ consumer.inputs.map Port.id,
        other ∉ operator.inputs.map Port.id → ∀ marker crossing,
          graph.BoundBy marker crossing other → result.BoundBy marker crossing other := by
  have notBegin := operator.not_markerOf assigns.notMarker .begin
  obtain ⟨found, _, looked, rest⟩ := yields_bind.1 yields
  obtain ⟨isFound, rfl⟩ := yields_look.1 looked
  obtain ⟨isThere, foundId⟩ := Graph.mem_of_operator isFound
  obtain rfl := grown.closed.wellFormed.operator_unique isThere (grown.kept operator member)
    (foundId.trans assigns.sameId)
  split at rest
  · obtain ⟨_, middle, first, second⟩ := yields_bind.1 rest
    obtain ⟨middleGrown, gathered, kept⟩ := grown_forM_bound (by decide : Marker.gather ≠ .begin) (by decide) member
      notBegin (fun port listed => (assigns.primary port listed).1) grown first
    obtain ⟨resultGrown, broadcast, keptLater⟩ := grown_forM_bound
      (by decide : Marker.broadcast ≠ .begin) (by decide) member notBegin assigns.secondary middleGrown
      second
    refine ⟨resultGrown, ⟨fun _ port isPort listed => ?_, broadcast⟩,
      fun consumer isConsumer other takes notOwned marker crossing bound => ?_⟩
    · exact keptLater found member port.id (List.mem_map_of_mem isPort)
        (assigns.primary port.id listed).2 _ _ (gathered port isPort listed)
    · exact keptLater consumer isConsumer other takes (fun listed => notOwned (assigns.secondary other listed))
        _ _ (kept consumer isConsumer other takes
          (fun listed => notOwned (assigns.primary other listed).1) _ _ bound)
  · next notGroup =>
    obtain ⟨resultGrown, broadcast, kept⟩ := grown_forM_bound (by decide : Marker.broadcast ≠ .begin)
      (by decide) member notBegin assigns.secondary grown rest
    exact ⟨resultGrown, ⟨fun isGroup => absurd isGroup notGroup, broadcast⟩,
      fun consumer isConsumer other takes notOwned marker crossing bound =>
        kept consumer isConsumer other takes (fun listed => notOwned (assigns.secondary other listed))
          _ _ bound⟩

/-- The inputs of all operators are bounded as their classes ask. -/
theorem grown_forM_boundInputs {classes : List OperatorClass} (grown : start.Grown graph)
    (assigned : ∀ operatorClass ∈ classes, ∃ operator ∈ start.operators,
      Assigns operatorClass operator)
    (distinct : classes.Pairwise fun left right => left.operator ≠ right.operator) {done : PUnit}
    (yields : (classes.forM boundInputs).Yields graph done result) :
    start.Grown result ∧
      (∀ operatorClass ∈ classes, ∀ operator ∈ start.operators,
        operatorClass.operator = operator.id → Obeys result operatorClass operator) ∧
      ∀ consumer ∈ start.operators,
        (∀ operatorClass ∈ classes, operatorClass.operator ≠ consumer.id) →
          ∀ other ∈ consumer.inputs.map Port.id, ∀ marker crossing,
            graph.BoundBy marker crossing other → result.BoundBy marker crossing other := by
  induction classes generalizing graph with
  | nil =>
    obtain ⟨-, rfl⟩ := yields_pure.1 yields
    exact ⟨grown, nofun, fun _ _ _ _ _ _ _ bound => bound⟩
  | cons operatorClass rest ih =>
    obtain ⟨_, middle, first, others⟩ := yields_bind.1 yields
    obtain ⟨⟨operator, member, assigns⟩, assignedRest⟩ := List.forall_mem_cons.1 assigned
    obtain ⟨apart, distinctRest⟩ := List.pairwise_cons.1 distinct
    obtain ⟨middleGrown, obeys, kept⟩ := grown_boundInputs grown member assigns first
    obtain ⟨resultGrown, obeyLater, keptLater⟩ := ih middleGrown assignedRest distinctRest others
    refine ⟨resultGrown, List.forall_mem_cons.2 ⟨fun found isFound same => ?_, obeyLater⟩,
      fun consumer isConsumer absent other takes marker crossing bound => ?_⟩
    · have unchanged := keptLater found isFound fun another listed equal =>
        apart another listed (same.trans equal.symm)
      obtain rfl := grown.closed.wellFormed.operator_unique (grown.kept found isFound)
        (grown.kept operator member) (same.symm.trans assigns.sameId)
      exact ⟨fun isGroup port isPort listed => unchanged port.id (List.mem_map_of_mem isPort) _ _
          (obeys.gathered isGroup port isPort listed),
        fun port isPort listed => unchanged port.id (List.mem_map_of_mem isPort) _ _
          (obeys.broadcast port isPort listed)⟩
    · obtain ⟨notFirst, absentRest⟩ := List.forall_mem_cons.1 absent
      refine keptLater consumer isConsumer absentRest other takes marker crossing
        (kept consumer isConsumer other takes (fun owned => notFirst ?_) marker crossing bound)
      obtain rfl := grown.closed.wellFormed.owner_unique (grown.kept consumer isConsumer)
        (grown.kept operator member) (Operator.mem_ports_of_mem_portsOn .input takes)
        (Operator.mem_ports_of_mem_portsOn .input owned)
      exact assigns.sameId

section

variable {ν : Type} [Volume ν] {limit : Option ν} {estimator : Estimator}

/-- Every class assigns the inputs of its operator. -/
theorem assigns_of_classOf? {estimates : Estimates ν} {operator : Operator}
    {operatorClass : OperatorClass}
    (isClass : classOf? limit graph estimates operator = some operatorClass) :
    Assigns operatorClass operator := by
  cases kind : operator.kind with
  | user definition =>
    obtain ⟨_, found, describes⟩ := exists_classOf? limit graph estimates kind
    obtain rfl := Option.some.inj (found.symm.trans isClass)
    refine ⟨describes.sameId, ?_, fun port => (describes.primary port).1, describes.inputs⟩
    rw [Operator.isMarker, Operator.marker?, kind]
    exact Bool.false_ne_true
  | marker boundary =>
    rw [classOf?, kind] at isClass
    cases isClass
  | _ =>
    rw [classOf?, kind] at isClass
    cases isClass
    refine ⟨rfl, ?_, fun port listed => ?_, fun port listed => ?_⟩
    · rw [Operator.isMarker, Operator.marker?, kind]
      exact Bool.false_ne_true
    · simpa only [List.mem_filter, decide_eq_true_eq] using listed
    · obtain ⟨input, isInput, rfl⟩ := List.mem_map.1 listed
      exact List.mem_map_of_mem (List.mem_filter.1 isInput).1

/-- A demand of an aligned operator is what its class asks for. -/
theorem boundBy_of_obeys {operator : Operator} (distinct : (operator.inputs.map Port.id).Nodup)
    (aligned : operator.Aligned limit estimator start) {operatorClass : OperatorClass}
    (isClass : classOf? limit start (estimator.estimate start) operator = some operatorClass)
    (obeys : Obeys graph operatorClass operator) {input : Port} {marker : Marker}
    {crossing : Crossing} (demands : operator.Demands input marker crossing) :
    graph.BoundBy marker crossing input.id := by
  obtain ⟨definition, isUser⟩ := demands.isUser
  obtain ⟨_, found, describes⟩ := exists_classOf? limit start (estimator.estimate start) isUser
  obtain rfl := Option.some.inj (isClass.symm.trans found)
  cases demands with
  | broadcast _ member isWhole =>
    exact obeys.broadcast input member (describes.whole input member isWhole)
  | gathered isUserToo member isGroup =>
    obtain rfl := OperatorKind.user.inj (isUserToo.symm.trans isUser)
    have shuffled := aligned _ isUser input member isGroup
    have notSecondary : input.id ∉ operatorClass.secondary := by
      intro listed
      obtain ⟨other, isOther, same, isWhole⟩ := describes.declared shuffled _ listed
      obtain rfl := List.inj_on_of_nodup_map distinct isOther member same
      rw [isGroup] at isWhole
      cases isWhole
    rw [← describes.partialReduction]
    exact obeys.gathered (describes.group.2 ⟨shuffled, List.ne_nil_of_mem member⟩) input member
      ((describes.primary _).2 ⟨List.mem_map_of_mem member, notSecondary⟩)

/-- Bounding the inputs of all operators as their classes ask meets the demands of aligned
operators. -/
theorem bounded_boundInputs (closed : graph.Closed) (acyclic : graph.Acyclic)
    (aligned : ∀ operator ∈ graph.operators, operator.Aligned limit estimator graph) {done : PUnit}
    (yields : ((classesOf estimator limit graph).forM boundInputs).Yields graph done result) :
    graph.Bounded result := by
  have wellFormed := closed.wellFormed
  have bounds := grown_forM_boundInputs (.refl closed acyclic) (fun operatorClass listed => ?_)
    (List.pairwise_filterMap.2 ?_) yields
  · obtain ⟨grown, obey, -⟩ := bounds
    refine ⟨grown, fun operator member input marker crossing demands => ?_⟩
    obtain ⟨definition, isUser⟩ := demands.isUser
    obtain ⟨operatorClass, isClass, -⟩ :=
      exists_classOf? limit graph (estimator.estimate graph) isUser
    exact boundBy_of_obeys (wellFormed.portsOn_nodup member .input) (aligned operator member) isClass
      (obey operatorClass (mem_classesOf.2 ⟨operator, member, isClass⟩) operator member
        (operator_of_classOf? isClass)) demands
  · obtain ⟨operator, member, isClass⟩ := mem_classesOf.1 listed
    exact ⟨operator, member, assigns_of_classOf? isClass⟩
  · refine (List.pairwise_map.1 wellFormed.nodup_operatorIds).imp
      fun {left right} differ first ofLeft second ofRight same => differ ?_
    exact (operator_of_classOf? ofLeft).symm.trans (same.trans (operator_of_classOf? ofRight))

end

/-! ### Checkpoints -/

/-- Further markers are added to a graph whose bounds stay. -/
abbrev KeepsBounds {α : Type} (start before : Graph) (edit : Edit α) : Prop :=
  edit.Preserves fun graph => start.Bounded graph ∧ before.Grown graph

variable {before : Graph}

theorem keepsBounds_checkpointInput {owner : Operator} (member : owner ∈ before.operators)
    (notBegin : owner.isMarkerOf .begin = false) {input : PortId}
    (owned : input ∈ owner.inputs.map Port.id)
    (free : ∀ operator ∈ start.operators, ∀ other marker crossing,
      operator.Demands other marker crossing → other.id ≠ input) :
    KeepsBounds start before (checkpointInput input) := by
  rintro graph done result yields ⟨bounded, grown⟩
  simp only [checkpointInput, port, yields_bind, yields_look, yields_pure] at yields
  obtain ⟨_, _, ⟨_, _, ⟨-, rfl⟩, -, rfl⟩, _, _, inserted, -, rfl⟩ := yields
  obtain ⟨resultGrown, -, kept⟩ := grown_insertBefore bounded.toGrown .checkpoint rfl
    (by decide) (by decide) (grown.kept owner member) notBegin owned inserted
  refine ⟨⟨resultGrown, fun operator isThere other marker crossing demands => ?_⟩, ?_⟩
  · exact kept operator (bounded.kept operator isThere) other.id
      (List.mem_map_of_mem demands.member) (free operator isThere other marker crossing demands) _ _
      (bounded.bounds operator isThere other marker crossing demands)
  · exact (grown_insertBefore grown .checkpoint rfl (by decide) (by decide)
      (grown.kept owner member) notBegin owned inserted).1

/-- A bounded input is fed by markers only. -/
theorem marker_of_demands (bounded : start.Bounded graph) {operator : Operator}
    (member : operator ∈ start.operators) {input : Port} {marker : Marker} {crossing : Crossing}
    (demands : operator.Demands input marker crossing) {source : PortId}
    (isEdge : ⟨source, input.id⟩ ∈ graph.edges) {producer : Operator}
    (isProducer : producer ∈ graph.operators) (gives : source ∈ producer.outputs.map Port.id) :
    producer.isMarker = true := by
  obtain ⟨found, isFound, alsoGives, isBound⟩ :=
    bounded.bounds operator member input marker crossing demands source isEdge
  obtain rfl := bounded.closed.wellFormed.owner_unique isProducer isFound
    (Operator.mem_ports_of_mem_portsOn .output gives)
    (Operator.mem_ports_of_mem_portsOn .output alsoGives)
  rcases isBound with isMarker | ⟨isMarker, -⟩ <;>
    exact Option.isSome_iff_exists.2 ⟨_, of_decide_eq_true isMarker⟩

theorem keepsBounds_checkpointAfter {owner : Operator} (member : owner ∈ before.operators)
    (isInput : owner.kind.isInput = true) {output : PortId}
    (owned : output ∈ owner.outputs.map Port.id) :
    KeepsBounds start before (checkpointAfter output) := by
  have notMarker := Operator.not_marker_of_isInput isInput
  refine Ensures.get.bind fun _ => Ensures.unless ((ensures_port output).bind fun _ =>
    Ensures.bind ?_ fun _ => Ensures.pure _)
  rintro graph id result inserted ⟨bounded, grown⟩
  have notFinish := owner.not_markerOf notMarker .finish
  have stays := grown.kept owner member
  obtain ⟨resultGrown, kept⟩ := grown_insertAfter bounded.toGrown .checkpoint rfl
    (by decide) (by decide) stays notFinish owned inserted
  refine ⟨⟨resultGrown, fun operator isThere other marker crossing demands => ?_⟩, ?_⟩
  · exact kept operator (bounded.kept operator isThere) other.id
      (List.mem_map_of_mem demands.member)
      (fun isEdge => notMarker (marker_of_demands bounded isThere demands isEdge stays owned)) _ _
      (bounded.bounds operator isThere other marker crossing demands)
  · exact (grown_insertAfter grown .checkpoint rfl (by decide) (by decide) stays notFinish
      owned inserted).1

theorem bounded_checkpointExternalInputs :
    checkpointExternalInputs.Preserves fun graph => start.Bounded graph := by
  intro graph done result yields bounded
  obtain ⟨_, _, seen, marked⟩ := yields_bind.1 yields
  obtain ⟨rfl, rfl⟩ := yields_get.1 seen
  have keeps : KeepsBounds start graph _ := Ensures.forM fun operator listed =>
    Ensures.forM fun output owned =>
      keepsBounds_checkpointAfter (List.mem_filter.1 listed).1 (List.mem_filter.1 listed).2
        (List.mem_map_of_mem owned)
  exact (keeps graph done result marked ⟨bounded, .refl bounded.closed bounded.acyclic⟩).1

theorem keepsBounds_checkpointBefore (bounded : start.Bounded before) {owner : Operator}
    (member : owner ∈ before.operators) (isOutput : owner.kind.isOutput = true) {input : PortId}
    (owned : input ∈ owner.inputs.map Port.id) :
    KeepsBounds start before (checkpointBefore input) := by
  refine Ensures.get.bind fun _ => Ensures.unless (keepsBounds_checkpointInput member
    (owner.not_markerOf (Operator.not_marker_of_isOutput isOutput) .begin) owned
      fun operator isThere other marker crossing demands => ?_)
  rintro rfl
  obtain ⟨definition, isUser⟩ := demands.isUser
  obtain rfl := bounded.closed.wellFormed.owner_unique (bounded.kept operator isThere) member
    (Operator.mem_ports_of_mem_portsOn .input (List.mem_map_of_mem demands.member))
    (Operator.mem_ports_of_mem_portsOn .input owned)
  rw [isUser] at isOutput
  cases isOutput

theorem bounded_checkpointExternalOutputs :
    checkpointExternalOutputs.Preserves fun graph => start.Bounded graph := by
  intro graph done result yields bounded
  obtain ⟨_, _, seen, marked⟩ := yields_bind.1 yields
  obtain ⟨rfl, rfl⟩ := yields_get.1 seen
  have keeps : KeepsBounds start graph _ := Ensures.forM fun operator listed =>
    Ensures.forM fun input owned =>
      keepsBounds_checkpointBefore bounded (List.mem_filter.1 listed).1 (List.mem_filter.1 listed).2
        (List.mem_map_of_mem owned)
  exact (keeps graph done result marked ⟨bounded, .refl bounded.closed bounded.acyclic⟩).1

end Edit

/-! ### Broadcasts -/

namespace Graph

/-- A marker is among the producers of an input. -/
def FedByMarker (graph : Graph) (input : PortId) : Prop :=
  ∃ source, ⟨source, input⟩ ∈ graph.edges ∧
    ∃ producer ∈ graph.operators, source ∈ producer.outputs.map Port.id ∧ producer.isMarker = true

namespace WellFormed

variable {graph : Graph} (wellFormed : graph.WellFormed)

include wellFormed

theorem fedByMarker_iff {owner : Operator} (member : owner ∈ graph.operators) {input : PortId}
    (owned : input ∈ owner.inputs.map Port.id) :
    (graph.oppositeOperators input).toList.any graph.isMarker = true ↔ graph.FedByMarker input := by
  simp only [List.any_eq_true, OrderedSet.mem_toList, oppositeOperators, mem_ownersOf]
  constructor
  · rintro ⟨_, ⟨source, isOpposite, producer, isOwner, rfl⟩, isMarker⟩
    obtain ⟨isProducer, gives⟩ := wellFormed.owner?_eq_some_iff.1 isOwner
    have isEdge := (wellFormed.mem_opposites .input member owned).1 isOpposite
    exact ⟨source, isEdge, producer, isProducer,
      wellFormed.mem_portsOn_of_edge .output isProducer gives isEdge,
      (holds_id wellFormed isProducer).symm.trans isMarker⟩
  · rintro ⟨source, isEdge, producer, isProducer, gives, isMarker⟩
    exact ⟨producer.id, ⟨source, (wellFormed.mem_opposites .input member owned).2 isEdge, producer,
      wellFormed.owner?_eq_some_iff.2
        ⟨isProducer, Operator.mem_ports_of_mem_portsOn .output gives⟩, rfl⟩,
      (holds_id wellFormed isProducer).trans isMarker⟩

/-- What a round checkpoints. -/
theorem mem_unboundedInputs {id : OperatorId} {input : PortId} :
    input ∈ graph.unboundedInputs id ↔ ∃ consumer ∈ graph.operators, graph.Feeds id consumer.id ∧
      input ∈ consumer.inputs.map Port.id ∧ ¬ graph.FedByMarker input := by
  simp only [unboundedInputs, OrderedSet.mem_ofList, List.mem_filter, List.mem_map,
    List.mem_flatMap, List.mem_filterMap, OrderedSet.mem_toList, mem_successors wellFormed,
    wellFormed.operator?_eq_some_iff, Bool.not_eq_true', Bool.eq_false_iff]
  constructor
  · rintro ⟨⟨port, ⟨consumer, ⟨_, feeds, member, rfl⟩, owned⟩, rfl⟩, free⟩
    exact ⟨consumer, member, feeds, ⟨port, owned, rfl⟩,
      mt (wellFormed.fedByMarker_iff member (List.mem_map_of_mem owned)).2 free⟩
  · rintro ⟨consumer, member, feeds, ⟨port, owned, rfl⟩, free⟩
    exact ⟨⟨port, ⟨consumer, ⟨_, feeds, member, rfl⟩, owned⟩, rfl⟩,
      mt (wellFormed.fedByMarker_iff member (List.mem_map_of_mem owned)).1 free⟩

end WellFormed

end Graph

namespace Edit

variable {start graph result : Graph}

/-- The inputs of the consumers of a broadcast are inputs of operators that are no `BEGIN`. -/
theorem owner_of_unboundedInputs (framed : graph.Framed) {broadcast : OperatorId} {input : PortId}
    (listed : input ∈ graph.unboundedInputs broadcast) :
    ∃ owner ∈ graph.operators, owner.isMarkerOf .begin = false ∧
      input ∈ owner.inputs.map Port.id := by
  have wellFormed := framed.wellFormed
  obtain ⟨owner, member, feeds, owned, -⟩ := wellFormed.mem_unboundedInputs.1 listed
  refine ⟨owner, member, Bool.eq_false_iff.2 fun isBegin => ?_, owned⟩
  -- The broadcast feeds the operator, and nothing feeds a `BEGIN`.
  obtain ⟨output, target, isEdge, -, found, isFound, sameId, takes⟩ :=
    Graph.feeds_iff_exists_edge.1 feeds
  obtain rfl := wellFormed.operator_unique isFound member sameId
  exact framed.unfed found member isBegin target takes output isEdge

/-- Those of them that no marker feeds are not bounded. -/
theorem free_of_unboundedInputs (bounded : start.Bounded graph) {broadcast : OperatorId}
    {input : PortId} (listed : input ∈ graph.unboundedInputs broadcast) :
    ∀ operator ∈ start.operators, ∀ other marker crossing,
      operator.Demands other marker crossing → other.id ≠ input := by
  have wellFormed := bounded.closed.wellFormed
  obtain ⟨_, -, -, -, free⟩ := wellFormed.mem_unboundedInputs.1 listed
  intro operator isThere other marker crossing demands same
  have kept := bounded.kept operator isThere
  obtain ⟨definition, isUser⟩ := demands.isUser
  have notBegin : operator.isMarkerOf .begin = false := by
    rw [Operator.isMarkerOf, Operator.marker?, isUser]
    rfl
  obtain ⟨source, isEdge⟩ :=
    bounded.closed.fed operator kept notBegin other.id (List.mem_map_of_mem demands.member)
  obtain ⟨producer, isProducer, gives⟩ := wellFormed.sources _ isEdge
  have isMarker := marker_of_demands bounded isThere demands isEdge isProducer gives
  exact free ⟨source, same ▸ isEdge, producer, isProducer, gives, isMarker⟩

/-- Only inputs that no marker feeds get a checkpoint. -/
theorem bounded_breakBroadcast (broadcast : Operator) :
    (breakBroadcast broadcast).Preserves fun graph => start.Bounded graph := by
  intro graph done result yields bounded
  obtain ⟨_, _, seen, rest⟩ := yields_bind.1 yields
  obtain ⟨rfl, rfl⟩ := yields_get.1 seen
  have keeps : KeepsBounds start graph
      ((graph.unboundedInputs broadcast.id).toList.forM checkpointInput) := by
    refine Ensures.forM fun input listed => ?_
    have isUnbounded := OrderedSet.mem_toList.1 listed
    obtain ⟨owner, member, notBegin, owned⟩ :=
      owner_of_unboundedInputs bounded.closed.toFramed isUnbounded
    exact keepsBounds_checkpointInput member notBegin owned
      (free_of_unboundedInputs bounded isUnbounded)
  dsimp only at rest
  split at rest
  · obtain ⟨_, _, failed, -⟩ := yields_bind.1 rest
    cases failed
  · exact (keeps graph done result rest ⟨bounded, .refl bounded.closed bounded.acyclic⟩).1

theorem bounded_breakBroadcasts (done remaining : Nat) :
    (breakBroadcasts done remaining).Preserves fun graph => start.Bounded graph := by
  induction remaining generalizing done with
  | zero => exact Ensures.get.bind fun _ => Ensures.pure _
  | succ remaining ih =>
    refine Ensures.get.bind fun graph => ?_
    split
    · exact Ensures.pure _
    · next broadcast _ => exact (bounded_breakBroadcast broadcast).bind fun _ => ih (done + 1)

end Edit

namespace Planner

variable {ν : Type} [Volume ν] (planner : Planner ν)

/-- After the core checkpoints are gone, inserting markers meets the demands of aligned
operators. -/
theorem bounded_bounding {graph result : Graph} (closed : graph.Closed) (acyclic : graph.Acyclic)
    (aligned : ∀ operator ∈ graph.operators,
      operator.Aligned planner.config.broadcastLimit planner.estimator graph)
    {outcome : Option LoopOutcome} (yields : planner.bounding.Yields graph outcome result) :
    graph.Bounded result := by
  obtain ⟨_, _, seen, rest⟩ := Edit.yields_bind.1 yields
  obtain ⟨rfl, rfl⟩ := Edit.yields_get.1 seen
  obtain ⟨_, middle, bounds, later⟩ := Edit.yields_bind.1 rest
  refine (?_ : Edit.Preserves graph.Bounded _) middle outcome result later
    (Edit.bounded_boundInputs closed acyclic aligned bounds)
  refine .optional Edit.bounded_checkpointExternalInputs (.optional
    Edit.bounded_checkpointExternalOutputs ?_)
  split
  · exact (Edit.bounded_breakBroadcasts 0 planner.stepLimit).bind fun _ => .pure _
  · exact .pure _

end Planner

end StagePlanner
