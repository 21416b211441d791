import StagePlanner.Proofs.Marking.Insertion
import StagePlanner.Proofs.Preparation.Units

/-!
# Bounds of inputs

An input is bounded when only `BEGIN` and a given marker for the same data feed it
(`Graph.BoundBy`). Bounding the inputs of an operator as its class asks establishes this, and none
of the markers that are inserted at other places undoes it.
-/

namespace StagePlanner

namespace Graph

variable {start graph result : Graph}

/-- Every producer of an input is `BEGIN` or a given marker for the same data. -/
def BoundBy (graph : Graph) (marker : Marker) (crossing : Crossing) (input : PortId) : Prop :=
  ∀ source, ⟨source, input⟩ ∈ graph.edges → ∃ producer ∈ graph.operators,
    source ∈ producer.outputs.map Port.id ∧ (producer.isMarkerOf .begin = true ∨
      producer.isMarkerOf marker = true ∧ producer.traits.crossing = some crossing)

/-- Markers were added to a graph, which became closed and free of circuits. -/
structure Grown (start graph : Graph) : Prop where
  closed : graph.Closed
  acyclic : graph.Acyclic
  kept : ∀ operator ∈ start.operators, operator ∈ graph.operators
  new : ∀ operator ∈ graph.operators, operator ∈ start.operators ∨ operator.isMarker = true

theorem Grown.refl (closed : graph.Closed) (acyclic : graph.Acyclic) : graph.Grown graph :=
  ⟨closed, acyclic, fun _ => id, fun _ => .inl⟩

namespace Interposed

variable {operator : Operator} {entry exit : PortId} {sources targets : PortId → Prop}
  (interposed : graph.Interposed result operator entry exit sources targets)
  (resultWellFormed : result.WellFormed)

include interposed resultWellFormed

/-- Where an operator that is no terminator is put on edges, the outer ports of terminators stay
unconnected. -/
theorem framed (framed : graph.Framed) (notBegin : operator.isMarkerOf .begin = false)
    (notFinish : operator.isMarkerOf .finish = false) {source target : PortId}
    (isSource : sources source) (isTarget : targets target) : result.Framed := by
  have wasThere : ∀ {other : Operator} {marker : Marker}, other ∈ result.operators →
      other.isMarkerOf marker = true → operator.isMarkerOf marker = false →
        other ∈ graph.operators := by
    intro other marker isThere isMarker notMarker
    refine ((interposed.operators other).1 isThere).resolve_right ?_
    rintro rfl
    exact Bool.false_ne_true (notMarker.symm.trans isMarker)
  refine ⟨resultWellFormed, ?_, ?_, ?_, ?_⟩
  · exact fun other isThere isBegin =>
      framed.oneOutput other (wasThere isThere isBegin notBegin) isBegin
  · exact fun other isThere isFinish =>
      framed.oneInput other (wasThere isThere isFinish notFinish) isFinish
  · intro other isThere isBegin input owned before isEdge
    have member := wasThere isThere isBegin notBegin
    rcases (interposed.edges before input).1 isEdge with ⟨old, -⟩ | ⟨-, isEntry⟩ | ⟨-, alsoTarget⟩
    · exact framed.unfed other member isBegin input owned before old
    · exact (interposed.ne_ports resultWellFormed member
        (Operator.mem_ports_of_mem_portsOn .input owned)).1 isEntry
    · exact framed.unfed other member isBegin input owned source
        (interposed.joined source input isSource alsoTarget)
  · intro other isThere isFinish output owned after isEdge
    have member := wasThere isThere isFinish notFinish
    rcases (interposed.edges output after).1 isEdge with ⟨old, -⟩ | ⟨alsoSource, -⟩ | ⟨isExit, -⟩
    · exact framed.unread other member isFinish output owned after old
    · exact framed.unread other member isFinish output owned target
        (interposed.joined output target alsoSource isTarget)
    · exact (interposed.ne_ports resultWellFormed member
        (Operator.mem_ports_of_mem_portsOn .output owned)).2 isExit

/-- An operator that is no terminator may be put on edges of a closed graph. -/
theorem closed (closed : graph.Closed) (notBegin : operator.isMarkerOf .begin = false)
    (notFinish : operator.isMarkerOf .finish = false) {source target : PortId}
    (isSource : sources source) (isTarget : targets target) : result.Closed := by
  refine ⟨interposed.framed resultWellFormed closed.toFramed notBegin notFinish isSource isTarget,
    ?_, ?_⟩
  · intro other isThere otherNotBegin input owned
    rcases (interposed.operators other).1 isThere with member | rfl
    · obtain ⟨before, isEdge⟩ := closed.fed other member otherNotBegin input owned
      by_cases between : sources before ∧ targets input
      · exact ⟨exit, (interposed.edges exit input).2 (.inr (.inr ⟨rfl, between.2⟩))⟩
      · exact ⟨before, (interposed.edges before input).2 (.inl ⟨isEdge, between⟩)⟩
    · rw [interposed.inputs, List.mem_singleton] at owned
      exact ⟨source, (interposed.edges source input).2 (.inr (.inl ⟨isSource, owned⟩))⟩
  · intro other isThere otherNotFinish output owned
    rcases (interposed.operators other).1 isThere with member | rfl
    · obtain ⟨after, isEdge⟩ := closed.read other member otherNotFinish output owned
      by_cases between : sources output ∧ targets after
      · exact ⟨entry, (interposed.edges output entry).2 (.inr (.inl ⟨between.1, rfl⟩))⟩
      · exact ⟨after, (interposed.edges output after).2 (.inl ⟨isEdge, between⟩)⟩
    · rw [interposed.outputs, List.mem_singleton] at owned
      exact ⟨target, (interposed.edges output target).2 (.inr (.inr ⟨owned, isTarget⟩))⟩

theorem grown (grown : start.Grown graph) (isMarker : operator.isMarker = true)
    (notBegin : operator.isMarkerOf .begin = false) (notFinish : operator.isMarkerOf .finish = false)
    {source target : PortId} (isSource : sources source) (isTarget : targets target) :
    start.Grown result where
  closed := interposed.closed resultWellFormed grown.closed notBegin notFinish isSource isTarget
  acyclic := (interposed.acyclic_iff grown.closed.wellFormed resultWellFormed).2 grown.acyclic
  kept other member := (interposed.operators other).2 (.inl (grown.kept other member))
  new other member := by
    rcases (interposed.operators other).1 member with old | rfl
    · exact grown.new other old
    · exact .inr isMarker

/-- The bounds of inputs that get no new producer stay. -/
theorem boundBy {consumer : Operator} (member : consumer ∈ graph.operators) {input : PortId}
    (owned : input ∈ consumer.inputs.map Port.id) {marker : Marker} {crossing : Crossing}
    (bound : graph.BoundBy marker crossing input) (other : ¬ targets input) :
    result.BoundBy marker crossing input := by
  intro source isEdge
  rcases (interposed.edges source input).1 isEdge with ⟨old, -⟩ | ⟨-, isEntry⟩ | ⟨-, isTarget⟩
  · obtain ⟨producer, isProducer, gives, isBound⟩ := bound source old
    exact ⟨producer, (interposed.operators producer).2 (.inl isProducer), gives, isBound⟩
  · exact absurd isEntry (interposed.ne_ports resultWellFormed member
      (Operator.mem_ports_of_mem_portsOn .input owned)).1
  · exact absurd isTarget other

end Interposed

/-- A port is found by its identifier. -/
theorem WellFormed.port_of_place (wellFormed : graph.WellFormed) {operator : Operator}
    (member : operator ∈ graph.operators) {port : Port} (owned : port ∈ operator.ports)
    {place : PortPlace} (found : graph.place port.id = .ok place) : place.port = port := by
  obtain ⟨isOwner, listed, same⟩ := place?_eq_some (place_eq_ok.1 found)
  have owns := Operator.mem_ports_iff.2 ⟨place.side, listed⟩
  obtain rfl := wellFormed.owner_unique isOwner member (List.mem_map.2 ⟨_, owns, same⟩)
    (List.mem_map_of_mem owned)
  exact List.inj_on_of_nodup_map (wellFormed.nodup_ports member) owns owned same

/-- The check that keeps markers from being put before an input twice. -/
theorem WellFormed.boundBy_of_isBounded (wellFormed : graph.WellFormed) {operator : Operator}
    (member : operator ∈ graph.operators) {input : PortId}
    (owned : input ∈ operator.inputs.map Port.id) {marker : Marker} {crossing : Crossing}
    (isBounded : graph.isBounded marker crossing input = true) :
    graph.BoundBy marker crossing input := by
  intro source isEdge
  obtain ⟨producer, isProducer, gives⟩ := wellFormed.sources _ isEdge
  have isOpposite : source ∈ graph.opposites input :=
    (wellFormed.mem_opposites .input member owned).2 isEdge
  have listed : producer.id ∈ (graph.oppositeOperators input).toList := OrderedSet.mem_toList.2
    (mem_ownersOf.2 ⟨source, isOpposite, producer, wellFormed.owner?_eq_some_iff.2
      ⟨isProducer, Operator.mem_ports_of_mem_portsOn .output gives⟩, rfl⟩)
  have holds := List.all_eq_true.1 (Bool.and_eq_true_iff.1 isBounded).2 _ listed
  rw [holds_id wellFormed isProducer] at holds
  refine ⟨producer, isProducer, gives, ?_⟩
  simpa using holds

end Graph

namespace Edit

variable {start graph result : Graph}

theorem isMarkerOf_added {blueprint : Blueprint} {marker : Marker}
    (isMarker : blueprint.kind = .marker marker) (other : Marker) :
    (graph.added blueprint).isMarkerOf other = decide (marker = other) := by
  rw [Operator.isMarkerOf, Operator.marker?, Graph.added, isMarker, OperatorKind.marker?]
  simp only [Option.some.injEq]

theorem isMarker_added {blueprint : Blueprint} {marker : Marker}
    (isMarker : blueprint.kind = .marker marker) : (graph.added blueprint).isMarker = true := by
  rw [Operator.isMarker, Operator.marker?, Graph.added, isMarker]
  rfl

/-- A marker before an input of a closed graph bounds this input and no other one. -/
theorem grown_insertBefore (grown : start.Grown graph) {input : PortId} (marker : Marker)
    {blueprint : Blueprint} (isMarker : blueprint.kind = .marker marker)
    (notBegin : marker ≠ .begin) (notFinish : marker ≠ .finish) {owner : Operator}
    (member : owner ∈ graph.operators) (ownerNotBegin : owner.isMarkerOf .begin = false)
    (owned : input ∈ owner.inputs.map Port.id) {id : OperatorId}
    (yields : (insertBefore input blueprint).Yields graph id result) :
    start.Grown result ∧
      (∀ crossing, blueprint.traits.crossing = some crossing →
        result.BoundBy marker crossing input) ∧
      ∀ consumer ∈ graph.operators, ∀ other ∈ consumer.inputs.map Port.id, other ≠ input →
        ∀ marker crossing, graph.BoundBy marker crossing other →
          result.BoundBy marker crossing other := by
  have wellFormed := grown.closed.wellFormed
  have resultWellFormed := (keeps_insertBefore input blueprint).wellFormed wellFormed yields
  obtain ⟨-, -, -, interposed⟩ := yields_insertBefore wellFormed yields
  obtain ⟨source, isSource⟩ := grown.closed.fed owner member ownerNotBegin input owned
  refine ⟨interposed.grown resultWellFormed grown (isMarker_added isMarker) ?_ ?_ isSource rfl,
    fun crossing attached source isEdge => ?_,
    fun consumer isConsumer other takes differs marker crossing bound =>
      interposed.boundBy resultWellFormed isConsumer takes bound differs⟩
  · rw [isMarkerOf_added isMarker, decide_eq_false notBegin]
  · rw [isMarkerOf_added isMarker, decide_eq_false notFinish]
  · rcases (interposed.edges source input).1 isEdge with ⟨old, again⟩ | ⟨-, isEntry⟩ | ⟨isExit, -⟩
    · exact absurd ⟨old, rfl⟩ again
    · exact absurd isEntry (interposed.ne_ports resultWellFormed member
        (Operator.mem_ports_of_mem_portsOn .input owned)).1
    · refine ⟨_, interposed.isMember, ?_, .inr ⟨?_, attached⟩⟩
      · rw [interposed.outputs, isExit]
        exact List.mem_cons_self
      · rw [isMarkerOf_added isMarker, decide_eq_true rfl]

/-- A marker behind an output of a closed graph keeps the bounds of all inputs that the output does
not feed. -/
theorem grown_insertAfter (grown : start.Grown graph) {output : PortId} (marker : Marker)
    {blueprint : Blueprint} (isMarker : blueprint.kind = .marker marker)
    (notBegin : marker ≠ .begin) (notFinish : marker ≠ .finish) {owner : Operator}
    (member : owner ∈ graph.operators) (ownerNotFinish : owner.isMarkerOf .finish = false)
    (owned : output ∈ owner.outputs.map Port.id) {id : OperatorId}
    (yields : (insertAfter output blueprint).Yields graph id result) :
    start.Grown result ∧ ∀ consumer ∈ graph.operators, ∀ other ∈ consumer.inputs.map Port.id,
      ⟨output, other⟩ ∉ graph.edges → ∀ marker crossing, graph.BoundBy marker crossing other →
        result.BoundBy marker crossing other := by
  have wellFormed := grown.closed.wellFormed
  have resultWellFormed := (keeps_insertAfter output blueprint).wellFormed wellFormed yields
  obtain ⟨-, -, -, interposed⟩ := yields_insertAfter wellFormed yields
  obtain ⟨target, isTarget⟩ := grown.closed.read owner member ownerNotFinish output owned
  refine ⟨interposed.grown resultWellFormed grown (isMarker_added isMarker) ?_ ?_ rfl isTarget,
    fun consumer isConsumer other takes notFed marker crossing bound =>
      interposed.boundBy resultWellFormed isConsumer takes bound notFed⟩
  · rw [isMarkerOf_added isMarker, decide_eq_false notBegin]
  · rw [isMarkerOf_added isMarker, decide_eq_false notFinish]

/-- Bounding an input of a closed graph bounds it and keeps the bounds of all others. -/
theorem grown_bound (grown : start.Grown graph) {marker : Marker} (notBegin : marker ≠ .begin)
    (notFinish : marker ≠ .finish) {owner : Operator} (member : owner ∈ graph.operators)
    (ownerNotBegin : owner.isMarkerOf .begin = false) {port : Port} (owned : port ∈ owner.inputs)
    {aggregation : Option SerialNumber} {done : Unit}
    (yields : (bound marker port.id aggregation).Yields graph done result) :
    start.Grown result ∧ result.BoundBy marker (port.crossing aggregation) port.id ∧
      ∀ consumer ∈ graph.operators, ∀ other ∈ consumer.inputs.map Port.id, other ≠ port.id →
        ∀ marker crossing, graph.BoundBy marker crossing other →
          result.BoundBy marker crossing other := by
  have wellFormed := grown.closed.wellFormed
  simp only [bound, Edit.port, yields_bind, yields_look, yields_pure, yields_get] at yields
  obtain ⟨_, _, ⟨place, _, ⟨found, rfl⟩, rfl, rfl⟩, _, _, ⟨rfl, rfl⟩, rest⟩ := yields
  rw [wellFormed.port_of_place member (List.mem_append_left _ owned) found] at rest
  split at rest
  · obtain ⟨_, _, inserted, returned⟩ := yields_bind.1 rest
    obtain ⟨-, rfl⟩ := yields_pure.1 returned
    obtain ⟨resultGrown, bounds, others⟩ := grown_insertBefore grown marker rfl notBegin notFinish member
      ownerNotBegin (List.mem_map_of_mem owned) inserted
    exact ⟨resultGrown, bounds _ rfl, others⟩
  · next isBounded =>
    obtain ⟨-, rfl⟩ := yields_pure.1 rest
    exact ⟨grown, wellFormed.boundBy_of_isBounded member (List.mem_map_of_mem owned) (by simpa using isBounded),
      fun _ _ _ _ _ _ _ bound => bound⟩

/-- Bounding some inputs of one operator in the same way. -/
theorem grown_forM_bound {marker : Marker} (notBegin : marker ≠ .begin) (notFinish : marker ≠ .finish)
    {owner : Operator} (member : owner ∈ start.operators)
    (ownerNotBegin : owner.isMarkerOf .begin = false) {inputs : List PortId}
    (owned : ∀ input ∈ inputs, input ∈ owner.inputs.map Port.id)
    {aggregation : Option SerialNumber} (grown : start.Grown graph) {done : PUnit}
    (yields : (inputs.forM fun input => bound marker input aggregation).Yields graph done result) :
    start.Grown result ∧
      (∀ port ∈ owner.inputs, port.id ∈ inputs →
        result.BoundBy marker (port.crossing aggregation) port.id) ∧
      ∀ consumer ∈ start.operators, ∀ other ∈ consumer.inputs.map Port.id, other ∉ inputs →
        ∀ marker crossing, graph.BoundBy marker crossing other →
          result.BoundBy marker crossing other := by
  induction inputs generalizing graph with
  | nil =>
    obtain ⟨-, rfl⟩ := yields_pure.1 yields
    exact ⟨grown, by simp, fun _ _ _ _ _ _ _ bound => bound⟩
  | cons input rest ih =>
    obtain ⟨_, middle, first, others⟩ := yields_bind.1 yields
    obtain ⟨ownsFirst, ownsRest⟩ := List.forall_mem_cons.1 owned
    obtain ⟨port, isPort, rfl⟩ := List.mem_map.1 ownsFirst
    obtain ⟨middleGrown, isBound, kept⟩ := grown_bound grown notBegin notFinish
      (grown.kept owner member) ownerNotBegin isPort first
    obtain ⟨resultGrown, areBound, keptLater⟩ := ih ownsRest middleGrown others
    refine ⟨resultGrown, fun another isAnother listed => ?_, fun consumer isConsumer other takes absent
      marker crossing bound => ?_⟩
    · by_cases later : another.id ∈ rest
      · exact areBound another isAnother later
      · obtain same | absurdly := List.mem_cons.1 listed
        · obtain rfl := List.inj_on_of_nodup_map
            (grown.closed.wellFormed.portsOn_nodup (grown.kept owner member) .input) isAnother isPort same
          exact keptLater owner member another.id (List.mem_map_of_mem isAnother) later _ _ isBound
        · exact absurd absurdly later
    · obtain ⟨differs, absentLater⟩ := not_or.1 (mt List.mem_cons.2 absent)
      exact keptLater consumer isConsumer other takes absentLater _ _
        (kept consumer (grown.kept consumer isConsumer) other takes differs _ _ bound)

end Edit

end StagePlanner
