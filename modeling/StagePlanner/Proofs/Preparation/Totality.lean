import StagePlanner.Proofs.Preparation.Demands
import StagePlanner.Proofs.Preparation.Reporting
import StagePlanner.Proofs.Preparation.Terminators

/-!
# Preparation of graphs without circuits

Where the graph of a document has no circuit, preparation leaves a closed graph without circuits or
fails at a cyclic broadcast whose consumers have no input to checkpoint (`Planner.ends_prepare`).
Every pass keeps the graph closed and free of circuits, and the operators and ports that it asks for
are there: rebuilding and marking checkpoints leave all other operators as they are, and the passes
that put markers on edges only add operators.
-/

namespace StagePlanner

open Relation

namespace Graph

variable {graph result : Graph}

/-- Without circuits that lead out a graph is reduced to one without circuits. -/
theorem Reduces.acyclic {start : Graph} (reduces : start.Reduces graph)
    (none : ¬ start.HasLiveCircuit fun _ => true) : graph.Acyclic := by
  intro id around
  have framed := reduces.closed.toFramed
  have wellFormed := framed.wellFormed
  obtain ⟨_, first, -⟩ := TransGen.head'_iff.1 around
  obtain ⟨_, -, last⟩ := TransGen.tail'_iff.1 around
  obtain ⟨⟨operator, member, rfl⟩, -⟩ := first.operators
  have inner : ¬ operator.IsTerminator := by
    rintro (isBegin | isFinish)
    · exact framed.not_feeds_begin member isBegin last
    · exact framed.not_finish_feeds member isFinish first
  have circuit : TransGen (graph.FeedsBy fun _ => true) operator.id operator.id :=
    TransGen.mono (fun source target feeds => (feedsBy_iff_exists wellFormed).2 ⟨feeds, by
      obtain ⟨⟨producer, isProducer, same⟩, -⟩ := feeds.operators
      exact ⟨producer, isProducer, same, rfl⟩⟩) _ _ around
  exact none (reduces.circuits.1 ⟨operator.id, circuit, reduces.lively operator member inner⟩)

theorem Acyclic.not_hasLiveCircuit (acyclic : graph.Acyclic) (pass : Operator → Bool) :
    ¬ graph.HasLiveCircuit pass :=
  fun ⟨id, circuit, _⟩ => acyclic.feedsBy pass id circuit

/-- No circuit comes about when operators and edges are taken away. -/
theorem Pares.acyclic (pares : graph.Pares result) (acyclic : graph.Acyclic) : result.Acyclic := by
  refine acyclic.mono fun source target feeds => ?_
  obtain ⟨output, input, edge, ⟨producer, isProducer, gives⟩, consumer, isConsumer, takes⟩ :=
    feeds_iff_exists_edge.1 feeds
  exact feeds_iff_exists_edge.2 ⟨output, input, pares.edges _ edge,
    ⟨producer, pares.operators producer isProducer, gives⟩,
    consumer, pares.operators consumer isConsumer, takes⟩

end Graph

namespace Edit

variable {start graph result : Graph} {because : Fault → Graph → Prop}

theorem ends_validateAcyclic (wellFormed : graph.WellFormed) (acyclic : graph.Acyclic) :
    validateAcyclic.Ends graph (fun _ result => result = graph) because := by
  have none : graph.circuitFindings = [] := List.map_eq_nil_iff.2
    ((DependencyGraph.circuits_eq_nil_iff Graph.dependencies_wellFormed).2
      ((Graph.circuitless_dependencies_iff wellFormed).2 acyclic))
  refine Ends.get_bind ?_
  rw [Graph.validateAcyclic, none]
  exact Ends.pure rfl

/-! ### Units -/

/-- Units can be fixed for an operator that is there. -/
theorem succeeds_fixUnits (wellFormed : graph.WellFormed) {operator : Operator}
    (member : operator ∈ graph.operators) {operatorClass : OperatorClass}
    (same : operator.id = operatorClass.operator) : (fixUnits operatorClass).Succeeds graph := by
  refine Ends.succeeds (fun _ _ => True) (Ends.look_bind (same ▸ wellFormed.operator_eq_ok member) ?_)
  dsimp only
  split
  · exact Ends.pure trivial
  · refine ((succeeds_rebuild wellFormed member ?_ ?_).ends fun _ _ _ => trivial).bind
      fun _ _ _ => Ends.pure trivial
    · simp [Blueprint.withUnits, Operator.blueprint, OperatorClass.requiredUnits]
    · simp [Blueprint.withUnits, Operator.blueprint]

/-- The units of all operators of users can be fixed: what is fixed leaves the operators of the other
classes as they are. -/
theorem succeeds_fixAllUnits {ν : Type} [Volume ν] (estimator : Estimator) (limit : Option ν)
    (wellFormed : graph.WellFormed) : (fixAllUnits estimator limit).Succeeds graph := by
  refine Ends.succeeds (fun _ _ => True) (Ends.get_bind ((Ends.countChanges
    (fun rest changed => changed.WellFormed ∧
      (∀ operatorClass ∈ rest, ∃ operator ∈ changed.operators, operator.id = operatorClass.operator) ∧
        rest.Pairwise fun left right => left.operator ≠ right.operator)
    ⟨wellFormed, known_fixedClasses wellFormed, distinct_fixedClasses wellFormed⟩ ?_).mono
      fun _ _ _ _ => trivial))
  rintro operatorClass rest changed ⟨wellFormed, known, distinct⟩
  obtain ⟨⟨operator, member, same⟩, knownRest⟩ := List.forall_mem_cons.1 known
  obtain ⟨apart, distinctRest⟩ := List.pairwise_cons.1 distinct
  refine (succeeds_fixUnits wellFormed member same).ends fun _ result yields => ?_
  obtain ⟨becomes, rename, fixes⟩ := fixes_fixUnits wellFormed yields
  refine ⟨fixes.renamed.wellFormed, fun other listed => ?_, distinctRest⟩
  obtain ⟨found, isFound, isOther⟩ := knownRest other listed
  have stays := fixes.others found isFound fun fixed isFixed equal => apart other listed
    ((congrArg OperatorClass.operator (List.mem_singleton.1 isFixed)).symm.trans (equal.trans isOther))
  exact ⟨found, stays.1 ▸ fixes.renamed.mem_becomes isFound, isOther⟩

/-- The units of all operators of users can be fixed, and the graph stays closed and free of
circuits. -/
theorem ends_fixAllUnits {ν : Type} [Volume ν] (estimator : Estimator) (limit : Option ν)
    (closed : graph.Closed) (acyclic : graph.Acyclic) :
    (fixAllUnits estimator limit).Ends graph (fun _ result => result.Closed ∧ result.Acyclic)
      because := by
  have wellFormed := closed.wellFormed
  refine (succeeds_fixAllUnits estimator limit wellFormed).ends fun _ result yields => ?_
  obtain ⟨_, _, fixes⟩ := fixes_fixAllUnits wellFormed yields
  exact ⟨closed.renamed fixes.renamed, fixes.renamed.acyclic wellFormed acyclic⟩

/-! ### Ports -/

theorem ends_port (wellFormed : graph.WellFormed) {owner : Operator} (member : owner ∈ graph.operators)
    (side : PortSide) {id : PortId} (owned : id ∈ (owner.portsOn side).map Port.id) :
    (port id).Ends graph (fun _ result => result = graph) because := by
  obtain ⟨place, found, -⟩ := wellFormed.exists_place? member side owned
  exact Ends.look_bind (Graph.place_eq_ok.2 found) (Ends.pure rfl)

/-- A checkpoint marker can be put before any input. -/
theorem ends_checkpointInput (wellFormed : graph.WellFormed) {owner : Operator}
    (member : owner ∈ graph.operators) {input : PortId} (owned : input ∈ owner.inputs.map Port.id) :
    (checkpointInput input).Ends graph (fun _ result => ∃ dataType id,
      (insertBefore input (.marker .checkpoint dataType)).Yields graph id result) because := by
  refine (ends_port wellFormed member .input owned).bind fun port _ same => ?_
  subst same
  exact ((succeeds_insertBefore rfl wellFormed ⟨owner, member, owned⟩).ends fun id result inserted =>
    ⟨_, id, inserted⟩).discard

/-! ### Core checkpoints -/

/-- A core checkpoint can be marked: it does not feed itself, so it can be bypassed. -/
theorem succeeds_markCheckpoint (wellFormed : graph.WellFormed) (acyclic : graph.Acyclic)
    {operator : Operator} (member : operator ∈ graph.operators)
    (isCheckpoint : operator.isCore .checkpoint = true) (slender : operator.Slender) :
    (markCheckpoint operator.id).Succeeds graph := by
  obtain ⟨entry, exit, threads⟩ := slender.threads member isCheckpoint
  have isAt : graph.PortAt .input ⟨operator.id, 0⟩ entry :=
    ⟨operator, member, rfl, by rw [Operator.portsOn, threads.inputs]; rfl⟩
  refine Ends.succeeds (fun _ _ => True) (Ends.look_bind (Graph.inputAt_of_portAt wellFormed isAt)
    ((ends_checkpointInput wellFormed member threads.isEntry).bind
      fun _ middle checkpointed => ?_))
  obtain ⟨type, new, inserted⟩ := checkpointed
  have sameFlow := keepsFlow_insertBefore entry rfl graph new middle inserted wellFormed acyclic
  obtain ⟨same, -⟩ := yields_insertBefore wellFormed inserted
  have stays : operator ∈ middle.operators := same.operators ▸ List.mem_append_left _ member
  have stillThreads : middle.Threads operator entry exit := ⟨stays, threads.inputs, threads.outputs⟩
  exact (succeeds_bypass sameFlow.wellFormed stillThreads
    (stillThreads.loopless sameFlow.acyclic)).ends fun _ _ _ => trivial

/-- Core checkpoints can all be marked. -/
theorem ends_markCheckpoints (closed : graph.Closed) (acyclic : graph.Acyclic)
    (slender : ∀ operator ∈ graph.operators, operator.Slender) :
    markCheckpoints.Ends graph (fun _ result => result.Closed ∧ result.Acyclic) because := by
  have wellFormed := closed.wellFormed
  suffices markCheckpoints.Succeeds graph from this.ends fun _ result yields => by
    obtain ⟨sameFlow, ⟨becomes, rename, renamed, -⟩, -⟩ :=
      yields_markCheckpoints wellFormed acyclic yields
    exact ⟨closed.renamed renamed, sameFlow.acyclic⟩
  refine Ends.succeeds (fun _ _ => True) (Ends.get_bind ((Ends.forM (fun rest changed =>
    changed.WellFormed ∧ changed.Acyclic ∧ rest.Nodup ∧ ∀ operator ∈ rest,
      operator ∈ changed.operators ∧ operator.isCore .checkpoint = true ∧ operator.Slender)
    ⟨wellFormed, acyclic, ?_, fun operator listed => ?_⟩ ?_).mono fun _ _ _ _ => trivial))
  · exact (List.Nodup.of_map Operator.id wellFormed.nodup_operatorIds).filter _
  · obtain ⟨member, isCheckpoint⟩ := List.mem_filter.1 listed
    exact ⟨member, isCheckpoint, slender operator member⟩
  · rintro operator rest changed ⟨wellFormed, acyclic, distinct, targets⟩
    obtain ⟨⟨member, isCheckpoint, slender⟩, others⟩ := List.forall_mem_cons.1 targets
    obtain ⟨notLater, distinctRest⟩ := List.nodup_cons.1 distinct
    refine (succeeds_markCheckpoint wellFormed acyclic member isCheckpoint slender).ends
      fun _ result marked => ?_
    obtain ⟨old, type, same, resultWellFormed, replaced⟩ :=
      replaced_of_markCheckpoint wellFormed acyclic marked
    obtain rfl := wellFormed.operator_unique replaced.member member same
    refine ⟨resultWellFormed, ?_, distinctRest, fun other listed => ?_⟩
    · refine (yields_markCheckpoint wellFormed acyclic (fun found isFound same => ?_) marked).1.acyclic
      exact wellFormed.operator_unique isFound member same ▸ isCheckpoint
    · obtain ⟨isThere, isOther⟩ := others other listed
      refine ⟨(replaced.operators other).2 (.inl ⟨isThere, ?_⟩), isOther⟩
      rintro rfl
      exact notLater listed

/-! ### Markers on edges -/

/-- A marker can be put before an input. -/
theorem ends_insertBefore (grown : start.Grown graph) {input : PortId} {blueprint : Blueprint}
    (boundary : blueprint.IsBoundary) {owner : Operator} (member : owner ∈ graph.operators)
    (notBegin : owner.isMarkerOf .begin = false) (owned : input ∈ owner.inputs.map Port.id) :
    (insertBefore input blueprint).Ends graph (fun _ => start.Grown) because := by
  obtain ⟨marker, isMarker, inner, notFinish, passThrough⟩ := boundary.exists_marker
  exact (succeeds_insertBefore passThrough grown.closed.wellFormed ⟨owner, member, owned⟩).ends
    fun _ _ yields =>
      (grown_insertBefore grown marker isMarker inner notFinish member notBegin owned yields).1

/-- A marker can be put behind an output. -/
theorem ends_insertAfter (grown : start.Grown graph) {output : PortId} {blueprint : Blueprint}
    (boundary : blueprint.IsBoundary) {owner : Operator} (member : owner ∈ graph.operators)
    (notFinish : owner.isMarkerOf .finish = false) (owned : output ∈ owner.outputs.map Port.id) :
    (insertAfter output blueprint).Ends graph (fun _ => start.Grown) because := by
  obtain ⟨marker, isMarker, notBegin, inner, passThrough⟩ := boundary.exists_marker
  exact (succeeds_insertAfter passThrough grown.closed.wellFormed ⟨owner, member, owned⟩).ends
    fun _ _ yields =>
      (grown_insertAfter grown marker isMarker notBegin inner member notFinish owned yields).1

theorem grown_checkpointInput (grown : start.Grown graph) {owner : Operator}
    (member : owner ∈ graph.operators) (notBegin : owner.isMarkerOf .begin = false) {input : PortId}
    (owned : input ∈ owner.inputs.map Port.id) :
    (checkpointInput input).Ends graph (fun _ => start.Grown) because :=
  (ends_checkpointInput grown.closed.wellFormed member owned).mono fun _ _ _ ⟨_, _, inserted⟩ =>
    (grown_insertBefore grown .checkpoint rfl (by decide) (by decide) member notBegin owned inserted).1

theorem ends_bound (grown : start.Grown graph) {marker : Marker}
    (exchanges : marker = .gather ∨ marker = .broadcast) (aggregation : Option SerialNumber)
    {owner : Operator} (member : owner ∈ graph.operators) (notBegin : owner.isMarkerOf .begin = false)
    {input : PortId} (owned : input ∈ owner.inputs.map Port.id) :
    (bound marker input aggregation).Ends graph (fun _ => start.Grown) because := by
  refine (ends_port grown.closed.wellFormed member .input owned).bind fun port _ same => ?_
  subst same
  refine Ends.get_bind ?_
  split
  · exact (ends_insertBefore grown (.exchange exchanges _) member notBegin owned).discard
  · exact Ends.pure grown

/-- The inputs of an operator can be bounded as a class asks that assigns them. -/
theorem ends_boundInputs (grown : start.Grown graph) {operator : Operator}
    (member : operator ∈ start.operators) {operatorClass : OperatorClass}
    (assigns : Assigns operatorClass operator) :
    (boundInputs operatorClass).Ends graph (fun _ => start.Grown) because := by
  have notBegin := operator.not_markerOf assigns.notMarker .begin
  have found := grown.closed.wellFormed.operator_eq_ok (grown.kept operator member)
  have secondary : ∀ changed : Graph, start.Grown changed →
      (operatorClass.secondary.forM fun input => bound .broadcast input none).Ends changed
        (fun _ => start.Grown) because := fun changed grown =>
    Ends.forM_of grown fun input listed changed grown => ends_bound grown (.inr rfl) none
      (grown.kept operator member) notBegin (assigns.secondary input listed)
  refine Ends.look_bind (assigns.sameId ▸ found) ?_
  dsimp only
  split
  · refine (Ends.forM_of grown fun input listed changed grown => ?_).bind
      fun _ middle middleGrown => secondary middle middleGrown
    exact ends_bound grown (.inl rfl) _ (grown.kept operator member) notBegin
      (assigns.primary input listed).1
  · exact secondary graph grown

/-- Each pass that puts markers on edges starts from the graph that the last one left. -/
theorem Ends.of_grown {α : Type} {edit : Edit α} (ends : edit.Ends graph (fun _ => graph.Grown) because) :
    edit.Ends graph (fun _ result => result.Closed ∧ result.Acyclic) because :=
  ends.mono fun _ _ _ grown => ⟨grown.closed, grown.acyclic⟩

theorem ends_forM_boundInputs {ν : Type} [Volume ν] (estimator : Estimator) (limit : Option ν)
    (closed : graph.Closed) (acyclic : graph.Acyclic) :
    ((classesOf estimator limit graph).forM boundInputs).Ends graph
      (fun _ result => result.Closed ∧ result.Acyclic) because := by
  refine Ends.of_grown (Ends.forM_of (.refl closed acyclic) fun operatorClass listed changed grown => ?_)
  obtain ⟨operator, member, isClass⟩ := mem_classesOf.1 listed
  exact ends_boundInputs grown member (assigns_of_classOf? isClass)

theorem ends_checkpointExternalInputs (closed : graph.Closed) (acyclic : graph.Acyclic) :
    checkpointExternalInputs.Ends graph (fun _ result => result.Closed ∧ result.Acyclic) because := by
  refine Ends.get_bind (Ends.of_grown (Ends.forM_of (.refl closed acyclic)
    fun operator listed middle grown => Ends.forM_of grown fun output owned changed grown =>
      Ends.get_bind ?_))
  obtain ⟨member, isInput⟩ := List.mem_filter.1 listed
  have notFinish := operator.not_markerOf (Operator.not_marker_of_isInput isInput) .finish
  have stays := grown.kept operator member
  have owned := List.mem_map_of_mem (f := Port.id) owned
  split
  · refine (ends_port grown.closed.wellFormed stays .output owned).bind fun port _ same => ?_
    subst same
    exact (ends_insertAfter grown (.checkpoint _) stays notFinish owned).discard
  · exact Ends.pure grown

theorem ends_checkpointExternalOutputs (closed : graph.Closed) (acyclic : graph.Acyclic) :
    checkpointExternalOutputs.Ends graph (fun _ result => result.Closed ∧ result.Acyclic) because := by
  refine Ends.get_bind (Ends.of_grown (Ends.forM_of (.refl closed acyclic)
    fun operator listed middle grown => Ends.forM_of grown fun input owned changed grown =>
      Ends.get_bind ?_))
  obtain ⟨member, isOutput⟩ := List.mem_filter.1 listed
  have notBegin := operator.not_markerOf (Operator.not_marker_of_isOutput isOutput) .begin
  split
  · exact grown_checkpointInput grown (grown.kept operator member) notBegin
      (List.mem_map_of_mem owned)
  · exact Ends.pure grown

/-! ### Cyclic broadcasts -/

/-- The edit failed because all inputs of the consumers of a cyclic broadcast are fed by markers. -/
def IsUnbreakable (fault : Fault) (graph : Graph) : Prop :=
  ∃ broadcast, graph.cyclicBroadcast? = some broadcast ∧
    (∀ input, input ∉ graph.unboundedInputs broadcast.id) ∧
    fault = .invariant (.nothingToCheckpoint broadcast.label)

theorem ends_breakBroadcast (closed : graph.Closed) (acyclic : graph.Acyclic) {broadcast : Operator}
    (isCyclic : graph.cyclicBroadcast? = some broadcast) :
    (breakBroadcast broadcast).Ends graph (fun _ result => result.Closed ∧ result.Acyclic)
      IsUnbreakable := by
  refine Ends.get_bind ?_
  dsimp only
  split
  · next none =>
    have fails : (throw (.invariant (.nothingToCheckpoint broadcast.label)) : Edit Unit).Ends graph
        (fun _ _ => False) IsUnbreakable :=
        Ends.fail ⟨broadcast, isCyclic, OrderedSet.isEmpty_iff.1 none, rfl⟩
    exact fails.bind fun _ _ => False.elim
  · refine Ends.of_grown (Ends.forM_of (.refl closed acyclic) fun input listed changed grown => ?_)
    obtain ⟨owner, member, notBegin, owned⟩ :=
      owner_of_unboundedInputs closed.toFramed (OrderedSet.mem_toList.1 listed)
    exact grown_checkpointInput grown (grown.kept owner member) notBegin owned

/-- Cyclic broadcasts are broken one after the other unless one has no input to checkpoint. -/
theorem ends_breakBroadcasts (done remaining : Nat) (closed : graph.Closed) (acyclic : graph.Acyclic) :
    (breakBroadcasts done remaining).Ends graph (fun _ result => result.Closed ∧ result.Acyclic)
      IsUnbreakable := by
  induction remaining generalizing graph done with
  | zero => exact Ends.get_bind (Ends.pure ⟨closed, acyclic⟩)
  | succ remaining ih =>
    refine Ends.get_bind ?_
    split
    · exact Ends.pure ⟨closed, acyclic⟩
    · next broadcast isCyclic =>
      exact (ends_breakBroadcast closed acyclic isCyclic).bind fun _ _ ⟨closed, acyclic⟩ =>
        ih (done + 1) closed acyclic

/-! ### Terminators -/

theorem ends_detachRedundant (terminator : Marker) (port : PortId) (items : List PortId)
    (wellFormed : graph.WellFormed) : (detachRedundant terminator port items).Ends graph
      (fun _ result => graph.SameButEdges result ∧ result.WellFormed) because := by
  induction items generalizing graph with
  | nil => exact Ends.pure ⟨.refl graph, wellFormed⟩
  | cons opposite rest ih =>
    have detached : ∀ source target, (do
        let _ ← disconnect source target
        detachRedundant terminator port rest).Ends graph
          (fun _ result => graph.SameButEdges result ∧ result.WellFormed) because :=
      fun source target => (ends_disconnect wellFormed source target).bind
        fun _ middle ⟨same, middleWellFormed⟩ => (ih middleWellFormed).mono
          fun _ _ _ ⟨also, resultWellFormed⟩ => ⟨same.trans also, resultWellFormed⟩
    refine Ends.get_bind ?_
    split
    · dsimp only
      split
      · exact detached port opposite
      · exact detached opposite port
    · exact (ih wellFormed).bind fun _ _ kept => Ends.pure kept

/-- Redundant terminators can be dropped. -/
theorem succeeds_simplifyTerminators (wellFormed : graph.WellFormed) :
    simplifyTerminators.Succeeds graph := by
  refine Ends.succeeds (fun _ => Graph.WellFormed) (Ends.get_bind (Ends.countChanges
    (fun _ changed => changed.WellFormed) wellFormed fun id rest changed wellFormed =>
      Ends.get_bind ?_))
  split
  · exact Ends.pure wellFormed
  · next terminator port isTerminator =>
    obtain ⟨operator, found, -⟩ := Option.bind_eq_some_iff.1 isTerminator
    obtain ⟨member, rfl⟩ := wellFormed.operator?_eq_some_iff.1 found
    refine (ends_detachRedundant terminator port _ wellFormed).bind
      fun isNeeded middle ⟨same, middleWellFormed⟩ => ?_
    split
    · exact Ends.pure middleWellFormed
    · have stays : operator ∈ middle.operators := same.operators ▸ member
      exact Ends.remove_bind middleWellFormed stays (Ends.pure (middleWellFormed.without stays))

theorem ends_simplifyTerminators (closed : graph.Closed) :
    simplifyTerminators.Ends graph (fun _ result => graph.Pares result) because :=
  (succeeds_simplifyTerminators closed.wellFormed).ends fun _ _ yields =>
    (alone_simplifyTerminators closed yields).1

end Edit

namespace Planner

variable {ν : Type} [Volume ν] (planner : Planner ν) {graph : Graph}

/-- Markers are put on all edges that need them unless a cyclic broadcast cannot be broken. -/
theorem ends_bounding (closed : graph.Closed) (acyclic : graph.Acyclic) :
    planner.bounding.Ends graph (fun _ result => result.Closed ∧ result.Acyclic)
      Edit.IsUnbreakable := by
  refine Edit.Ends.get_bind ((Edit.ends_forM_boundInputs _ _ closed acyclic).bind
    fun _ bounded ⟨closed, acyclic⟩ => ?_)
  refine Edit.Ends.optional (Edit.ends_checkpointExternalInputs closed acyclic) ⟨closed, acyclic⟩
    fun checked ⟨closed, acyclic⟩ => ?_
  refine Edit.Ends.optional (Edit.ends_checkpointExternalOutputs closed acyclic) ⟨closed, acyclic⟩
    fun checked ⟨closed, acyclic⟩ => ?_
  split
  · exact (Edit.ends_breakBroadcasts 0 planner.stepLimit closed acyclic).bind
      fun _ _ holds => Edit.Ends.pure holds
  · exact Edit.Ends.pure ⟨closed, acyclic⟩

theorem ends_insertMarkers (closed : graph.Closed) (acyclic : graph.Acyclic)
    (slender : ∀ operator ∈ graph.operators, operator.Slender) :
    planner.insertMarkers.Ends graph (fun _ result => result.Closed ∧ result.Acyclic)
      Edit.IsUnbreakable := by
  rw [insertMarkers_eq]
  exact (Edit.ends_markCheckpoints closed acyclic slender).bind fun _ _ ⟨closed, acyclic⟩ =>
    planner.ends_bounding closed acyclic

/-- Preparing a document without circuits leaves a closed graph without circuits, or fails at a cyclic
broadcast that cannot be broken. -/
theorem ends_prepare {document : Document} {named : NamedGraph} (described : document.build = .ok named)
    (standard : planner.simplifier = .standard) (acyclic : named.graph.Acyclic) :
    planner.prepare.Ends named.graph (fun _ prepared => prepared.Closed ∧ prepared.Acyclic)
      Edit.IsUnbreakable := by
  rw [prepare, ← bind_assoc]
  refine ((planner.ends_optimize standard (Document.framed_build described)
    (Document.unmarked_build described).slender).weaken fun fault _ hollow =>
      absurd hollow.2.2 (acyclic.not_hasLiveCircuit _)).bind fun _ optimized ends => ?_
  obtain ⟨reduces, -⟩ := ends
  have optimizedAcyclic := reduces.acyclic (acyclic.not_hasLiveCircuit _)
  refine (Edit.ends_validateAcyclic reduces.closed.wellFormed optimizedAcyclic).bind
    fun _ valid same => ?_
  subst same
  have fixesAll : planner.fixUnits.Ends valid (fun _ fixed => (fixed.Closed ∧ fixed.Acyclic) ∧
      ∀ operator ∈ fixed.operators, operator.Slender) Edit.IsUnbreakable :=
    (Edit.ends_fixAllUnits planner.estimator planner.config.broadcastLimit reduces.closed
      optimizedAcyclic).mono fun _ fixed yields holds =>
        ⟨holds, (planner.all_fixUnits Operator.passed_slender _ _ _ yields
          ⟨reduces.closed.wellFormed, reduces.slender⟩).each⟩
  refine fixesAll.bind fun _ fixed holds => ?_
  obtain ⟨⟨closed, acyclic⟩, slender⟩ := holds
  refine (planner.ends_insertMarkers closed acyclic slender).bind fun _ marked holds => ?_
  obtain ⟨markedClosed, markedAcyclic⟩ := holds
  refine (Edit.ends_simplifyTerminators markedClosed).bind fun _ simplified pares => ?_
  exact (Edit.ends_validateAcyclic pares.closed.wellFormed (pares.acyclic markedAcyclic)).bind
    fun _ _ same => Edit.Ends.pure (same ▸ ⟨pares.closed, pares.acyclic markedAcyclic⟩)

end Planner

end StagePlanner
