import Mathlib.Data.Option.NAry
import StagePlanner.Proofs.Estimate.Invariance
import StagePlanner.Proofs.Marking.Insertion
import StagePlanner.Proofs.Preparation.Terminators

/-!
# Estimates do not depend on markers

A marker that is put on edges gives what it gets, and a `BEGIN` gives nothing. So an input keeps its
volume when markers are put before it, behind its producers or anywhere else
(`Estimator.sameVolumes_of_interposed`), and when terminators that stand beside others are taken
away (`Estimator.input?_estimate_pared`). This groups what is added up in another way, so volumes have
to add up like exact numbers.
-/

namespace StagePlanner

variable {ν : Type} [Volume ν]

/-! ### Exact volumes -/

namespace Volume

/-- Volumes are added like exact numbers, and nothing has the volume of an empty sum. -/
structure Additive (ν : Type) [Volume ν] : Prop where
  comm : ∀ first second : ν, add first second = add second first
  assoc : ∀ first second third : ν, add (add first second) third = add first (add second third)
  neutral : ∀ volume : ν, add emptySum volume = volume
  nothing : ofBytes 0 = (emptySum : ν)

theorem additive_nat : Additive Nat := ⟨Nat.add_comm, Nat.add_assoc, Nat.zero_add, rfl⟩

namespace Additive

variable (additive : Additive ν)

include additive

theorem exact : Exact ν := fun first second third => by
  rw [additive.assoc, additive.comm second, ← additive.assoc]

theorem foldl_add (start : ν) (volumes : List ν) : volumes.foldl add start = add start (sum volumes) := by
  induction volumes generalizing start with
  | nil => exact ((additive.comm _ _).trans (additive.neutral start)).symm
  | cons volume rest ih =>
    have first : sum (volume :: rest) = add volume (sum rest) := by
      rw [sum, List.foldl_cons, ih, additive.neutral]
    rw [List.foldl_cons, ih, first, additive.assoc]

theorem sum?_cons (volume : Option ν) (rest : List (Option ν)) :
    sum? (volume :: rest) = Option.map₂ add volume (sum? rest) := by
  rw [sum?, sum?, List.mapM_cons]
  cases volume with
  | none => rfl
  | some volume =>
    cases rest.mapM id with
    | none => rfl
    | some known =>
      refine congrArg some ?_
      rw [sum, List.foldl_cons, additive.foldl_add, additive.neutral]

theorem sum?_singleton (volume : Option ν) : sum? [volume] = volume := by
  have nothing : sum? ([] : List (Option ν)) = some emptySum := rfl
  rw [additive.sum?_cons, nothing]
  cases volume with
  | none => rfl
  | some volume => exact congrArg some ((additive.comm _ _).trans (additive.neutral volume))

theorem sum?_append (volumes others : List (Option ν)) :
    sum? (volumes ++ others) = Option.map₂ add (sum? volumes) (sum? others) := by
  induction volumes with
  | nil =>
    have nothing : sum? ([] : List (Option ν)) = some emptySum := rfl
    rw [List.nil_append, nothing]
    cases sum? others with
    | none => rfl
    | some volume => exact congrArg some (additive.neutral volume).symm
  | cons volume rest ih =>
    rw [List.cons_append, additive.sum?_cons, ih, additive.sum?_cons, Option.map₂_assoc additive.assoc]

/-- A part of the volumes may be added up before. -/
theorem sum?_cons_sum? (volumes others : List (Option ν)) :
    sum? (sum? volumes :: others) = sum? (volumes ++ others) := by
  rw [additive.sum?_cons, additive.sum?_append]

/-- Volumes of nothing may be left out. -/
theorem sum?_append_nothing {volumes others : List (Option ν)}
    (nothing : ∀ volume ∈ others, volume = some (ofBytes 0)) : sum? (volumes ++ others) = sum? volumes := by
  induction others with
  | nil => rw [List.append_nil]
  | cons volume rest ih =>
    obtain ⟨isNothing, restNothing⟩ := List.forall_mem_cons.1 nothing
    have swapped : (volumes ++ volume :: rest).Perm (volume :: (volumes ++ rest)) :=
      List.perm_middle
    rw [sum?_perm additive.exact swapped, additive.sum?_cons, ih restNothing, isNothing,
      additive.nothing]
    cases sum? volumes with
    | none => rfl
    | some known => exact congrArg some (additive.neutral known)

end Additive

end Volume

namespace Estimates

variable {estimates : Estimates ν} {graph : Graph} {port : PortId}

theorem input?_of_no_producers (nothing : graph.producers port = []) :
    estimates.input? graph port = none := by
  rw [input?, nothing]

theorem input?_of_producers (fed : graph.producers port ≠ []) :
    estimates.input? graph port = Volume.sum? ((graph.producers port).map estimates.output?) := by
  rw [input?]
  cases producers : graph.producers port with
  | nil => exact absurd producers fed
  | cons first rest => rfl

/-- Where nothing is known about outputs, nothing is known about inputs. -/
theorem input?_of_unknown (unknown : ∀ source, estimates.output? source = none) :
    estimates.input? graph port = none := by
  rw [input?]
  cases graph.producers port with
  | nil => rfl
  | cons first rest =>
    change Volume.sum? (estimates.output? first :: rest.map estimates.output?) = none
    rw [unknown first]
    rfl

/-- An estimator that knows nothing gives no estimate. -/
theorem input?_unknown (graph other : Graph) (port : PortId) :
    (Estimator.unknown.estimate graph : Estimates ν).input? other port = none :=
  input?_of_unknown fun _ => rfl

end Estimates

/-! ### Markers on edges -/

namespace Graph.Interposed

variable {graph result : Graph} {operator : Operator} {entry exit : PortId}
  {sources targets : PortId → Prop} [DecidablePred sources]
  (interposed : graph.Interposed result operator entry exit sources targets)
  (wellFormed : graph.WellFormed) (resultWellFormed : result.WellFormed)

include interposed wellFormed resultWellFormed

/-- The operator is fed by what it stands behind, which fed every input that it stands before. -/
theorem perm_producers_entry {input : PortId} (isTarget : targets input) :
    (result.producers entry).Perm ((graph.producers input).filter sources) := by
  refine (List.perm_ext_iff_of_nodup (result.nodup_producers _)
    ((graph.nodup_producers input).filter _)).2 fun source => ?_
  rw [Graph.mem_producers, interposed.edges, List.mem_filter, Graph.mem_producers, decide_eq_true_eq]
  constructor
  · rintro (⟨isEdge, -⟩ | ⟨isSource, -⟩ | ⟨-, isEntry⟩)
    · exact absurd rfl (interposed.ne_of_edge wellFormed resultWellFormed isEdge).2.1
    · exact ⟨interposed.joined source input isSource isTarget, isSource⟩
    · exact absurd rfl (interposed.ne_of_targets resultWellFormed isEntry).1
  · exact fun ⟨_, isSource⟩ => .inr (.inl ⟨isSource, rfl⟩)

/-- An input before which the operator stands is fed by the operator and by what it was fed from
elsewhere. -/
theorem perm_producers_of_target {input : PortId} (isTarget : targets input) :
    (result.producers input).Perm (exit :: (graph.producers input).filter (¬ sources ·)) := by
  have apart : exit ∉ (graph.producers input).filter (¬ sources ·) := fun listed =>
    (interposed.ne_of_edge wellFormed resultWellFormed
      (Graph.mem_producers.1 (List.mem_filter.1 listed).1)).1.2 rfl
  refine (List.perm_ext_iff_of_nodup (result.nodup_producers _)
    (List.nodup_cons.2 ⟨apart, (graph.nodup_producers input).filter _⟩)).2 fun source => ?_
  rw [Graph.mem_producers, interposed.edges, List.mem_cons, List.mem_filter, Graph.mem_producers,
    decide_eq_true_eq]
  constructor
  · rintro (⟨isEdge, notBetween⟩ | ⟨-, isEntry⟩ | ⟨isExit, -⟩)
    · exact .inr ⟨isEdge, fun isSource => notBetween ⟨isSource, isTarget⟩⟩
    · exact absurd isEntry (interposed.ne_of_targets resultWellFormed isTarget).1
    · exact .inl isExit
  · rintro (isExit | ⟨isEdge, notSource⟩)
    · exact .inr (.inr ⟨isExit, isTarget⟩)
    · exact .inl ⟨isEdge, fun between => notSource between.1⟩

omit [DecidablePred sources] wellFormed in
/-- Every other input is fed as before. -/
theorem perm_producers_of_not_target {owner : Operator} (member : owner ∈ graph.operators)
    {input : PortId} (owned : input ∈ owner.inputs.map Port.id) (notTarget : ¬ targets input) :
    (result.producers input).Perm (graph.producers input) := by
  refine (List.perm_ext_iff_of_nodup (result.nodup_producers _)
    (graph.nodup_producers _)).2 fun source => ?_
  rw [Graph.mem_producers, interposed.edges, Graph.mem_producers]
  constructor
  · rintro (⟨isEdge, -⟩ | ⟨-, isEntry⟩ | ⟨-, isTarget⟩)
    · exact isEdge
    · exact absurd isEntry (interposed.ne_ports resultWellFormed member
        (Operator.mem_ports_of_mem_portsOn .input owned)).1
    · exact absurd isTarget notTarget
  · exact fun isEdge => .inl ⟨isEdge, fun between => notTarget between.2⟩

end Graph.Interposed

/-- The operators of a graph are there in another one without circuits, and get the same volumes. -/
structure Graph.SameVolumes (ν : Type) [Volume ν] (estimator : Estimator) (graph result : Graph) :
    Prop where
  wellFormed : result.WellFormed
  acyclic : result.Acyclic
  kept : ∀ operator ∈ graph.operators, operator ∈ result.operators
  inputs : ∀ operator ∈ graph.operators, ∀ input ∈ operator.inputs.map Port.id,
    (estimator.estimate result : Estimates ν).input? result input =
      (estimator.estimate graph : Estimates ν).input? graph input

instance (estimator : Estimator) : IsPreorder Graph fun graph result =>
    graph.WellFormed → graph.Acyclic → graph.SameVolumes ν estimator result where
  refl _ wellFormed acyclic := ⟨wellFormed, acyclic, fun _ => id, fun _ _ _ _ => rfl⟩
  trans _ _ _ first second wellFormed acyclic := by
    have before := first wellFormed acyclic
    have after := second before.wellFormed before.acyclic
    exact ⟨after.wellFormed, after.acyclic, fun operator member => after.kept _ (before.kept _ member),
      fun operator member input owned => (after.inputs _ (before.kept _ member) input owned).trans
        (before.inputs operator member input owned)⟩

namespace Estimator

variable {graph result : Graph} {hints : List (String × Nat)}

/-- A marker that is no `BEGIN` gives what it gets. -/
theorem outputVolume?_marker (additive : Volume.Additive ν) {operator : Operator} {marker : Marker}
    (isMarker : operator.kind = .marker marker) (notBegin : marker ≠ .begin) {entry : PortId}
    (inputs : operator.inputs.map Port.id = [entry]) (estimates : Estimates ν) :
    outputVolume? hints graph estimates operator = estimates.input? graph entry := by
  have total : estimates.total? graph operator = estimates.input? graph entry := by
    have ports := congrArg (List.map (estimates.input? graph)) inputs
    rw [List.map_map] at ports
    exact (congrArg Volume.sum? ports).trans (additive.sum?_singleton _)
  rw [outputVolume?, isMarker]
  cases marker with
  | begin => exact absurd rfl notBegin
  | _ => exact total

section Interposed

variable {operator : Operator} {entry exit : PortId} {sources targets : PortId → Prop}
  (interposed : graph.Interposed result operator entry exit sources targets)
  (wellFormed : graph.WellFormed) (resultWellFormed : result.WellFormed)
  (additive : Volume.Additive ν)
  (fed : (∃ source, sources source) ∨
    ∀ target, targets target → ∀ source, ⟨source, target⟩ ∉ graph.edges)

include interposed wellFormed resultWellFormed additive fed

/-- An input gets the same volume when its producers give the same volumes and the operator gives
what it gets. -/
theorem input?_interposed {ours theirs : Estimates ν}
    (through : theirs.output? exit = theirs.input? result entry) {owner : Operator}
    (member : owner ∈ graph.operators) {input : PortId} (owned : input ∈ owner.inputs.map Port.id)
    (same : ∀ source, ⟨source, input⟩ ∈ graph.edges → theirs.output? source = ours.output? source) :
    theirs.input? result input = ours.input? graph input := by
  classical
  have volumes : (graph.producers input).map ours.output? = (graph.producers input).map theirs.output? :=
    List.map_congr_left fun source isProducer => (same source (Graph.mem_producers.1 isProducer)).symm
  by_cases isTarget : targets input
  · have entering := interposed.perm_producers_entry wellFormed resultWellFormed isTarget
    have producers := interposed.perm_producers_of_target wellFormed resultWellFormed isTarget
    have some : result.producers input ≠ [] := fun none => by
      rw [none] at producers
      cases producers.nil_eq
    rw [Estimates.input?_of_producers some,
      Volume.sum?_perm additive.exact (producers.map theirs.output?), List.map_cons, through]
    rcases fed with ⟨source, isSource⟩ | unfed
    · have isEdge := interposed.joined source input isSource isTarget
      have someEntry : result.producers entry ≠ [] :=
        List.ne_nil_of_mem (Graph.mem_producers.2 ((interposed.edges source entry).2
          (.inr (.inl ⟨isSource, rfl⟩))))
      rw [Estimates.input?_of_producers someEntry,
        Volume.sum?_perm additive.exact (entering.map theirs.output?), additive.sum?_cons_sum?,
        ← List.map_append, Estimates.input?_of_producers
          (List.ne_nil_of_mem (Graph.mem_producers.2 isEdge)), volumes]
      refine Volume.sum?_perm additive.exact (List.Perm.map _ ?_)
      simpa using List.filter_append_perm (fun source => decide (sources source)) (graph.producers input)
    · have none : graph.producers input = [] := List.eq_nil_iff_forall_not_mem.2 fun source isProducer =>
        unfed input isTarget source (Graph.mem_producers.1 isProducer)
      rw [none, List.filter_nil] at entering
      rw [Estimates.input?_of_no_producers none, none, List.filter_nil,
        Estimates.input?_of_no_producers entering.eq_nil]
      exact additive.sum?_singleton _
  · refine Estimates.input?_of_perm additive.exact ?_
    rw [volumes]
    exact (interposed.perm_producers_of_not_target resultWellFormed member owned isTarget).symm.map _

/-- A marker that is put on edges leaves all estimates as they are. -/
theorem sameVolumes_of_interposed (acyclic : graph.Acyclic) {marker : Marker}
    (isMarker : operator.kind = .marker marker) (notBegin : marker ≠ .begin) (estimator : Estimator) :
    graph.SameVolumes ν estimator result := by
  have resultAcyclic := (interposed.acyclic_iff wellFormed resultWellFormed).2 acyclic
  refine ⟨resultWellFormed, resultAcyclic, fun other member => (interposed.operators other).2 (.inl member),
    fun owner member input owned => ?_⟩
  cases estimator with
  | unknown => rw [Estimates.input?_unknown, Estimates.input?_unknown]
  | flowing hints =>
    have through : ((flowing hints).estimate result : Estimates ν).output? exit =
        ((flowing hints).estimate result : Estimates ν).input? result entry := by
      rw [output?_estimate resultWellFormed resultAcyclic interposed.isMember
        (by rw [interposed.outputs]; exact List.mem_cons_self)]
      exact outputVolume?_marker additive isMarker notBegin interposed.inputs _
    have inputOf : ∀ consumer ∈ graph.operators, (∀ producer ∈ graph.operators,
        graph.Feeds producer.id consumer.id → ∀ output ∈ producer.outputs.map Port.id,
          ((flowing hints).estimate result : Estimates ν).output? output =
            ((flowing hints).estimate graph : Estimates ν).output? output) →
        ∀ port ∈ consumer.inputs.map Port.id,
          ((flowing hints).estimate result : Estimates ν).input? result port =
            ((flowing hints).estimate graph : Estimates ν).input? graph port := by
      intro consumer isConsumer before port isPort
      refine input?_interposed interposed wellFormed resultWellFormed additive fed through isConsumer
        isPort fun source isEdge => ?_
      obtain ⟨producer, isProducer, gives⟩ := wellFormed.sources _ isEdge
      exact before producer isProducer (Graph.feeds_iff_exists_edge.2
        ⟨_, _, isEdge, ⟨producer, isProducer, rfl, gives⟩, consumer, isConsumer, rfl, isPort⟩) source gives
    refine inputOf owner member (fun producer isProducer _ => ?_) input owned
    refine acyclic.induction (fun producer => ∀ output ∈ producer.outputs.map Port.id,
      ((flowing hints).estimate result : Estimates ν).output? output =
        ((flowing hints).estimate graph : Estimates ν).output? output)
      (fun consumer isConsumer before output gives => ?_) producer isProducer
    rw [output?_estimate wellFormed acyclic isConsumer gives, output?_estimate resultWellFormed
      resultAcyclic ((interposed.operators consumer).2 (.inl isConsumer)) gives]
    exact outputVolume?_congr (.refl consumer) (List.map_congr_left fun port isPort =>
      inputOf consumer isConsumer before port.id (List.mem_map_of_mem isPort))

end Interposed

/-! ### Terminators beside others -/

section Pared

variable (pares : graph.Pares result) (closed : graph.Closed)

include pares

/-- An input is fed by what still feeds it and by what does not any more. -/
theorem perm_producers_pared (input : PortId) : (graph.producers input).Perm
    (result.producers input ++ (graph.producers input).filter (· ∉ result.producers input)) := by
  have stays : ((graph.producers input).filter (· ∈ result.producers input)).Perm
      (result.producers input) := by
    refine (List.perm_ext_iff_of_nodup ((graph.nodup_producers input).filter _)
      (result.nodup_producers input)).2 fun source => ?_
    rw [List.mem_filter, decide_eq_true_eq]
    refine and_iff_right_of_imp fun isProducer => ?_
    exact Graph.mem_producers.2 (pares.edges _ (Graph.mem_producers.1 isProducer))
  refine List.Perm.trans (List.Perm.symm ?_) (stays.append_right _)
  simpa using List.filter_append_perm (fun source => decide (source ∈ result.producers input))
    (graph.producers input)

include closed

/-- What does not feed an input any more is a `BEGIN`, unless the input is that of an `END`. -/
theorem begin_of_pared {owner : Operator} (member : owner ∈ graph.operators)
    (notFinish : owner.isMarkerOf .finish = false) {input source : PortId}
    (owned : input ∈ owner.inputs.map Port.id) (isEdge : ⟨source, input⟩ ∈ graph.edges)
    (lost : ⟨source, input⟩ ∉ result.edges) :
    ∃ producer ∈ graph.operators, producer.isMarkerOf .begin = true ∧
      source ∈ producer.outputs.map Port.id := by
  obtain ⟨side, port, opposite, ⟨found, isFound, terminator, faces, isTerminator, owns⟩, same⟩ :=
    (pares.kept _ isEdge).resolve_left lost
  cases side with
  | output =>
    obtain ⟨rfl, -⟩ := Edge.mk.inj same
    cases terminator with
    | begin => exact ⟨found, isFound, isTerminator, owns⟩
    | _ => cases faces
  | input =>
    obtain ⟨-, rfl⟩ := Edge.mk.inj same
    obtain rfl := closed.wellFormed.owner_unique isFound member
      (Operator.mem_ports_of_mem_portsOn .input owns) (Operator.mem_ports_of_mem_portsOn .input owned)
    cases terminator with
    | finish =>
      rw [notFinish] at isTerminator
      cases isTerminator
    | _ => cases faces

/-- An input that is not that of an `END` gets the same volume when its producers give the same
volumes. -/
theorem input?_pared (additive : Volume.Additive ν) {ours theirs : Estimates ν}
    (nothing : ∀ producer ∈ graph.operators, producer.isMarkerOf .begin = true →
      ∀ output ∈ producer.outputs.map Port.id, ours.output? output = some (Volume.ofBytes 0))
    {owner : Operator} (member : owner ∈ result.operators) (notFinish : owner.isMarkerOf .finish = false)
    {input : PortId} (owned : input ∈ owner.inputs.map Port.id)
    (same : ∀ source, ⟨source, input⟩ ∈ result.edges → theirs.output? source = ours.output? source) :
    theirs.input? result input = ours.input? graph input := by
  have wasThere := pares.operators owner member
  cases isBegin : owner.isMarkerOf .begin with
  | true =>
    have unfed : graph.producers input = [] := List.eq_nil_iff_forall_not_mem.2 fun source isProducer =>
      closed.unfed owner wasThere isBegin input owned source (Graph.mem_producers.1 isProducer)
    have stillUnfed : result.producers input = [] :=
      List.eq_nil_iff_forall_not_mem.2 fun source isProducer =>
        closed.unfed owner wasThere isBegin input owned source
          (pares.edges _ (Graph.mem_producers.1 isProducer))
    rw [Estimates.input?_of_no_producers unfed, Estimates.input?_of_no_producers stillUnfed]
  | false =>
    obtain ⟨source, isEdge⟩ := pares.closed.fed owner member isBegin input owned
    rw [Estimates.input?_of_producers (List.ne_nil_of_mem (Graph.mem_producers.2 isEdge)),
      Estimates.input?_of_producers (List.ne_nil_of_mem (Graph.mem_producers.2 (pares.edges _ isEdge))),
      Volume.sum?_perm additive.exact ((perm_producers_pared pares input).map ours.output?),
      List.map_append, additive.sum?_append_nothing fun volume listed => ?_]
    · exact congrArg Volume.sum? (List.map_congr_left fun source isProducer =>
        same source (Graph.mem_producers.1 isProducer))
    · obtain ⟨other, isOther, rfl⟩ := List.mem_map.1 listed
      obtain ⟨wasProducer, isLost⟩ := List.mem_filter.1 isOther
      obtain ⟨producer, isProducer, isBegin, gives⟩ := begin_of_pared pares closed wasThere notFinish
        owned (Graph.mem_producers.1 wasProducer)
        (mt Graph.mem_producers.2 (of_decide_eq_true isLost))
      exact nothing producer isProducer isBegin other gives

/-- Taking away terminators that stand beside others leaves the estimates at all inputs as they are
but for those of other terminators. -/
theorem input?_estimate_pared (additive : Volume.Additive ν) (acyclic : graph.Acyclic)
    (resultAcyclic : result.Acyclic) (estimator : Estimator) {owner : Operator}
    (member : owner ∈ result.operators) (notFinish : owner.isMarkerOf .finish = false) {input : PortId}
    (owned : input ∈ owner.inputs.map Port.id) :
    (estimator.estimate result : Estimates ν).input? result input =
      (estimator.estimate graph : Estimates ν).input? graph input := by
  cases estimator with
  | unknown => rw [Estimates.input?_unknown, Estimates.input?_unknown]
  | flowing hints =>
    have nothing : ∀ producer ∈ graph.operators, producer.isMarkerOf .begin = true →
        ∀ output ∈ producer.outputs.map Port.id,
          ((flowing hints).estimate graph : Estimates ν).output? output = some (Volume.ofBytes 0) := by
      intro producer isProducer isBegin output gives
      rw [output?_estimate closed.wellFormed acyclic isProducer gives, outputVolume?,
        Operator.kind_of_isMarkerOf isBegin]
    have inputOf : ∀ consumer ∈ result.operators, consumer.isMarkerOf .finish = false →
        (∀ producer ∈ result.operators, result.Feeds producer.id consumer.id →
          producer.isMarkerOf .finish = false → ∀ output ∈ producer.outputs.map Port.id,
            ((flowing hints).estimate result : Estimates ν).output? output =
              ((flowing hints).estimate graph : Estimates ν).output? output) →
        ∀ port ∈ consumer.inputs.map Port.id,
          ((flowing hints).estimate result : Estimates ν).input? result port =
            ((flowing hints).estimate graph : Estimates ν).input? graph port := by
      intro consumer isConsumer consumerNotFinish before port isPort
      refine input?_pared pares closed additive nothing isConsumer consumerNotFinish isPort
        fun source isEdge => ?_
      obtain ⟨producer, isProducer, gives⟩ := pares.closed.wellFormed.sources _ isEdge
      refine before producer isProducer (Graph.feeds_iff_exists_edge.2
        ⟨_, _, isEdge, ⟨producer, isProducer, rfl, gives⟩, consumer, isConsumer, rfl, isPort⟩)
        (Bool.eq_false_iff.2 fun isFinish => ?_) source gives
      exact pares.closed.unread producer isProducer isFinish source gives port isEdge
    refine inputOf owner member notFinish (fun producer isProducer _ => ?_) input owned
    refine resultAcyclic.induction (fun producer => producer.isMarkerOf .finish = false →
      ∀ output ∈ producer.outputs.map Port.id,
        ((flowing hints).estimate result : Estimates ν).output? output =
          ((flowing hints).estimate graph : Estimates ν).output? output)
      (fun consumer isConsumer before consumerNotFinish output gives => ?_) producer isProducer
    rw [output?_estimate closed.wellFormed acyclic (pares.operators consumer isConsumer) gives,
      output?_estimate pares.closed.wellFormed resultAcyclic isConsumer gives]
    exact outputVolume?_congr (.refl consumer) (List.map_congr_left fun port isPort =>
      inputOf consumer isConsumer consumerNotFinish before port.id (List.mem_map_of_mem isPort))

end Pared

end Estimator

namespace Edit

/-! ### Edits that put markers on edges -/

theorem sameVolumes_insertBefore (additive : Volume.Additive ν) (estimator : Estimator) (input : PortId)
    {blueprint : Blueprint} (boundary : blueprint.IsBoundary) :
    (insertBefore input blueprint).Ensures fun graph result =>
      graph.WellFormed → graph.Acyclic → graph.SameVolumes ν estimator result := by
  intro graph id result yields wellFormed acyclic
  have resultWellFormed := (keeps_insertBefore input blueprint).wellFormed wellFormed yields
  obtain ⟨marker, isMarker, notBegin, -⟩ := boundary.exists_marker
  obtain ⟨-, -, -, interposed⟩ := yields_insertBefore wellFormed yields
  refine Estimator.sameVolumes_of_interposed interposed wellFormed resultWellFormed additive ?_ acyclic
    isMarker notBegin estimator
  refine or_iff_not_imp_left.2 fun unfed target isTarget source isEdge => unfed ⟨source, ?_⟩
  exact isTarget ▸ isEdge

theorem sameVolumes_insertAfter (additive : Volume.Additive ν) (estimator : Estimator) (output : PortId)
    {blueprint : Blueprint} (boundary : blueprint.IsBoundary) :
    (insertAfter output blueprint).Ensures fun graph result =>
      graph.WellFormed → graph.Acyclic → graph.SameVolumes ν estimator result := by
  intro graph id result yields wellFormed acyclic
  have resultWellFormed := (keeps_insertAfter output blueprint).wellFormed wellFormed yields
  obtain ⟨marker, isMarker, notBegin, -⟩ := boundary.exists_marker
  obtain ⟨-, -, -, interposed⟩ := yields_insertAfter wellFormed yields
  exact Estimator.sameVolumes_of_interposed interposed wellFormed resultWellFormed additive
    (.inl ⟨output, rfl⟩) acyclic isMarker notBegin estimator

end Edit

/-- Bounding changes no estimate. -/
theorem Planner.sameVolumes_bounding (planner : Planner ν) (additive : Volume.Additive ν) :
    planner.bounding.Ensures fun graph result =>
      graph.WellFormed → graph.Acyclic → graph.SameVolumes ν planner.estimator result :=
  planner.ensures_bounding
    (fun input _ boundary => Edit.sameVolumes_insertBefore additive planner.estimator input boundary)
    fun output _ boundary => Edit.sameVolumes_insertAfter additive planner.estimator output boundary

end StagePlanner
