import StagePlanner.Proofs.Estimate.Splicing
import StagePlanner.Proofs.Flow.Inflow
import StagePlanner.Proofs.Planning.Exchange

/-!
# Sizes of outputs

The volume of an output is a sum over the markers for which it stands. It is the sum over what
feeds these in the graph (`StagePort.inflow`), with every supplier counted once for each marker that
it feeds. What arrives at the output in its stage is counted once (`Stage.writers`). Both are the same
exactly when uniting ports made nothing count twice (`Stage.CountsOnce`): when no supplier feeds two
of the markers, none of them feeds another one, and what passes through the stage is counted for
one marker only.
-/

namespace StagePlanner

open Relation

/-! ### Suppliers -/

namespace Graph

/-- The outputs of all operators. -/
def outlets (graph : Graph) : List Terminal :=
  graph.operators.flatMap fun operator =>
    (List.range operator.outputs.length).map fun index => ⟨operator.id, index⟩

/-- The outputs that are wired to an input. -/
def suppliers (graph : Graph) (target : Terminal) : List Terminal :=
  graph.outlets.filter fun source => graph.Wired source target

variable {graph : Graph}

theorem mem_outlets {source : Terminal} :
    source ∈ graph.outlets ↔ ∃ port, graph.PortAt .output source port := by
  obtain ⟨id, index⟩ := source
  simp only [outlets, List.mem_flatMap, List.mem_map, List.mem_range, Terminal.mk.injEq, PortAt]
  constructor
  · rintro ⟨operator, member, _, bound, rfl, rfl⟩
    exact ⟨_, operator, member, rfl, List.getElem?_eq_getElem (by simpa [Operator.portsOn] using bound)⟩
  · rintro ⟨port, operator, member, rfl, found⟩
    obtain ⟨bound, -⟩ := List.getElem?_eq_some_iff.1 found
    exact ⟨operator, member, index, by simpa [Operator.portsOn] using bound, rfl, rfl⟩

theorem nodup_outlets (wellFormed : graph.WellFormed) : graph.outlets.Nodup := by
  refine List.nodup_flatMap.2 ⟨fun operator _ => ?_, ?_⟩
  · exact List.nodup_range.map fun _ _ same => congrArg Terminal.index same
  · refine (List.pairwise_map.1 wellFormed.nodup_operatorIds).imp fun differ => ?_
    rw [Function.onFun, List.disjoint_left]
    intro source isFirst isSecond
    obtain ⟨_, -, rfl⟩ := List.mem_map.1 isFirst
    obtain ⟨_, -, same⟩ := List.mem_map.1 isSecond
    exact differ (congrArg Terminal.operator same).symm

theorem mem_suppliers {source target : Terminal} :
    source ∈ graph.suppliers target ↔ graph.Wired source target := by
  rw [suppliers, List.mem_filter, decide_eq_true_eq]
  refine and_iff_right_of_imp fun wired => ?_
  obtain ⟨output, _, isAt, -⟩ := wired
  exact mem_outlets.2 ⟨output, isAt⟩

end Graph

namespace Estimates

variable {ν : Type}

/-- The estimate at an output of an operator. -/
def at? (estimates : Estimates ν) (graph : Graph) (source : Terminal) : Option ν :=
  match graph.outputAt source.operator source.index with
  | .ok output => estimates.output? output
  | .error _ => none

variable {estimates : Estimates ν} {graph : Graph}

theorem at?_of_portAt (wellFormed : graph.WellFormed) {source : Terminal} {output : PortId}
    (isAt : graph.PortAt .output source output) :
    estimates.at? graph source = estimates.output? output := by
  rw [at?, Graph.outputAt_of_portAt wellFormed isAt]

/-- The suppliers of an input are its producers. -/
theorem perm_suppliers (wellFormed : graph.WellFormed) {target : Terminal} {input : PortId}
    (isAt : graph.PortAt .input target input) :
    ((graph.suppliers target).map (estimates.at? graph)).Perm
      ((graph.producers input).map estimates.output?) := by
  have located : ∀ source, ∃ output, source ∈ graph.outlets → graph.PortAt .output source output := by
    intro source
    by_cases isOutlet : source ∈ graph.outlets
    · obtain ⟨output, isAt⟩ := Graph.mem_outlets.1 isOutlet
      exact ⟨output, fun _ => isAt⟩
    · exact ⟨input, fun also => absurd also isOutlet⟩
  choose port portAt using located
  have inOutlets : ∀ source ∈ graph.suppliers target, source ∈ graph.outlets :=
    fun source supplies => (List.mem_filter.1 supplies).1
  have ports : ((graph.suppliers target).map port).Perm (graph.producers input) := by
    refine (List.perm_ext_iff_of_nodup ?_ (graph.nodup_producers input)).2 fun output => ?_
    · refine List.Nodup.map_on (fun left isLeft right isRight same => ?_)
        ((Graph.nodup_outlets wellFormed).filter _)
      exact wellFormed.portAt_unique (portAt left (inOutlets left isLeft))
        (same ▸ portAt right (inOutlets right isRight))
    · rw [List.mem_map, Graph.mem_producers]
      constructor
      · rintro ⟨source, supplies, rfl⟩
        obtain ⟨output, entry, outputAt, entryAt, isEdge⟩ := Graph.mem_suppliers.1 supplies
        rw [wellFormed.portAt_functional (portAt source (inOutlets source supplies)) outputAt,
          wellFormed.portAt_functional isAt entryAt]
        exact isEdge
      · intro isEdge
        obtain ⟨operator, member, owned⟩ := wellFormed.sources _ isEdge
        obtain ⟨index, bound, same⟩ := List.mem_iff_getElem.1 owned
        have outputAt : graph.PortAt .output ⟨operator.id, index⟩ output :=
          ⟨operator, member, rfl, List.getElem?_eq_some_iff.2 ⟨bound, same⟩⟩
        have supplies := Graph.mem_suppliers.2 ⟨output, input, outputAt, isAt, isEdge⟩
        exact ⟨_, supplies, wellFormed.portAt_functional (portAt _ (inOutlets _ supplies)) outputAt⟩
  refine List.Perm.trans (List.Perm.of_eq ?_) (ports.map estimates.output?)
  rw [List.map_map]
  exact List.map_congr_left fun source supplies =>
    at?_of_portAt wellFormed (portAt source (inOutlets source supplies))

end Estimates

/-- What feeds the markers for which a port stands, once for each of them. -/
def StagePort.inflow (port : StagePort) (graph : Graph) : List Terminal :=
  port.origins.toList.flatMap fun origin => graph.suppliers ⟨origin, 0⟩

/-- The outputs of the graph of which copies feed an output of the stage. -/
def Stage.writers (stage : Stage) (graph : Graph) (output : StagePort) : List Terminal :=
  graph.outlets.filter fun source => stage.CopyFeeds source output

theorem StagePort.mem_inflow {port : StagePort} {graph : Graph} {source : Terminal} :
    source ∈ port.inflow graph ↔ ∃ origin ∈ port.origins, graph.Wired source ⟨origin, 0⟩ := by
  simp only [inflow, List.mem_flatMap, OrderedSet.mem_toList, Graph.mem_suppliers]

theorem Stage.mem_writers {stage : Stage} {graph : Graph} {output : StagePort} {source : Terminal} :
    source ∈ stage.writers graph output ↔ source ∈ graph.outlets ∧ stage.CopyFeeds source output := by
  rw [writers, List.mem_filter, decide_eq_true_eq]

/-- Nothing is listed twice exactly when nothing feeds two of the markers. -/
theorem StagePort.nodup_inflow_iff {port : StagePort} {graph : Graph} (wellFormed : graph.WellFormed) :
    (port.inflow graph).Nodup ↔ ∀ source, ∀ left ∈ port.origins, ∀ right ∈ port.origins,
      graph.Wired source ⟨left, 0⟩ → graph.Wired source ⟨right, 0⟩ → left = right := by
  rw [inflow, List.nodup_flatMap]
  constructor
  · rintro ⟨-, apart⟩ source left isLeft right isRight toLeft toRight
    by_contra differ
    have symmetric : Std.Symm (Function.onFun List.Disjoint fun origin =>
        graph.suppliers ⟨origin, 0⟩) := ⟨fun _ _ disjoint => List.Disjoint.symm disjoint⟩
    exact apart.forall (OrderedSet.mem_toList.2 isLeft) (OrderedSet.mem_toList.2 isRight) differ
      (Graph.mem_suppliers.2 toLeft) (Graph.mem_suppliers.2 toRight)
  · refine fun apart => ⟨fun _ _ => (Graph.nodup_outlets wellFormed).filter _,
      port.origins.nodup.pairwise_of_forall_ne fun left isLeft right isRight differ => ?_⟩
    rw [Function.onFun, List.disjoint_left]
    intro source toLeft toRight
    exact differ (apart source left (OrderedSet.mem_toList.1 isLeft) right
      (OrderedSet.mem_toList.1 isRight) (Graph.mem_suppliers.1 toLeft) (Graph.mem_suppliers.1 toRight))

/-! ### Volumes of markers -/

section Volumes

variable {ν : Type} [Volume ν] {graph : Graph} (additive : Volume.Additive ν)

include additive

/-- A port has the volume of what feeds its markers when every marker has the volume of what feeds
it. -/
theorem StagePort.volume?_eq_inflow {port : StagePort} {estimates : Estimates ν}
    (through : ∀ origin ∈ port.origins, estimates.at? graph ⟨origin, 0⟩ =
      Volume.sum? ((graph.suppliers ⟨origin, 0⟩).map (estimates.at? graph))) :
    port.volume? graph estimates = Volume.sum? ((port.inflow graph).map (estimates.at? graph)) := by
  simp only [← OrderedSet.mem_toList] at through
  change Volume.sum? (port.origins.toList.map fun origin => estimates.at? graph ⟨origin, 0⟩) = _
  rw [inflow]
  revert through
  generalize port.origins.toList = origins
  intro through
  induction origins with
  | nil => rfl
  | cons origin rest ih =>
    obtain ⟨first, others⟩ := List.forall_mem_cons.1 through
    rw [List.map_cons, additive.sum?_cons, ih others, first, List.flatMap_cons, List.map_append,
      additive.sum?_append]

/-- In a graph that is ready a marker that is no `BEGIN` has the volume of what feeds it. -/
theorem Estimator.at?_marker (ready : graph.Ready) (single : graph.SinglePortMarkers)
    (estimator : Estimator) {operator : Operator} (member : operator ∈ graph.operators)
    (isMarker : operator.isMarker = true) (notBegin : operator.isMarkerOf .begin = false) :
    (estimator.estimate graph : Estimates ν).at? graph ⟨operator.id, 0⟩ =
      Volume.sum? ((graph.suppliers ⟨operator.id, 0⟩).map
        ((estimator.estimate graph : Estimates ν).at? graph)) := by
  obtain ⟨oneInput, oneOutput⟩ := single operator member isMarker
  obtain ⟨input, inputs⟩ := List.length_eq_one_iff.1 oneInput
  obtain ⟨output, outputs⟩ := List.length_eq_one_iff.1 oneOutput
  have inputAt : graph.PortAt .input ⟨operator.id, 0⟩ input.id :=
    ⟨operator, member, rfl, by rw [Operator.portsOn, inputs]; rfl⟩
  have outputAt : graph.PortAt .output ⟨operator.id, 0⟩ output.id :=
    ⟨operator, member, rfl, by rw [Operator.portsOn, outputs]; rfl⟩
  have through : (estimator.estimate graph : Estimates ν).output? output.id =
      (estimator.estimate graph : Estimates ν).input? graph input.id := by
    cases estimator with
    | unknown => exact (Estimates.input?_unknown _ _ _).symm
    | flowing hints =>
      rw [Estimator.output?_estimate ready.wellFormed ready.acyclic member
        (by rw [outputs]; exact List.mem_singleton.2 rfl)]
      obtain ⟨marker, isKind⟩ := Option.isSome_iff_exists.1 isMarker
      have kind : operator.kind = .marker marker :=
        Operator.kind_of_isMarkerOf (decide_eq_true isKind)
      refine Estimator.outputVolume?_marker additive kind (fun same => ?_) (by rw [inputs]; rfl) _
      rw [Operator.isMarkerOf, isKind, same] at notBegin
      cases notBegin
  obtain ⟨source, isEdge⟩ := ready.fed operator member notBegin input (inputs ▸ List.mem_singleton.2 rfl)
  rw [Estimates.at?_of_portAt ready.wellFormed outputAt, through,
    Estimates.input?_of_producers (List.ne_nil_of_mem (Graph.mem_producers.2 isEdge))]
  exact (Volume.sum?_perm additive.exact
    (Estimates.perm_suppliers ready.wellFormed inputAt)).symm

end Volumes

/-! ### What is counted once -/

/-- What arrives at an output of a stage counts once for the markers for which it stands. -/
structure Stage.CountsOnce (stage : Stage) (graph : Graph) (output : StagePort) : Prop where
  /-- Nothing feeds two of the markers. -/
  apart : ∀ source, ∀ left ∈ output.origins, ∀ right ∈ output.origins,
    graph.Wired source ⟨left, 0⟩ → graph.Wired source ⟨right, 0⟩ → left = right
  /-- None of the markers feeds another one. -/
  closing : ∀ left ∈ output.origins, ∀ right ∈ output.origins, ¬ graph.Feeds left right
  /-- An input that feeds the output does so for one marker only, of which its own one is a copy. -/
  passing : ∀ input ∈ stage.inputs, stage.graph.Feeds input.marker output.marker →
    ∀ marker ∈ input.origins, ∀ origin ∈ output.origins, graph.Feeds marker origin →
      ⟨input.marker, marker⟩ ∈ stage.provenance

/-- No other output of the plan stands for one of the markers for which an output stands. -/
def Plan.Alone (plan : Plan) (output : StagePort) : Prop :=
  ∀ stage ∈ plan.stages, ∀ other ∈ stage.outputs, other.Meets output → other.id = output.id

instance (plan : Plan) (output : StagePort) : Decidable (plan.Alone output) :=
  List.decidableBAll _ plan.stages

namespace Graph.SinglePortMarkers

variable {graph : Graph} (single : graph.SinglePortMarkers) (wellFormed : graph.WellFormed)

include single wellFormed

/-- What feeds a marker is wired to its one input. -/
theorem exists_wired {source marker : OperatorId} (isMarker : graph.isMarker marker = true)
    (feeds : graph.Feeds source marker) : ∃ exit, graph.Wired ⟨source, exit⟩ ⟨marker, 0⟩ := by
  obtain ⟨exit, entry, wired⟩ := feeds
  obtain ⟨_, _, -, entryAt, -⟩ := id wired
  obtain rfl : entry = 0 := single.index_eq_zero wellFormed isMarker entryAt
  exact ⟨exit, wired⟩

/-- A marker that feeds another one does so by their only ports. -/
theorem wired_of_feeds {source marker : OperatorId} (isMarker : graph.isMarker marker = true)
    (sourceMarker : graph.isMarker source = true) (feeds : graph.Feeds source marker) :
    graph.Wired ⟨source, 0⟩ ⟨marker, 0⟩ := by
  obtain ⟨exit, wired⟩ := single.exists_wired wellFormed isMarker feeds
  obtain ⟨_, _, exitAt, -, -⟩ := id wired
  obtain rfl : exit = 0 := single.index_eq_zero wellFormed sourceMarker exitAt
  exact wired

/-- A marker has one output. -/
theorem eq_of_mem_outlets {source : Terminal} (isMarker : graph.isMarker source.operator = true)
    (isOutlet : source ∈ graph.outlets) : source = ⟨source.operator, 0⟩ := by
  obtain ⟨_, isAt⟩ := Graph.mem_outlets.1 isOutlet
  have first := single.index_eq_zero wellFormed isMarker isAt
  cases source
  cases first
  rfl

end Graph.SinglePortMarkers

/-- A marker of which a copy feeds an output is brought in by an input that is the copy. -/
theorem Stage.Intact.exists_input_of_copyFeeds {stage : Stage} {graph : Graph}
    (intact : stage.Intact graph) (sound : stage.Sound) (wellFormed : graph.WellFormed)
    {source : Terminal} {output : StagePort} (isMarker : graph.isMarker source.operator = true)
    (feeds : stage.CopyFeeds source output) :
    ∃ input ∈ stage.inputs, source.operator ∈ input.origins ∧
      ⟨input.marker, source.operator⟩ ∈ stage.provenance ∧
        stage.graph.Feeds input.marker output.marker := by
  obtain ⟨⟨copy, origin⟩, isPair, rfl, wired⟩ := feeds
  obtain ⟨input, isInput, atCopy, isOrigin⟩ :=
    intact.exists_input sound wellFormed isPair isMarker wired.feeds
  obtain rfl : input.marker = copy := atCopy
  exact ⟨input, isInput, isOrigin, isPair, wired.feeds⟩

theorem Operator.marker_of_checkpoint (operator : Operator)
    (isCheckpoint : operator.isMarkerOf .checkpoint = true) :
    operator.isMarker = true ∧ operator.isMarkerOf .begin = false := by
  have kind : operator.marker? = some .checkpoint := of_decide_eq_true isCheckpoint
  rw [isMarker, isMarkerOf, kind]
  exact ⟨rfl, rfl⟩

namespace Plan.Conveys

variable {plan : Plan} {graph : Graph} (conveys : plan.Conveys graph) (ready : graph.Ready)
  (single : graph.SinglePortMarkers)

include conveys ready single

/-- Every marker but a `BEGIN` has an output that stands for it. -/
theorem exists_output : ∀ marker ∈ graph.operators, marker.isMarker = true →
    marker.isMarkerOf .begin = false →
      ∃ stage ∈ plan.stages, ∃ output ∈ stage.outputs, marker.id ∈ output.origins := by
  -- A checkpoint that was dissolved leaves its origins to the outputs for what feeds it.
  refine ready.acyclic.induction _ fun marker member before isMarker notBegin => ?_
  have known := (Graph.holds_id ready.wellFormed member).trans isMarker
  obtain ⟨oneInput, -⟩ := single marker member isMarker
  obtain ⟨input, inputs⟩ := List.length_eq_one_iff.1 oneInput
  have owned : input ∈ marker.inputs := inputs ▸ List.mem_singleton.2 rfl
  obtain ⟨source, isEdge⟩ := ready.fed marker member notBegin input owned
  obtain ⟨producer, isProducer, gives⟩ := ready.wellFormed.sources _ isEdge
  have feeds : graph.Feeds producer.id marker.id := Graph.feeds_iff_exists_edge.2
    ⟨_, _, isEdge, ⟨producer, isProducer, rfl, gives⟩, marker, member, rfl, List.mem_map_of_mem owned⟩
  rcases graph.isMarker_eq_true_or producer.id with alsoMarker | noMarker
  · rcases conveys.markers producer.id marker.id alsoMarker known feeds with
      ⟨stage, isStage, output, isOutput, isOrigin, -⟩ | ⟨isCheckpoint, joins⟩
    · exact ⟨stage, isStage, output, isOutput, isOrigin⟩
    · rw [Graph.isMarkerOf, Graph.holds_id ready.wellFormed isProducer] at isCheckpoint
      obtain ⟨isMarker, notBegin⟩ := producer.marker_of_checkpoint isCheckpoint
      obtain ⟨stage, isStage, output, isOutput, standsFor⟩ :=
        before producer isProducer feeds isMarker notBegin
      exact ⟨stage, isStage, output, isOutput, joins stage isStage output isOutput standsFor⟩
  · obtain ⟨exit, wired⟩ := single.exists_wired ready.wellFormed known feeds
    obtain ⟨stage, isStage, output, isOutput, isOrigin, -⟩ :=
      conveys.operators ⟨producer.id, exit⟩ marker.id noMarker known wired
    exact ⟨stage, isStage, output, isOutput, isOrigin⟩

variable (sound : plan.Sound) (intact : plan.Intact graph) (agrees : plan.Agrees graph)
  {stage : Stage} {output : StagePort} (isStage : stage ∈ plan.stages)
  (isOutput : output ∈ stage.outputs)

include sound intact agrees isStage isOutput

/-- What arrives at an output that counts it once feeds one of its markers. -/
theorem mem_inflow (counts : stage.CountsOnce graph output) {source : Terminal}
    (writes : source ∈ stage.writers graph output) : source ∈ output.inflow graph := by
  obtain ⟨isOutlet, feeds⟩ := Stage.mem_writers.1 writes
  have traceable := conveys.stages stage isStage
  rcases graph.isMarker_eq_true_or source.operator with isMarker | noMarker
  · obtain ⟨input, isInput, -, isCopy, brings⟩ := (intact stage isStage).exists_input_of_copyFeeds
      (sound.stages stage isStage) ready.wellFormed isMarker feeds
    obtain ⟨marker, listed, origin, isOrigin, leads⟩ :=
      traceable.forwarded input isInput output isOutput brings
    have alsoCopy := counts.passing input isInput brings marker listed origin isOrigin leads
    have samePair := List.inj_on_of_nodup_map (intact stage isStage).copies isCopy alsoCopy rfl
    obtain rfl : source.operator = marker := congrArg CopiedPair.source samePair
    have originMarker :=
      agrees.isMarker_origin sound isStage (List.mem_append_right _ isOutput) isOrigin
    refine StagePort.mem_inflow.2 ⟨origin, isOrigin, ?_⟩
    rw [single.eq_of_mem_outlets ready.wellFormed isMarker isOutlet]
    exact single.wired_of_feeds ready.wellFormed originMarker isMarker leads
  · exact StagePort.mem_inflow.2 (traceable.written output isOutput source noMarker feeds)

variable (distinct : plan.DistinctPorts) (alone : plan.Alone output)

include distinct alone

omit intact in
/-- What feeds a marker of an output that is the only one for it arrives at the output. -/
theorem mem_writers (counts : stage.CountsOnce graph output) {source : Terminal}
    (flows : source ∈ output.inflow graph) : source ∈ stage.writers graph output := by
  obtain ⟨origin, isOrigin, wired⟩ := StagePort.mem_inflow.1 flows
  have isOutlet := (List.mem_filter.1 (Graph.mem_suppliers.2 wired)).1
  have originMarker := agrees.isMarker_origin sound isStage (List.mem_append_right _ isOutput) isOrigin
  have only : ∀ other ∈ plan.stages, ∀ port ∈ other.outputs, origin ∈ port.origins →
      other = stage ∧ port = output := by
    intro other isOther port isPort alsoOrigin
    have sameId := alone other isOther port isPort ⟨origin, alsoOrigin, isOrigin⟩
    obtain rfl := distinct other isOther port (List.mem_append_right _ isPort) stage isStage output
      (List.mem_append_right _ isOutput) sameId
    exact ⟨rfl, (sound.stages other isOther).proper.port_unique_of_id (List.mem_append_right _ isPort)
      (List.mem_append_right _ isOutput) sameId⟩
  refine Stage.mem_writers.2 ⟨isOutlet, ?_⟩
  rcases graph.isMarker_eq_true_or source.operator with isMarker | noMarker
  · rcases conveys.markers source.operator origin isMarker originMarker wired.feeds with
      ⟨other, isOther, port, isPort, alsoOrigin, input, isInput, listed, brings⟩ | ⟨isCheckpoint, joins⟩
    · obtain ⟨rfl, rfl⟩ := only other isOther port isPort alsoOrigin
      have isCopy := counts.passing input isInput brings _ listed origin isOrigin wired.feeds
      rw [single.eq_of_mem_outlets ready.wellFormed isMarker isOutlet]
      obtain ⟨exit, entry, copied⟩ := brings
      obtain rfl := (sound.stages other isOther).wired_output_index (List.mem_append_left _ isInput) copied
      obtain rfl := (sound.stages other isOther).wired_input_index (List.mem_append_right _ isPort) copied
      exact ⟨_, isCopy, rfl, copied⟩
    · -- The checkpoint has an output, which is the one here, so it is among the markers itself.
      obtain ⟨operator, member, same, isKind⟩ := (Graph.holds_iff ready.wellFormed).1 isCheckpoint
      obtain ⟨isMarker, notBegin⟩ := operator.marker_of_checkpoint isKind
      obtain ⟨other, isOther, port, isPort, standsFor⟩ :=
        conveys.exists_output ready single operator member isMarker notBegin
      rw [same] at standsFor
      obtain ⟨rfl, rfl⟩ := only other isOther port isPort (joins other isOther port isPort standsFor)
      exact absurd wired.feeds (counts.closing _ standsFor origin isOrigin)
  · obtain ⟨other, isOther, port, isPort, alsoOrigin, feeds⟩ :=
      conveys.operators source origin noMarker originMarker wired
    obtain ⟨rfl, rfl⟩ := only other isOther port isPort alsoOrigin
    exact feeds

omit conveys isOutput distinct alone in
/-- Where everything that feeds the markers arrives at the output as often, it is counted once. -/
theorem countsOnce (circuitless : Circuitless plan.dependencies.Depends) (isOutput : output ∈ stage.outputs)
    (same : (output.inflow graph).Perm (stage.writers graph output)) :
    stage.CountsOnce graph output := by
  have isMarker : ∀ origin ∈ output.origins, graph.isMarker origin = true := fun origin =>
    agrees.isMarker_origin sound isStage (List.mem_append_right _ isOutput)
  -- A marker that feeds one of the markers arrives as the copy that an input is.
  have brought : ∀ marker, graph.isMarker marker = true → ∀ origin ∈ output.origins,
      graph.Feeds marker origin → ∃ input ∈ stage.inputs, marker ∈ input.origins ∧
        ⟨input.marker, marker⟩ ∈ stage.provenance := by
    intro marker alsoMarker origin isOrigin feeds
    have wired := single.wired_of_feeds ready.wellFormed (isMarker origin isOrigin) alsoMarker feeds
    have writes := same.mem_iff.1 (StagePort.mem_inflow.2 ⟨origin, isOrigin, wired⟩)
    obtain ⟨input, isInput, listed, isCopy, -⟩ := (intact stage isStage).exists_input_of_copyFeeds
      (sound.stages stage isStage) ready.wellFormed alsoMarker (Stage.mem_writers.1 writes).2
    exact ⟨input, isInput, listed, isCopy⟩
  refine ⟨fun source left isLeft right isRight toLeft toRight => ?_,
    fun left isLeft right isRight feeds => ?_,
    fun input isInput brings marker listed origin isOrigin feeds => ?_⟩
  · exact (StagePort.nodup_inflow_iff ready.wellFormed).1
      (same.nodup_iff.2 ((Graph.nodup_outlets ready.wellFormed).filter _))
      source left isLeft right isRight toLeft toRight
  · obtain ⟨input, isInput, listed, -⟩ := brought left (isMarker left isLeft) right isRight feeds
    exact circuitless _ (.single (depends_of_links isStage isStage
      ⟨output, isOutput, input, isInput, left, isLeft, listed⟩))
  · have alsoMarker :=
      agrees.isMarker_origin sound isStage (List.mem_append_left stage.outputs isInput) listed
    obtain ⟨other, isOther, alsoListed, isCopy⟩ := brought marker alsoMarker origin isOrigin feeds
    obtain rfl := (intact stage isStage).apart other isOther input isInput ⟨marker, alsoListed, listed⟩
    exact isCopy

/-- What feeds the markers of an output is what arrives at it exactly when it is counted once. -/
theorem perm_iff (circuitless : Circuitless plan.dependencies.Depends) :
    (output.inflow graph).Perm (stage.writers graph output) ↔ stage.CountsOnce graph output := by
  refine ⟨countsOnce ready single sound intact agrees isStage circuitless isOutput, fun counts => ?_⟩
  exact (List.perm_ext_iff_of_nodup ((StagePort.nodup_inflow_iff ready.wellFormed).2 counts.apart)
    ((Graph.nodup_outlets ready.wellFormed).filter _)).2 fun source =>
    ⟨conveys.mem_writers ready single sound agrees isStage isOutput distinct alone counts,
      conveys.mem_inflow ready single sound intact agrees isStage isOutput counts⟩

end Plan.Conveys

/-! ### Plans -/

/-- Where everything leads to an `END`, a staged graph conveys what feeds its markers, and the records
of the stages fit together. -/
theorem Graph.Staging.conveys {graph : Graph} {equivalence : Equivalence} {plan : Plan}
    (staging : graph.Staging equivalence plan) (regular : graph.Regular) (identified : graph.Identified)
    (leadsToEnd : graph.LeadsToEnd) : plan.Conveys graph ∧ plan.Intact graph := by
  have circuitless := staging.merging.mergedPlan.circuitless
  have mergedIntact := staging.merging.intact regular.singlePorts
  have serials : (graph.operators.map Operator.serial).Nodup :=
    regular.wellFormed.nodup_operators.map_on fun left isLeft right isRight =>
      regular.serials left isLeft right isRight
  have settled := Plan.conveys_of_steps staging.mergedSound circuitless
    (staging.merging.faithful serials) (staging.merging.agrees identified) mergedIntact regular.wellFormed
    leadsToEnd (staging.merging.conveys regular.singlePorts) staging.steps
  refine ⟨settled.of_finished staging.settledSound staging.same, fun stage isStage => ?_⟩
  obtain ⟨old, isOld, rfl⟩ := List.mem_map.1 (staging.same.mem_iff.1 isStage)
  exact (Plan.intact_of_steps staging.mergedSound mergedIntact staging.steps old isOld).pruneProvenance
    (staging.settledSound.stages old isOld)

namespace Planner

variable {ν : Type} [Volume ν] (planner : Planner ν) {document : Document} {named : NamedGraph}
  {annotated : AnnotatedPlan ν} {prepared : Graph}

/-- What is known about a plan and the graph from which it came about. -/
theorem exists_ready_staging (described : document.build = .ok named)
    (standard : planner.simplifier = .standard) (exact : Volume.Exact ν)
    (planning : planner.Planning named.graph annotated prepared) :
    prepared.Ready ∧ prepared.Regular ∧ prepared.Identified ∧ prepared.LeadsToEnd ∧
      Nonempty (prepared.Staging planner.equivalence annotated.plan) := by
  have tame : planner.simplifier.Tame := standard ▸ Simplifier.tame_ofRules _
  obtain ⟨report, isPrepared⟩ := planning.isPrepared
  obtain ⟨regular, identified⟩ := planner.regular_of_prepare described tame isPrepared
  obtain ⟨prepares⟩ := planner.exists_prepares standard (Document.framed_build described) isPrepared
  exact ⟨prepares.ready (.inr exact), regular, identified,
    planner.prepare_leadsToEnd described standard (.inr exact) isPrepared,
    planner.exists_staging described tame planning⟩

section Sized

variable (described : document.build = .ok named) (standard : planner.simplifier = .standard)
  (estimates : planner.isEnabled .sizeEstimation = true) (additive : Volume.Additive ν)
  (succeeds : planner.plan.apply named.graph = (.ok annotated, prepared)) {stage : Stage}
  (isStage : stage ∈ annotated.plan.stages) {output : StagePort} (isOutput : output ∈ stage.outputs)

include described standard estimates additive succeeds isStage isOutput

/-- The size of an output is the sum over what feeds the markers for which it stands. -/
theorem size_eq_inflow : (annotated.notes.port output.id).size =
    some (Volume.sum? ((output.inflow prepared).map
      ((planner.estimator.estimate prepared).at? prepared))) := by
  have tame : planner.simplifier.Tame := standard ▸ Simplifier.tame_ofRules _
  have planning := planner.exists_planning succeeds
  obtain ⟨ready, regular, identified, -, ⟨staging⟩⟩ :=
    planner.exists_ready_staging described standard additive.exact planning
  have agrees := staging.agrees identified
  have isPort := List.mem_append_right stage.inputs isOutput
  obtain ⟨order, isOrder⟩ := Plan.exists_order staging.circuitless
  rw [planner.size_of_decorate staging.sound staging.distinctPorts isOrder estimates
    planning.isDecorated isStage isPort]
  refine congrArg some (StagePort.volume?_eq_inflow additive fun origin isOrigin => ?_)
  obtain ⟨operator, member, rfl, isMarker⟩ := (Graph.holds_iff ready.wellFormed).1
    (agrees.isMarker_origin staging.sound isStage isPort isOrigin)
  refine planner.estimator.at?_marker additive ready regular.singlePorts member isMarker ?_
  -- The output has a role, which a `BEGIN` has not.
  obtain ⟨role, isRole, -⟩ :=
    (planner.tellsRoles_of_planning described tame planning).outputs stage isStage output isOutput
  obtain ⟨marker, isKind, distributed, -⟩ := Stage.outputRole_eq_ok.1 isRole
  refine Bool.eq_false_iff.2 fun isBegin => ?_
  have begins := (agrees.isMarkerOf_iff isStage isPort isOrigin).1
    ((Graph.holds_id ready.wellFormed member).trans isBegin)
  obtain rfl := Option.some.inj (isKind.symm.trans begins)
  cases distributed

variable (alone : annotated.plan.Alone output)

include alone

/-- The size of an output is the sum over what feeds the markers for which it stands. If no other
output stands for one of them, what feeds them is what arrives at the output in its stage exactly when
that is counted once, and then it has the size of what arrives. -/
theorem plan_output_size :
    (annotated.notes.port output.id).size = some (Volume.sum? ((output.inflow prepared).map
      ((planner.estimator.estimate prepared).at? prepared))) ∧
    ((output.inflow prepared).Perm (stage.writers prepared output) ↔
      stage.CountsOnce prepared output) ∧
    (stage.CountsOnce prepared output →
      (annotated.notes.port output.id).size = some (Volume.sum? ((stage.writers prepared output).map
        ((planner.estimator.estimate prepared).at? prepared)))) := by
  have planning := planner.exists_planning succeeds
  obtain ⟨ready, regular, identified, leadsToEnd, ⟨staging⟩⟩ :=
    planner.exists_ready_staging described standard additive.exact planning
  obtain ⟨conveys, intact⟩ := staging.conveys regular identified leadsToEnd
  have counted := conveys.perm_iff ready regular.singlePorts staging.sound intact
    (staging.agrees identified) isStage isOutput staging.distinctPorts alone staging.circuitless
  have sized :=
    planner.size_eq_inflow described standard estimates additive succeeds isStage isOutput
  refine ⟨sized, counted, fun counts => sized.trans (congrArg some ?_)⟩
  exact Volume.sum?_perm additive.exact ((counted.2 counts).map _)

end Sized

/-- The rates of the sample in which sales are joined are written once, and have their size. -/
theorem plan_output_size_joinSample : ∃ named annotated prepared, joinSample.build = .ok named ∧
    ({ config := .standard } : Planner Nat).plan.apply named.graph = (.ok annotated, prepared) ∧
    ∃ stage ∈ annotated.plan.stages, ∃ output ∈ stage.outputs, annotated.plan.Alone output ∧
      (annotated.notes.port output.id).size = some (some 512) ∧
        stage.CountsOnce prepared output := by
  let planner : Planner Nat := { config := .standard }
  obtain ⟨named, described⟩ := exists_of_isOk (by decide +kernel : joinSample.build.isOk = true)
  have computed : (joinSample.build >>= fun named =>
      let planned := ({ config := .standard } : Planner Nat).plan.apply named.graph
      planned.1.map fun annotated => annotated.plan.stages.any fun stage =>
        stage.outputs.any fun output => annotated.plan.Alone output ∧
          Volume.sum? ((output.inflow planned.2).map
            (((.flowing [] : Estimator).estimate planned.2 : Estimates Nat).at? planned.2)) = some 512 ∧
          (output.inflow planned.2).Perm (stage.writers planned.2 output)).toOption = some true := by
    simp only [plan, planPrepared, Planner.stage, Plan.groups_eq_groupsSoon]
    decide +kernel
  rw [described] at computed
  obtain ⟨annotated, isPlanned, found⟩ := exists_of_map_toOption computed
  obtain ⟨stage, isStage, anyOutput⟩ := List.any_eq_true.1 found
  obtain ⟨output, isOutput, holds⟩ := List.any_eq_true.1 anyOutput
  obtain ⟨alone, known, same⟩ := of_decide_eq_true holds
  have sizes := plan_output_size planner described rfl rfl Volume.additive_nat (Prod.ext isPlanned rfl)
    isStage isOutput alone
  exact ⟨named, annotated, _, described, Prod.ext isPlanned rfl, stage, isStage, output, isOutput, alone,
    sizes.1.trans (congrArg some known), sizes.2.1.1 same⟩

/-- The rows of `x`, of known size, are grouped twice by the same key. -/
def regroupSample : Document :=
  let rows : TypeDefinition := .named "row"
  let result : List PortDefinition := [{ name := "o", type := rows }]
  let keyed : List PortDefinition := [{ name := "a", type := rows, group := ["k"] }]
  { operators := [
      { id := "in", kind := "input", type := some rows, size := some 1000 },
      { id := "x", kind := "extract", outputs := result, inputs := [{ name := "a", type := rows }] },
      { id := "g", kind := "co_group", outputs := result, inputs := keyed },
      { id := "h", kind := "co_group", outputs := result, inputs := keyed },
      { id := "first", kind := "output", type := some rows },
      { id := "second", kind := "output", type := some rows }]
    edges := [⟨"in", "x"⟩, ⟨"x", "g"⟩, ⟨"x", "h"⟩, ⟨"g", "first"⟩, ⟨"h", "second"⟩] }

/-- Uniting outputs may count data twice: what is written once for both groupings has the size of one
of them for each. -/
theorem not_plan_output_size : ∃ named annotated prepared, regroupSample.build = .ok named ∧
    ({ config := .standard } : Planner Nat).plan.apply named.graph = (.ok annotated, prepared) ∧
    ∃ stage ∈ annotated.plan.stages, ∃ output ∈ stage.outputs, annotated.plan.Alone output ∧
      (annotated.notes.port output.id).size = some (some 2000) ∧
      Volume.sum? ((stage.writers prepared output).map
        ((({ config := .standard } : Planner Nat).estimator.estimate prepared).at? prepared)) =
          some 1000 := by
  obtain ⟨named, described⟩ := exists_of_isOk (by decide +kernel : regroupSample.build.isOk = true)
  have computed : (regroupSample.build >>= fun named =>
      let planned := ({ config := .standard } : Planner Nat).plan.apply named.graph
      let estimates : Estimates Nat := (.flowing [] : Estimator).estimate planned.2
      planned.1.map fun annotated => annotated.plan.stages.any fun stage =>
        stage.outputs.any fun output => annotated.plan.Alone output ∧
          Volume.sum? ((output.inflow planned.2).map (estimates.at? planned.2)) = some 2000 ∧
          Volume.sum? ((stage.writers planned.2 output).map (estimates.at? planned.2)) =
            some 1000).toOption = some true := by
    simp only [plan, prepare, fixUnits, Edit.fixAllUnits_eq, planPrepared, Planner.stage,
      Plan.groups_eq_groupsSoon]
    decide +kernel
  rw [described] at computed
  obtain ⟨annotated, isPlanned, found⟩ := exists_of_map_toOption computed
  obtain ⟨stage, isStage, anyOutput⟩ := List.any_eq_true.1 found
  obtain ⟨output, isOutput, holds⟩ := List.any_eq_true.1 anyOutput
  obtain ⟨alone, counted, written⟩ := of_decide_eq_true holds
  have sized := size_eq_inflow { config := .standard } described rfl rfl Volume.additive_nat
    (Prod.ext isPlanned rfl) isStage isOutput
  exact ⟨named, annotated, _, described, Prod.ext isPlanned rfl, stage, isStage, output, isOutput, alone,
    sized.trans (congrArg some counted), written⟩

end Planner

end StagePlanner
