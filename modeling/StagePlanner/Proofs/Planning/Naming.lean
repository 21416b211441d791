import StagePlanner.Proofs.Annotation.Description
import StagePlanner.Proofs.Annotation.Naming
import StagePlanner.Proofs.Assembly.Integrity
import StagePlanner.Proofs.Assembly.Thinning
import StagePlanner.Proofs.Planning.Staging
import StagePlanner.Proofs.Preparation.Readiness
import StagePlanner.Proofs.Preparation.Sequence

/-!
# Names of planned stages

Names follow an order by serial numbers, while the stages and ports of a plan stand in the order in
which assembly has left them. For plans of documents both are the same: a cut lists its markers by
identifiers, markers are in step with their serial numbers (`Graph.InStep`), copies keep these
numbers, and assembly thins the ports out without moving any. The stages stand in the very order that
names them. So everything is named after its place (`AnnotatedPlan.Canonical`).

A description lists the ports of a stage by their names once more, this time as texts. Up to ten ports
that is the order of their places (`inPlace_sortedPorts_iff`); the name of place ten comes before the
one of place two.
-/

namespace StagePlanner

namespace Stage

/-- The first marker of the stage is older than the second one. -/
def Older (stage : Stage) (left right : OperatorId) : Prop :=
  ∃ first second, stage.graph.operator? left = some first ∧
    stage.graph.operator? right = some second ∧ first.serial.index < second.serial.index

/-- Ports that stand in the order of their markers' ages are numbered as they stand. -/
theorem numbered_eq {stage : Stage} {ports : List StagePort}
    (older : (ports.map StagePort.marker).Pairwise stage.Older) : stage.numbered ports = ports := by
  refine List.mergeSort_of_pairwise ((List.pairwise_map.1 older).imp fun {left right} before => ?_)
  obtain ⟨first, second, isFirst, isSecond, smaller⟩ := before
  have serials : compare (some first.serial) (some second.serial) = .lt := by
    change compare first.serial second.serial = .lt
    rw [Id.compare_eq, Nat.compare_eq_lt]
    exact smaller
  simp [portPrecedes, operator?, isFirst, isSecond, serials]

/-- Copies of markers are as old as their originals, so ports that stand in the order of their
originals stand in the order of their ages. -/
theorem Realizes.older {stage : Stage} {graph : Graph} {cut : StageCut}
    (realizes : stage.Realizes graph cut) (inStep : graph.InStep) {ports : List StagePort}
    {markers : OrderedSet OperatorId}
    (paired : List.Forall₂ (StagePort.StandsFor stage.provenance) ports markers.toList)
    (areMarkers : ∀ id ∈ markers, graph.isMarker id = true) :
    (ports.map StagePort.marker).Pairwise stage.Older := by
  have wellFormed := inStep.regular.wellFormed
  have exists_marker : ∀ {port : StagePort} {id : OperatorId}, id ∈ markers.toList →
      port.StandsFor stage.provenance id → ∃ copy, stage.graph.operator? port.marker = some copy ∧
        ∃ original ∈ graph.operators, original.id = id ∧ original.isMarker = true ∧
          copy.serial = original.serial := by
    intro port id member standsFor
    obtain ⟨copy, isCopy, original, isOriginal, copyId, rfl, alike⟩ := realizes.alike _ standsFor.2
    have isMarker := areMarkers _ member
    rw [Graph.isMarker, Graph.holds_id wellFormed isOriginal] at isMarker
    exact ⟨copy, realizes.wellFormed.operator?_eq_some_iff.2 ⟨isCopy, copyId⟩, original, isOriginal,
      rfl, isMarker, Option.some.inj (congrArg Blueprint.serial alike)⟩
  refine List.pairwise_map.2 (pairwise_of_partners paired (List.Pairwise.and_mem.1 markers.ascending) ?_)
  rintro left right _ _ standsLeft standsRight ⟨isLeft, isRight, before⟩
  obtain ⟨first, isFirst, older, isOlder, rfl, olderMarker, sameFirst⟩ := exists_marker isLeft standsLeft
  obtain ⟨second, isSecond, younger, isYounger, rfl, youngerMarker, sameSecond⟩ :=
    exists_marker isRight standsRight
  rw [Id.compare_eq, Nat.compare_eq_lt] at before
  refine ⟨first, second, isFirst, isSecond, ?_⟩
  rw [sameFirst, sameSecond]
  exact inStep.markers older isOlder younger isYounger olderMarker youngerMarker before

/-- What is left of a stage has its markers, and they are as old as they were. -/
theorem Derives.older {result stage : Stage} (derives : result.Derives stage)
    (resultSound : result.Sound) (sound : stage.Sound) {ports formers : List StagePort}
    (arePorts : ∀ port ∈ ports, port ∈ result.ports)
    (thins : (ports.map StagePort.marker).Sublist (formers.map StagePort.marker))
    (older : (formers.map StagePort.marker).Pairwise stage.Older) :
    (ports.map StagePort.marker).Pairwise result.Older := by
  refine (older.sublist thins).imp_of_mem fun {left right} isLeft isRight before => ?_
  obtain ⟨port, isPort, rfl⟩ := List.mem_map.1 isLeft
  obtain ⟨other, isOther, rfl⟩ := List.mem_map.1 isRight
  obtain ⟨first, second, isFirst, isSecond, smaller⟩ := before
  exact ⟨first, second,
    (derives.operator?_port resultSound sound (arePorts port isPort) rfl).trans isFirst,
    (derives.operator?_port resultSound sound (arePorts other isOther) rfl).trans isSecond, smaller⟩

end Stage

namespace Graph.Staging

variable {graph : Graph} {equivalence : Equivalence} {plan : Plan}
  (staging : graph.Staging equivalence plan)

include staging

theorem addressable : plan.Addressable :=
  ⟨staging.sound.distinct, staging.sound.nodup_portIds staging.distinctPorts⟩

theorem thins : plan.Thins staging.merged := by
  refine Plan.Thins.trans (fun new isNew => ?_)
    ((Plan.thinning_assemblyRound .all equivalence).settle _ _ staging.isSettled)
  obtain ⟨old, isOld, rfl⟩ := List.mem_map.1 (staging.same.mem_iff.1 isNew)
  exact ⟨old, isOld, rfl, .refl _, .refl _⟩

/-- Every port is numbered as it stands. -/
theorem numbered_eq (inStep : graph.InStep) {stage : Stage} (isStage : stage ∈ plan.stages) :
    stage.numbered stage.inputs = stage.inputs ∧ stage.numbered stage.outputs = stage.outputs := by
  obtain ⟨old, isOld, descends⟩ := staging.descends stage isStage
  obtain ⟨former, isFormer, thins⟩ := staging.thins stage isStage
  obtain rfl := Plan.stage_unique staging.mergedSound.distinct isOld isFormer
    (descends.id.symm.trans thins.id)
  have sound := staging.sound.stages stage isStage
  have oldSound := staging.mergedSound.stages old isOld
  have mergedPlan := staging.merging.mergedPlan
  obtain ⟨cut, isCut, realizes⟩ := exists_partner_of_mem mergedPlan.built.realized isOld
  have cutSound := mergedPlan.sound cut isCut
  exact ⟨Stage.numbered_eq (descends.older sound oldSound (fun _ => List.mem_append_left _) thins.inputs
      (realizes.older inStep realizes.inputs fun id isInput => (cutSound.inputs id isInput).2)),
    Stage.numbered_eq (descends.older sound oldSound (fun _ => List.mem_append_right _) thins.outputs
      (realizes.older inStep realizes.outputs fun id isOutput => (cutSound.outputs id isOutput).2))⟩

end Graph.Staging

/-! ### Names along an order -/

namespace Plan

variable {plan : Plan} {order : List StageId}

/-- Every connection leads from a stage to one that comes later. -/
def LeadsForward (plan : Plan) (order : List StageId) : Prop :=
  ∀ connection ∈ plan.connections, ∃ place later : Nat, place < later ∧
    order[place]? = some connection.source.stage ∧ order[later]? = some connection.target.stage

theorem leadsForward_of_order (distinct : plan.stageIds.Nodup) (isOrder : plan.order = .ok order) :
    plan.LeadsForward order := by
  intro connection isConnection
  have perm := perm_of_order distinct isOrder
  obtain ⟨producer, isProducer, _, _, consumer, isConsumer, _, _, _, ends⟩ :=
    mem_connections.1 isConnection
  have isSource : connection.source.stage ∈ order :=
    perm.mem_iff.2 (mem_stageIds.2 ⟨producer, isProducer, ends ▸ rfl⟩)
  have isTarget : connection.target.stage ∈ order :=
    perm.mem_iff.2 (mem_stageIds.2 ⟨consumer, isConsumer, ends ▸ rfl⟩)
  exact ⟨_, _, idxOf_lt_of_order isOrder isConnection, List.getElem?_idxOf isSource,
    List.getElem?_idxOf isTarget⟩

/-- A stage is named after its place in an order that only depends on which stages there are. -/
theorem exists_naming {ν : Type} (distinct : plan.stageIds.Nodup)
    (isOrder : plan.order = .ok order) {other : Plan} (same : other.stages.Perm plan.stages)
    (notes : Notes ν) : ∃ named, other.attachNames.apply notes = (.ok (), named) ∧
      (∀ place id, order[place]? = some id → (named.stage id).name = some (positionName "v" place)) ∧
      ∀ left ∈ plan.stageIds, ∀ right ∈ plan.stageIds,
        (named.stage left).name = (named.stage right).name → left = right := by
  have perm := perm_of_order distinct isOrder
  have isOtherOrder : other.order = .ok order := (order_of_perm distinct same).trans isOrder
  have named := apply_attachNames isOtherOrder notes
  have places : ∀ place id, order[place]? = some id → _ = some (positionName "v" place) :=
    fun place id isPlace => stage_name_of_attachNames (perm.nodup_iff.2 distinct) isOtherOrder named isPlace
  refine ⟨_, named, places, fun left isLeft right isRight sameName => ?_⟩
  obtain ⟨first, isFirst⟩ := List.mem_iff_getElem?.1 (perm.mem_iff.2 isLeft)
  obtain ⟨second, isSecond⟩ := List.mem_iff_getElem?.1 (perm.mem_iff.2 isRight)
  rw [places first left isFirst, places second right isSecond] at sameName
  obtain rfl := positionName_injective "v" (Option.some.inj sameName)
  exact Option.some.inj (isFirst.symm.trans isSecond)

end Plan

/-! ### Names of planned stages -/

/-- Stages and ports are named after their places, and every connection leads to a larger number. -/
structure AnnotatedPlan.Canonical {ν : Type} (annotated : AnnotatedPlan ν) : Prop where
  stages : ∀ place stage, annotated.plan.stages[place]? = some stage →
    (annotated.notes.stage stage.id).name = some (positionName "v" place)
  inputs : ∀ stage ∈ annotated.plan.stages, ∀ number port, stage.inputs[number]? = some port →
    (annotated.notes.port port.id).name = some (positionName "i" number)
  outputs : ∀ stage ∈ annotated.plan.stages, ∀ number port, stage.outputs[number]? = some port →
    (annotated.notes.port port.id).name = some (positionName "o" number)
  forward : annotated.plan.LeadsForward annotated.plan.stageIds

namespace Planner

variable {ν : Type} [Volume ν] (planner : Planner ν) {document : Document} {named : NamedGraph}
  {annotated : AnnotatedPlan ν} {prepared : Graph}

/-- The markers of the graph that a document is prepared to are in step. -/
theorem inStep_of_prepare (described : document.build = .ok named)
    (inStep : planner.simplifier.Preserves Graph.InStep) {report : PreparationReport}
    (isPrepared : planner.prepare.Yields named.graph report prepared) : prepared.InStep := by
  have unmarked := Document.unmarked_build described
  refine planner.inStep_prepare inStep _ _ _ isPrepared ⟨unmarked.regular, ?_⟩
  intro left isLeft _ _ isMarker
  rw [Operator.isMarker, unmarked.marker? left isLeft] at isMarker
  cases isMarker

/-- A plan of a document has the names that are attached along its own list of stages. -/
theorem names_of_plan (described : document.build = .ok named) (tame : planner.simplifier.Tame)
    (succeeds : planner.plan.apply named.graph = (.ok annotated, prepared)) :
    annotated.plan.Addressable ∧ annotated.plan.order = .ok annotated.plan.stageIds ∧
      annotated.notes.Names annotated.plan annotated.plan.stageIds := by
  obtain ⟨staging⟩ := planner.exists_staging described tame (planner.exists_planning succeeds)
  obtain ⟨roled, attached, isAttached, same⟩ := planner.exists_named_of_decorate staging.sound
    staging.distinctPorts staging.sorted (planner.exists_planning succeeds).isDecorated
  exact ⟨staging.addressable, staging.sorted,
    (staging.addressable.names_of_attachNames staging.sorted isAttached).mono same⟩

theorem canonical_of_plan (described : document.build = .ok named) (tame : planner.simplifier.Tame)
    (inStep : planner.simplifier.Preserves Graph.InStep)
    (succeeds : planner.plan.apply named.graph = (.ok annotated, prepared)) : annotated.Canonical := by
  have planning := planner.exists_planning succeeds
  obtain ⟨report, isPrepared⟩ := planning.isPrepared
  have preparedInStep := planner.inStep_of_prepare described inStep isPrepared
  obtain ⟨staging⟩ := planner.exists_staging described tame planning
  obtain ⟨addressable, sorted, names⟩ := planner.names_of_plan described tame succeeds
  refine ⟨fun place stage isPlace => ?_, fun stage isStage number port isPort => ?_,
    fun stage isStage number port isPort => ?_, Plan.leadsForward_of_order addressable.stages sorted⟩
  · exact names.stages place stage.id (by rw [Plan.stageIds, List.getElem?_map, isPlace]; rfl)
  · have numbered := (staging.numbered_eq preparedInStep isStage).1
    exact names.ports stage isStage "i" number port (.inl ⟨rfl, by rwa [numbered]⟩)
  · have numbered := (staging.numbered_eq preparedInStep isStage).2
    exact names.ports stage isStage "o" number port (.inr ⟨rfl, by rwa [numbered]⟩)

/-- In a plan of a document every stage and every port is named after its place, and connections lead
to larger numbers. In any plan without circuits the stages get distinct names along an order of
dependencies that does not depend on how they are listed. -/
theorem names_canonical :
    (∀ document named, Document.build document = .ok named → planner.simplifier.Tame →
      planner.simplifier.Preserves Graph.InStep → ∀ annotated prepared,
        planner.plan.apply named.graph = (.ok annotated, prepared) → annotated.Canonical) ∧
    ∀ plan : Plan, plan.stageIds.Nodup → Circuitless plan.dependencies.Depends →
      ∃ order : List StageId, order.Perm plan.stageIds ∧ plan.LeadsForward order ∧
        ∀ other : Plan, other.stages.Perm plan.stages → ∀ notes : Notes ν, ∃ noted,
          other.attachNames.apply notes = (.ok (), noted) ∧
          (∀ place id, order[place]? = some id →
            (noted.stage id).name = some (positionName "v" place)) ∧
          ∀ left ∈ plan.stageIds, ∀ right ∈ plan.stageIds,
            (noted.stage left).name = (noted.stage right).name → left = right := by
  refine ⟨fun document named described tame inStep annotated prepared =>
    planner.canonical_of_plan described tame inStep, fun plan distinct circuitless => ?_⟩
  obtain ⟨order, isOrder⟩ := Plan.exists_order circuitless
  exact ⟨order, Plan.perm_of_order distinct isOrder, Plan.leadsForward_of_order distinct isOrder,
    fun other same notes => Plan.exists_naming distinct isOrder same notes⟩

/-- The plan of the sample in which sales are joined has three stages and two connections; a plan in
which a stage feeds two others is named alike when its stages are listed backwards. -/
theorem names_canonical_joinSample : (∃ named annotated prepared, joinSample.build = .ok named ∧
      ({ config := .standard } : Planner Nat).plan.apply named.graph = (.ok annotated, prepared) ∧
      annotated.plan.stages.length = 3 ∧ annotated.plan.connections.size = 2 ∧
      annotated.Canonical) ∧
    ∃ order : List StageId, order.Perm Plan.sharedSample.stageIds ∧
      Plan.sharedSample.LeadsForward order ∧ ∃ noted : Notes Nat,
        ({ Plan.sharedSample with stages := Plan.sharedSample.stages.reverse } : Plan).attachNames.apply
          {} = (.ok (), noted) ∧
        ∀ place id, order[place]? = some id →
          (noted.stage id).name = some (positionName "v" place) := by
  obtain ⟨ofDocuments, ofPlans⟩ := names_canonical ({ config := .standard } : Planner Nat)
  constructor
  · obtain ⟨named, described⟩ := exists_of_isOk (by decide +kernel : joinSample.build.isOk = true)
    have computed : (joinSample.build >>= fun named =>
        (({ config := .standard } : Planner Nat).plan.apply named.graph).1.map fun annotated =>
          (annotated.plan.stages.length, annotated.plan.connections.size)).toOption =
        some (3, 2) := by
      simp only [plan, planPrepared, stage, Plan.groups_eq_groupsSoon]
      decide +kernel
    rw [described] at computed
    obtain ⟨annotated, isPlanned, counts⟩ := exists_of_map_toOption computed
    obtain ⟨three, two⟩ := Prod.mk.inj counts
    exact ⟨named, annotated, _, described, Prod.ext isPlanned rfl, three, two,
      ofDocuments _ _ described (Simplifier.tame_ofRules _) (Edit.inStep_ofRules _) _ _
        (Prod.ext isPlanned rfl)⟩
  · have isOrder : Plan.sharedSample.order = .ok [⟨0⟩, ⟨1⟩, ⟨2⟩] := by decide +kernel
    obtain ⟨order, perm, forward, isNamed⟩ := ofPlans Plan.sharedSample (by decide)
      (DependencyGraph.circuitless_of_orderBy Plan.dependencies_wellFormed (Plan.order_eq_ok.1 isOrder))
    obtain ⟨noted, named, places, -⟩ := isNamed
      { Plan.sharedSample with stages := Plan.sharedSample.stages.reverse } (List.reverse_perm _) {}
    exact ⟨order, perm, forward, noted, named, places⟩

end Planner

/-! ### Described ports -/

namespace AnnotatedPlan

variable {ν : Type}

/-- The entry at every place has the name of its place. -/
def InPlace (letter : String) (ports : List (PortDescription ν)) : Prop :=
  ∀ number port, ports[number]? = some port → port.name = positionName letter number

/-- The names of the first ten places are ascending texts. -/
theorem compare_positionName_of_lt {letter : String} (isSide : letter = "i" ∨ letter = "o")
    {number later : Nat} (single : later < 10) (before : number < later) :
    compare (positionName letter number) (positionName letter later) ≠ .gt := by
  have digits : ∀ later < 10, ∀ number < later,
      compare (positionName "i" number) (positionName "i" later) ≠ .gt ∧
        compare (positionName "o" number) (positionName "o" later) ≠ .gt := by decide
  rcases isSide with rfl | rfl
  · exact (digits later single number before).1
  · exact (digits later single number before).2

/-- As a text the name of place ten comes before the one of place two. -/
theorem compare_positionName_two_ten {letter : String} (isSide : letter = "i" ∨ letter = "o") :
    compare (positionName letter 2) (positionName letter 10) = .gt := by
  rcases isSide with rfl | rfl <;> decide

theorem pairwise_sortedPorts (ports : List (PortDescription ν)) :
    (sortedPorts ports).Pairwise fun left right => compare left.name right.name ≠ .gt := by
  refine (List.pairwise_mergeSort ?_ ?_ ports).imp of_decide_eq_true
  · intro first second third
    simp only [decide_eq_true_eq, Ordering.ne_gt_iff_isLE]
    exact Std.TransCmp.isLE_trans
  · intro left right
    rw [Std.OrientedOrd.eq_swap (a := right.name)]
    cases compare left.name right.name <;> rfl

/-- Ports that are in place stay there exactly when there are ten at most. -/
theorem inPlace_sortedPorts_iff {letter : String} (isSide : letter = "i" ∨ letter = "o")
    {ports : List (PortDescription ν)} (inPlace : InPlace letter ports) :
    InPlace letter (sortedPorts ports) ↔ ports.length ≤ 10 := by
  constructor
  · intro stays
    by_contra many
    have length := (perm_sortedPorts ports).length_eq
    have second : 2 < (sortedPorts ports).length := by omega
    have tenth : 10 < (sortedPorts ports).length := by omega
    have ascending := List.pairwise_iff_getElem.1 (pairwise_sortedPorts ports) 2 10 second tenth
      (by decide)
    rw [stays 2 _ (List.getElem?_eq_getElem second), stays 10 _ (List.getElem?_eq_getElem tenth)]
      at ascending
    exact ascending (compare_positionName_two_ten isSide)
  · intro few
    have sorted : sortedPorts ports = ports := by
      refine List.mergeSort_of_pairwise
        (List.pairwise_iff_getElem.2 fun number later isThere isLater before => ?_)
      rw [inPlace number _ (List.getElem?_eq_getElem isThere),
        inPlace later _ (List.getElem?_eq_getElem isLater)]
      exact decide_eq_true (compare_positionName_of_lt isSide (Nat.lt_of_lt_of_le isLater few) before)
    rwa [sorted]

end AnnotatedPlan

/-- A vertex has one entry for each port of a stage. The entries on a side are in place exactly when no
more than ten ports lie there. -/
structure AnnotatedPlan.Lists {ν : Type} (annotated : AnnotatedPlan ν) (stage : Stage)
    (vertex : VertexDescription ν) : Prop where
  inputs : vertex.inputs.Perm (stage.inputs.map annotated.describeInput)
  outputs : vertex.outputs.Perm (stage.outputs.map annotated.describeOutput)
  inPlaceInputs : InPlace "i" vertex.inputs ↔ stage.inputs.length ≤ 10
  inPlaceOutputs : InPlace "o" vertex.outputs ↔ stage.outputs.length ≤ 10

theorem AnnotatedPlan.Canonical.lists {ν : Type} {annotated : AnnotatedPlan ν}
    (canonical : annotated.Canonical) {stage : Stage} (isStage : stage ∈ annotated.plan.stages) :
    annotated.Lists stage (annotated.describeStage stage) := by
  have inputs : InPlace "i" (stage.inputs.map annotated.describeInput) := by
    intro number entry isEntry
    rw [List.getElem?_map, Option.map_eq_some_iff] at isEntry
    obtain ⟨port, isPort, rfl⟩ := isEntry
    exact congrArg (Option.getD · "") (canonical.inputs stage isStage number port isPort)
  have outputs : InPlace "o" (stage.outputs.map annotated.describeOutput) := by
    intro number entry isEntry
    rw [List.getElem?_map, Option.map_eq_some_iff] at isEntry
    obtain ⟨port, isPort, rfl⟩ := isEntry
    exact congrArg (Option.getD · "") (canonical.outputs stage isStage number port isPort)
  refine ⟨perm_sortedPorts _, perm_sortedPorts _, ?_, ?_⟩
  · exact (inPlace_sortedPorts_iff (.inl rfl) inputs).trans (by rw [List.length_map])
  · exact (inPlace_sortedPorts_iff (.inr rfl) outputs).trans (by rw [List.length_map])

namespace Planner

variable {ν : Type} [Volume ν] (planner : Planner ν) {document : Document} {named : NamedGraph}
  {annotated : AnnotatedPlan ν} {prepared : Graph}

/-- A plan of a document is described by one vertex for each stage, in the order of the stages, and the
entry at every place of a vertex is the one for the port that is named after that place as long as there
are no more than ten of them. From eleven ports on some entry is out of place. -/
theorem plan_lists_ports (described : document.build = .ok named) (tame : planner.simplifier.Tame)
    (inStep : planner.simplifier.Preserves Graph.InStep)
    (succeeds : planner.plan.apply named.graph = (.ok annotated, prepared)) :
    List.Forall₂ annotated.Lists annotated.plan.stages annotated.describe.vertices := by
  obtain ⟨addressable, sorted, names⟩ := planner.names_of_plan described tame succeeds
  rw [(AnnotatedPlan.labelled_of_names addressable sorted names).describe_vertices,
    List.forall₂_map_right_iff, List.forall₂_same]
  exact fun stage isStage => (planner.canonical_of_plan described tame inStep succeeds).lists isStage

/-- No stage of the sample in which sales are joined has more than ten ports on a side. -/
theorem plan_lists_ports_joinSample : ∃ named annotated prepared, joinSample.build = .ok named ∧
    ({ config := .standard } : Planner Nat).plan.apply named.graph = (.ok annotated, prepared) ∧
    annotated.describe.vertices.length = 3 ∧ ∀ vertex ∈ annotated.describe.vertices,
      AnnotatedPlan.InPlace "i" vertex.inputs ∧ AnnotatedPlan.InPlace "o" vertex.outputs := by
  obtain ⟨named, described⟩ := exists_of_isOk (by decide +kernel : joinSample.build.isOk = true)
  have computed : (joinSample.build >>= fun named =>
      (({ config := .standard } : Planner Nat).plan.apply named.graph).1.map fun annotated =>
        (annotated.plan.stages.length, annotated.plan.stages.all fun stage =>
          stage.inputs.length ≤ 10 && stage.outputs.length ≤ 10)).toOption = some (3, true) := by
    simp only [plan, planPrepared, stage, Plan.groups_eq_groupsSoon]
    decide +kernel
  rw [described] at computed
  obtain ⟨annotated, isPlanned, counts⟩ := exists_of_map_toOption computed
  obtain ⟨three, few⟩ := Prod.mk.inj counts
  have lists := plan_lists_ports ({ config := .standard } : Planner Nat) described
    (Simplifier.tame_ofRules _) (Edit.inStep_ofRules _) (Prod.ext isPlanned rfl)
  refine ⟨named, annotated, _, described, Prod.ext isPlanned rfl, lists.length_eq ▸ three, ?_⟩
  intro vertex isVertex
  obtain ⟨stage, isStage, listed⟩ := exists_partner_of_mem lists.flip isVertex
  obtain ⟨inputs, outputs⟩ : stage.inputs.length ≤ 10 ∧ stage.outputs.length ≤ 10 := by
    simpa using List.all_eq_true.1 few stage isStage
  exact ⟨listed.inPlaceInputs.2 inputs, listed.inPlaceOutputs.2 outputs⟩

/-- Eleven inputs that one extraction reads. -/
def wideSample : Document :=
  let type : TypeDefinition := .named "t"
  let numbers := List.range 11
  { operators :=
      (numbers.map fun number =>
        { id := positionName "in" number, kind := "input", type := some type }) ++
      [{ id := "x", kind := "extract", outputs := [{ name := "o", type }]
         inputs := numbers.map fun number => { name := positionName "p" number, type } },
       { id := "out", kind := "output", type := some type }]
    edges := (numbers.map fun number => ⟨positionName "in" number, positionName "x.p" number⟩) ++
      [⟨"x", "out"⟩] }

/-- The one stage of the plan has eleven ports by which data come in, and they are described out of
place. -/
theorem not_plan_lists_ports : ∃ named annotated prepared, wideSample.build = .ok named ∧
    ({ config := .standard } : Planner Nat).plan.apply named.graph = (.ok annotated, prepared) ∧
    ∃ vertex ∈ annotated.describe.vertices, ¬ AnnotatedPlan.InPlace "i" vertex.inputs := by
  obtain ⟨named, described⟩ := exists_of_isOk (by decide +kernel : wideSample.build.isOk = true)
  have computed : (wideSample.build >>= fun named =>
      (({ config := .standard } : Planner Nat).plan.apply named.graph).1.map fun annotated =>
        annotated.plan.stages.map fun stage => stage.inputs.length).toOption = some [11] := by
    simp only [plan, prepare, fixUnits, Edit.fixAllUnits_eq, planPrepared, stage,
      Plan.groups_eq_groupsSoon]
    decide +kernel
  rw [described] at computed
  obtain ⟨annotated, isPlanned, counts⟩ := exists_of_map_toOption computed
  have succeeds : ({ config := .standard } : Planner Nat).plan.apply named.graph =
      (.ok annotated, _) := Prod.ext isPlanned rfl
  obtain ⟨addressable, sorted, names⟩ := ({ config := .standard } : Planner Nat).names_of_plan described
    (Simplifier.tame_ofRules _) succeeds
  have canonical := ({ config := .standard } : Planner Nat).canonical_of_plan described
    (Simplifier.tame_ofRules _) (Edit.inStep_ofRules _) succeeds
  obtain ⟨stage, isStage, eleven⟩ : ∃ stage ∈ annotated.plan.stages, stage.inputs.length = 11 :=
    List.mem_map.1 (counts ▸ List.mem_singleton_self 11)
  refine ⟨named, annotated, _, described, succeeds, annotated.describeStage stage, ?_, fun inPlace => ?_⟩
  · rw [(AnnotatedPlan.labelled_of_names addressable sorted names).describe_vertices]
    exact List.mem_map_of_mem isStage
  · have few := (canonical.lists isStage).inPlaceInputs.1 inPlace
    omega

end Planner

end StagePlanner
