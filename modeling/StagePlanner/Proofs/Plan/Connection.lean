import StagePlanner.Plan
import StagePlanner.Proofs.Dependency.Circuit
import StagePlanner.Proofs.Keyed

/-!
# Connections between stages

What connects stages is implied by the origins of their ports. `Stage.Supplies` states it for two
stages; the lists of addresses, the connections and the dependencies that a plan computes are read
as this relation, and the dependencies have a circuit exactly when the relation has one among the
stages (`circuitless_dependencies_iff`). Looking origins up in an index finds the connections that
comparing all ports finds (`connections_agree`).
-/

namespace StagePlanner

open Relation
open Std (ExtTreeMap)

/-- Some output of the first stage and some input of the second one stand for a common origin. -/
def Stage.Supplies (producer consumer : Stage) : Prop :=
  ∃ output ∈ producer.outputs, ∃ input ∈ consumer.inputs,
    ∃ origin, origin ∈ output.origins ∧ origin ∈ input.origins

namespace Plan

variable {plan : Plan}

/-- The first stage of the plan supplies the second one. -/
def Links (plan : Plan) (producer consumer : Stage) : Prop :=
  producer ∈ plan.stages ∧ consumer ∈ plan.stages ∧ producer.Supplies consumer

theorem mem_inputsFrom {origins : OrderedSet OperatorId} {address : PortAddress} :
    address ∈ plan.inputsFrom origins ↔ ∃ stage ∈ plan.stages, ∃ port ∈ stage.inputs,
      (∃ origin, origin ∈ port.origins ∧ origin ∈ origins) ∧ ⟨stage.id, port.id⟩ = address := by
  simp only [inputsFrom, List.mem_flatMap, List.mem_map, List.mem_filter, OrderedSet.meets_iff,
    and_assoc]

theorem mem_outputsFrom {origins : OrderedSet OperatorId} {address : PortAddress} :
    address ∈ plan.outputsFrom origins ↔ ∃ stage ∈ plan.stages, ∃ port ∈ stage.outputs,
      (∃ origin, origin ∈ port.origins ∧ origin ∈ origins) ∧ ⟨stage.id, port.id⟩ = address := by
  simp only [outputsFrom, List.mem_flatMap, List.mem_map, List.mem_filter, OrderedSet.meets_iff,
    and_assoc]

theorem mem_connections {connection : Connection} :
    connection ∈ plan.connections ↔
      ∃ producer ∈ plan.stages, ∃ output ∈ producer.outputs,
      ∃ consumer ∈ plan.stages, ∃ input ∈ consumer.inputs,
        (∃ origin, origin ∈ output.origins ∧ origin ∈ input.origins) ∧
          connection = ⟨⟨producer.id, output.id⟩, ⟨consumer.id, input.id⟩⟩ := by
  simp only [connections, OrderedSet.mem_ofList, List.mem_flatMap, List.mem_map, mem_inputsFrom]
  constructor
  · rintro ⟨producer, isProducer, output, isOutput, address, ⟨consumer, isConsumer, input, isInput,
      ⟨origin, inInput, inOutput⟩, rfl⟩, rfl⟩
    exact ⟨producer, isProducer, output, isOutput, consumer, isConsumer, input, isInput,
      ⟨origin, inOutput, inInput⟩, rfl⟩
  · rintro ⟨producer, isProducer, output, isOutput, consumer, isConsumer, input, isInput,
      ⟨origin, inOutput, inInput⟩, rfl⟩
    exact ⟨producer, isProducer, output, isOutput, _, ⟨consumer, isConsumer, input, isInput,
      ⟨origin, inInput, inOutput⟩, rfl⟩, rfl⟩

/-- A stage depends on the stages that supply it. -/
theorem depends_dependencies {target source : StageId} :
    plan.dependencies.Depends target source ↔
      ∃ producer consumer, plan.Links producer consumer ∧
        producer.id = source ∧ consumer.id = target := by
  rw [dependencies, DependencyGraph.depends_ofLists, List.mem_map]
  constructor
  · rintro ⟨connection, member, same⟩
    obtain ⟨producer, isProducer, output, isOutput, consumer, isConsumer, input, isInput, common,
      rfl⟩ := mem_connections.1 member
    cases same
    exact ⟨producer, consumer, ⟨isProducer, isConsumer, output, isOutput, input, isInput, common⟩,
      rfl, rfl⟩
  · rintro ⟨producer, consumer, ⟨isProducer, isConsumer, output, isOutput, input, isInput, common⟩,
      rfl, rfl⟩
    exact ⟨_, mem_connections.2 ⟨producer, isProducer, output, isOutput, consumer, isConsumer, input,
      isInput, common, rfl⟩, rfl⟩

theorem depends_of_mem_connections {connection : Connection}
    (isConnection : connection ∈ plan.connections) :
    plan.dependencies.Depends connection.target.stage connection.source.stage := by
  obtain ⟨producer, isProducer, output, isOutput, consumer, isConsumer, input, isInput, common, rfl⟩ :=
    mem_connections.1 isConnection
  exact depends_dependencies.2 ⟨producer, consumer,
    ⟨isProducer, isConsumer, output, isOutput, input, isInput, common⟩, rfl, rfl⟩

theorem mem_stageIds {id : StageId} : id ∈ plan.stageIds ↔ ∃ stage ∈ plan.stages, stage.id = id := by
  simp [stageIds]

theorem mem_vertices_dependencies {id : StageId} :
    id ∈ plan.dependencies.vertices ↔ id ∈ plan.stageIds := by
  refine DependencyGraph.mem_vertices_ofLists fun arc member => ?_
  obtain ⟨connection, isConnection, rfl⟩ := List.mem_map.1 member
  obtain ⟨producer, isProducer, _, _, consumer, isConsumer, _, _, _, rfl⟩ :=
    mem_connections.1 isConnection
  exact ⟨mem_stageIds.2 ⟨consumer, isConsumer, rfl⟩, mem_stageIds.2 ⟨producer, isProducer, rfl⟩⟩

theorem dependencies_wellFormed : plan.dependencies.WellFormed := DependencyGraph.ofLists_wellFormed

/-- Stages with one identifier are equal. -/
theorem stage_unique (distinct : plan.stageIds.Nodup) {left right : Stage}
    (isLeft : left ∈ plan.stages) (isRight : right ∈ plan.stages) (same : left.id = right.id) :
    left = right :=
  List.inj_on_of_nodup_map distinct isLeft isRight same

theorem stage_id_ne (distinct : plan.stageIds.Nodup) {left right : Stage}
    (isLeft : left ∈ plan.stages) (isRight : right ∈ plan.stages) (differ : left ≠ right) :
    left.id ≠ right.id :=
  fun same => differ (stage_unique distinct isLeft isRight same)

theorem stage?_eq_some_iff (distinct : plan.stageIds.Nodup) {id : StageId} {stage : Stage} :
    plan.stage? id = some stage ↔ stage ∈ plan.stages ∧ stage.id = id :=
  find?_key_eq_some_iff distinct

/-- Ways along dependencies are ways along links between the stages. -/
theorem transGen_links (distinct : plan.stageIds.Nodup) {source target : StageId}
    (way : TransGen (fun source target => plan.dependencies.Depends target source) source target) :
    ∃ producer consumer, producer.id = source ∧ consumer.id = target ∧
      TransGen plan.Links producer consumer := by
  induction way with
  | single last =>
    obtain ⟨producer, consumer, links, isSource, isTarget⟩ := depends_dependencies.1 last
    exact ⟨producer, consumer, isSource, isTarget, .single links⟩
  | tail _ last ih =>
    obtain ⟨producer, middle, isSource, isMiddle, before⟩ := ih
    obtain ⟨other, consumer, links, isOther, isTarget⟩ := depends_dependencies.1 last
    have middleStage : middle ∈ plan.stages := by
      cases before with
      | single final => exact final.2.1
      | tail _ final => exact final.2.1
    obtain rfl := stage_unique distinct middleStage links.1 (isMiddle.trans isOther.symm)
    exact ⟨producer, consumer, isSource, isTarget, before.tail links⟩

/-- The dependencies of a plan have no circuit exactly when the links between its stages have
none. -/
theorem circuitless_dependencies_iff (distinct : plan.stageIds.Nodup) :
    Circuitless plan.dependencies.Depends ↔ Circuitless plan.Links := by
  constructor
  · intro circuitless
    refine circuitless.converse.of_map Stage.id fun producer consumer links => ?_
    exact depends_dependencies.2 ⟨producer, consumer, links, rfl, rfl⟩
  · intro circuitless
    have onIds : Circuitless fun source target => plan.dependencies.Depends target source := ?_
    · exact onIds.converse
    intro id circuit
    obtain ⟨producer, consumer, isSource, isTarget, way⟩ := transGen_links distinct circuit
    have first : producer ∈ plan.stages := by
      cases TransGen.head'_iff.1 way with
      | intro middle both => exact both.1.1
    have last : consumer ∈ plan.stages := by
      cases TransGen.tail'_iff.1 way with
      | intro middle both => exact both.2.2.1
    obtain rfl := stage_unique distinct first last (isSource.trans isTarget.symm)
    exact circuitless producer way

/-- A depth that grows along every link excludes circuits. -/
theorem circuitless_of_depth (distinct : plan.stageIds.Nodup) (depth : Stage → Nat)
    (grows : ∀ producer consumer, plan.Links producer consumer → depth producer < depth consumer) :
    Circuitless plan.dependencies.Depends := by
  rw [circuitless_dependencies_iff distinct]
  have back : Circuitless fun source target => plan.Links target source :=
    Circuitless.of_rank depth fun source target links => grows target source links
  exact back.converse

/-! ### Orders of stages -/

theorem order_eq_ok {order : List StageId} :
    plan.order = .ok order ↔ plan.dependencies.orderBy plan.rank = .ok order := by
  rw [Plan.order]
  cases plan.dependencies.orderBy plan.rank with
  | ok found => simp [stageOrder]
  | error circuits => simp [stageOrder]

theorem exists_order (circuitless : Circuitless plan.dependencies.Depends) :
    ∃ order, plan.order = .ok order := by
  simp only [order_eq_ok]
  exact (DependencyGraph.orderBy_isOk_iff dependencies_wellFormed).2 circuitless

/-- An order lists every stage once. -/
theorem perm_of_order (distinct : plan.stageIds.Nodup) {order : List StageId}
    (isOrder : plan.order = .ok order) : order.Perm plan.stageIds := by
  rw [order_eq_ok] at isOrder
  refine (List.perm_ext_iff_of_nodup (DependencyGraph.nodup_of_orderBy isOrder) distinct).2 fun id => ?_
  rw [DependencyGraph.mem_of_orderBy isOrder, mem_vertices_dependencies]

/-- Every connection leads forward in an order. -/
theorem idxOf_lt_of_order {order : List StageId} (isOrder : plan.order = .ok order)
    {connection : Connection} (isConnection : connection ∈ plan.connections) :
    order.idxOf connection.source.stage < order.idxOf connection.target.stage := by
  rw [order_eq_ok] at isOrder
  have depends := depends_of_mem_connections isConnection
  exact DependencyGraph.idxOf_lt_of_orderBy isOrder
    ((DependencyGraph.mem_of_orderBy isOrder).2 (dependencies_wellFormed.dependent depends)) depends

theorem depends_of_perm {other : Plan} (same : other.stages.Perm plan.stages)
    {target source : StageId} :
    other.dependencies.Depends target source ↔ plan.dependencies.Depends target source := by
  simp only [depends_dependencies, Links, same.mem_iff]

/-- The order of the stages does not depend on the order in which they are listed. -/
theorem order_of_perm (distinct : plan.stageIds.Nodup) {other : Plan}
    (same : other.stages.Perm plan.stages) : other.order = plan.order := by
  have alsoDistinct : other.stageIds.Nodup := (same.map Stage.id).nodup_iff.2 distinct
  have dependencies : other.dependencies = plan.dependencies := by
    refine DependencyGraph.ext_of_depends (fun id => ?_) fun _ _ => depends_of_perm same
    rw [mem_vertices_dependencies, mem_vertices_dependencies]
    exact (same.map Stage.id).mem_iff
  have ranks : other.rank = plan.rank := by
    funext id
    have stages : other.stage? id = plan.stage? id := by
      refine Option.ext fun stage => ?_
      rw [stage?_eq_some_iff alsoDistinct, stage?_eq_some_iff distinct, same.mem_iff]
    rw [rank, rank, stages]
  rw [Plan.order, Plan.order, dependencies, ranks]

/-! ### Looking origins up -/

theorem getD_foldl_fileOrigin {entries : List (OperatorId × PortAddress)} {origin : OperatorId}
    {index : ExtTreeMap OperatorId (List PortAddress)} :
    (entries.foldl fileOrigin index).getD origin [] =
      index.getD origin [] ++ (entries.filter fun entry => entry.1 = origin).map Prod.snd := by
  induction entries generalizing index with
  | nil => simp
  | cons entry rest ih =>
    rw [List.foldl_cons, ih]
    by_cases same : entry.1 = origin
    · subst same
      simp [fileOrigin, ExtTreeMap.getD_eq_getD_getElem?]
    · simp [fileOrigin, ExtTreeMap.getD_alter, same]

/-- Under an origin the index lists the inputs that stand for it. -/
theorem mem_inputsByOrigin {origin : OperatorId} {address : PortAddress} :
    address ∈ plan.inputsByOrigin.getD origin [] ↔ ∃ stage ∈ plan.stages, ∃ port ∈ stage.inputs,
      origin ∈ port.origins ∧ ⟨stage.id, port.id⟩ = address := by
  simp [inputsByOrigin, getD_foldl_fileOrigin, originEntries]

/-- An output and an input are found together when they have some origin in common, and however many
they have in common they are one connection. -/
theorem indexedConnections_eq : plan.indexedConnections = plan.connections := by
  refine OrderedSet.ext fun connection => ?_
  simp only [indexedConnections, OrderedSet.mem_ofList, List.mem_flatMap, List.mem_map,
    mem_inputsByOrigin, mem_connections]
  constructor
  · rintro ⟨producer, isProducer, output, isOutput, origin, inOutput, _,
      ⟨consumer, isConsumer, input, isInput, inInput, rfl⟩, rfl⟩
    exact ⟨producer, isProducer, output, isOutput, consumer, isConsumer, input, isInput,
      ⟨origin, inOutput, inInput⟩, rfl⟩
  · rintro ⟨producer, isProducer, output, isOutput, consumer, isConsumer, input, isInput,
      ⟨origin, inOutput, inInput⟩, rfl⟩
    exact ⟨producer, isProducer, output, isOutput, origin, inOutput, _,
      ⟨consumer, isConsumer, input, isInput, inInput, rfl⟩, rfl⟩

/-! ### Addresses of ports -/

/-- No identifier is given to two stages or to two ports. -/
structure Addressable (plan : Plan) : Prop where
  stages : plan.stageIds.Nodup
  ports : (plan.stages.flatMap fun stage => stage.ports.map StagePort.id).Nodup

/-- Every output behind its address. -/
def outputEntries (plan : Plan) : List (PortAddress × StagePort) :=
  plan.stages.flatMap fun stage => stage.outputs.map fun port => (⟨stage.id, port.id⟩, port)

namespace Addressable

variable (addressable : plan.Addressable)

include addressable

/-- Ports that are picked from each stage have distinct addresses. -/
theorem nodup_addresses {picked : Stage → List StagePort}
    (among : ∀ stage ∈ plan.stages, (picked stage).Sublist stage.ports) :
    (plan.stages.flatMap fun stage =>
      (picked stage).map fun port => (⟨stage.id, port.id⟩ : PortAddress)).Nodup := by
  refine List.Nodup.of_map PortAddress.port ?_
  rw [List.map_flatMap]
  refine addressable.ports.sublist (List.Sublist.flatMap_right _ fun stage isStage => ?_)
  rw [List.map_map]
  exact (among stage isStage).map _

theorem nodup_inputsFrom (origins : OrderedSet OperatorId) : (plan.inputsFrom origins).Nodup :=
  addressable.nodup_addresses fun _ _ => List.filter_sublist.trans (List.sublist_append_left _ _)

theorem nodup_outputsFrom (origins : OrderedSet OperatorId) : (plan.outputsFrom origins).Nodup :=
  addressable.nodup_addresses fun _ _ => List.filter_sublist.trans (List.sublist_append_right _ _)

/-- Looking an address up on one side of the stages finds the port that has it. -/
theorem find?_port_eq_some_iff {side : Stage → List StagePort}
    (among : ∀ stage ∈ plan.stages, (side stage).Sublist stage.ports) {address : PortAddress}
    {port : StagePort} :
    ((plan.stage? address.stage).bind fun stage =>
        (side stage).find? fun other => other.id = address.port) = some port ↔
      ∃ stage ∈ plan.stages, port ∈ side stage ∧ (⟨stage.id, port.id⟩ : PortAddress) = address := by
  have distinct : ∀ stage ∈ plan.stages, ((side stage).map StagePort.id).Nodup := fun stage isStage =>
    ((List.nodup_flatMap.1 addressable.ports).1 stage isStage).sublist ((among stage isStage).map _)
  rw [Option.bind_eq_some_iff]
  constructor
  · rintro ⟨stage, isStage, found⟩
    obtain ⟨member, sameStage⟩ := (stage?_eq_some_iff addressable.stages).1 isStage
    obtain ⟨isPort, samePort⟩ := (find?_key_eq_some_iff (distinct stage member)).1 found
    exact ⟨stage, member, isPort, by rw [sameStage, samePort]⟩
  · rintro ⟨stage, member, isPort, rfl⟩
    exact ⟨stage, (stage?_eq_some_iff addressable.stages).2 ⟨member, rfl⟩,
      (find?_key_eq_some_iff (distinct stage member)).2 ⟨isPort, rfl⟩⟩

theorem input?_eq_some_iff {address : PortAddress} {input : StagePort} :
    plan.input? address = some input ↔ ∃ stage ∈ plan.stages, input ∈ stage.inputs ∧
      (⟨stage.id, input.id⟩ : PortAddress) = address :=
  addressable.find?_port_eq_some_iff fun _ _ => List.sublist_append_left _ _

theorem output?_eq_some_iff {address : PortAddress} {output : StagePort} :
    plan.output? address = some output ↔ ∃ stage ∈ plan.stages, output ∈ stage.outputs ∧
      (⟨stage.id, output.id⟩ : PortAddress) = address :=
  addressable.find?_port_eq_some_iff fun _ _ => List.sublist_append_right _ _

/-- A connection leads from an output to an input with a common origin. -/
theorem mem_connections_iff {connection : Connection} :
    connection ∈ plan.connections ↔ ∃ output input, plan.output? connection.source = some output ∧
      plan.input? connection.target = some input ∧
      ∃ origin, origin ∈ output.origins ∧ origin ∈ input.origins := by
  simp only [mem_connections, addressable.output?_eq_some_iff, addressable.input?_eq_some_iff]
  constructor
  · rintro ⟨producer, isProducer, output, isOutput, consumer, isConsumer, input, isInput, common, rfl⟩
    exact ⟨output, input, ⟨producer, isProducer, isOutput, rfl⟩, ⟨consumer, isConsumer, isInput, rfl⟩,
      common⟩
  · rintro ⟨output, input, ⟨producer, isProducer, isOutput, source⟩, ⟨consumer, isConsumer, isInput,
      target⟩, common⟩
    exact ⟨producer, isProducer, output, isOutput, consumer, isConsumer, input, isInput, common,
      by rw [source, target]⟩

theorem producers_eq {stage : Stage} (isStage : stage ∈ plan.stages) {input : StagePort}
    (isInput : input ∈ stage.inputs) :
    plan.producers ⟨stage.id, input.id⟩ = plan.outputsFrom input.origins := by
  rw [producers, addressable.input?_eq_some_iff.2 ⟨stage, isStage, isInput, rfl⟩]

theorem consumers_eq {stage : Stage} (isStage : stage ∈ plan.stages) {output : StagePort}
    (isOutput : output ∈ stage.outputs) :
    plan.consumers ⟨stage.id, output.id⟩ = plan.inputsFrom output.origins := by
  rw [consumers, addressable.output?_eq_some_iff.2 ⟨stage, isStage, isOutput, rfl⟩]

theorem nodup_consumers (output : PortAddress) : (plan.consumers output).Nodup := by
  rw [consumers]
  split
  · exact addressable.nodup_inputsFrom _
  · exact List.nodup_nil

theorem nodup_producers (input : PortAddress) : (plan.producers input).Nodup := by
  rw [producers]
  split
  · exact addressable.nodup_outputsFrom _
  · exact List.nodup_nil

theorem mem_consumers {output input : PortAddress} :
    input ∈ plan.consumers output ↔ ⟨output, input⟩ ∈ plan.connections := by
  rw [addressable.mem_connections_iff, consumers]
  cases found : plan.output? output with
  | none => simp
  | some port =>
    simp only [mem_inputsFrom, addressable.input?_eq_some_iff, Option.some.injEq, exists_and_left,
      exists_eq_left']
    constructor
    · rintro ⟨consumer, isConsumer, other, isInput, ⟨origin, inInput, inOutput⟩, same⟩
      exact ⟨other, ⟨consumer, isConsumer, isInput, same⟩, origin, inOutput, inInput⟩
    · rintro ⟨other, ⟨consumer, isConsumer, isInput, same⟩, origin, inOutput, inInput⟩
      exact ⟨consumer, isConsumer, other, isInput, ⟨origin, inInput, inOutput⟩, same⟩

theorem mem_producers {input output : PortAddress} :
    output ∈ plan.producers input ↔ ⟨output, input⟩ ∈ plan.connections := by
  rw [addressable.mem_connections_iff, producers]
  cases found : plan.input? input with
  | none => simp
  | some port =>
    simp only [mem_outputsFrom, addressable.output?_eq_some_iff, Option.some.injEq, exists_and_left,
      exists_eq_left']
    constructor
    · rintro ⟨producer, isProducer, other, isOutput, ⟨origin, inOutput, inInput⟩, same⟩
      exact ⟨other, ⟨producer, isProducer, isOutput, same⟩, origin, inOutput, inInput⟩
    · rintro ⟨other, ⟨producer, isProducer, isOutput, same⟩, origin, inOutput, inInput⟩
      exact ⟨producer, isProducer, other, isOutput, ⟨origin, inOutput, inInput⟩, same⟩

/-- An output comes upon every input once, so that no connection is listed twice. -/
theorem perm_connections : plan.connections.toList.Perm (plan.stages.flatMap fun stage =>
    stage.outputs.flatMap fun port =>
      (plan.inputsFrom port.origins).map fun target => ⟨⟨stage.id, port.id⟩, target⟩) := by
  have distinct : (plan.outputEntries.map Prod.fst).Nodup := by
    rw [outputEntries, List.map_flatMap]
    simp only [List.map_map]
    exact addressable.nodup_addresses fun _ _ => List.sublist_append_right _ _
  have regrouped : (plan.stages.flatMap fun stage => stage.outputs.flatMap fun port =>
      (plan.inputsFrom port.origins).map fun target => (⟨⟨stage.id, port.id⟩, target⟩ : Connection)) =
      plan.outputEntries.flatMap fun entry =>
        (plan.inputsFrom entry.2.origins).map fun target => ⟨entry.1, target⟩ := by
    simp only [outputEntries, List.flatMap_assoc, List.flatMap_map]
  rw [regrouped]
  refine (List.perm_ext_iff_of_nodup plan.connections.nodup (List.nodup_flatMap.2 ⟨?_, ?_⟩)).2 ?_
  · intro entry _
    exact (addressable.nodup_inputsFrom _).map fun _ _ same => congrArg Connection.target same
  · refine (List.pairwise_map.1 distinct).imp fun {first second} differ connection inFirst inSecond => ?_
    obtain ⟨_, -, rfl⟩ := List.mem_map.1 inFirst
    obtain ⟨_, -, same⟩ := List.mem_map.1 inSecond
    exact differ (congrArg Connection.source same).symm
  · intro connection
    rw [← regrouped]
    exact OrderedSet.mem_ofList

omit addressable in
/-- The dependencies of stages are read off the connections. -/
theorem depends_iff_exists_connection {target source : StageId} :
    plan.dependencies.Depends target source ↔ ∃ connection ∈ plan.connections,
      connection.source.stage = source ∧ connection.target.stage = target := by
  rw [dependencies, DependencyGraph.depends_ofLists, List.mem_map]
  refine exists_congr fun connection => and_congr_right fun _ => ?_
  rw [Arc.mk.injEq, and_comm]

end Addressable

/-- The views that a plan gives of its connections agree. Looking origins up in an index lists, in
strictly ascending order, every output with every input that has an origin in common with it; asking
for the inputs of an output or for the outputs of an input scans all ports and lists, each once, what
is connected with it; and a stage depends on those stages from which a connection leads to it. -/
theorem connections_agree (addressable : plan.Addressable) :
    plan.indexedConnections = plan.connections ∧
      (plan.indexedConnections.toList.Pairwise fun before after => compare before after = .lt) ∧
      (∀ connection, connection ∈ plan.indexedConnections.toList ↔
        ∃ output input, plan.output? connection.source = some output ∧
          plan.input? connection.target = some input ∧
          ∃ origin, origin ∈ output.origins ∧ origin ∈ input.origins) ∧
      (∀ output, (plan.consumers output).Nodup ∧
        ∀ input, input ∈ plan.consumers output ↔ ⟨output, input⟩ ∈ plan.indexedConnections) ∧
      (∀ input, (plan.producers input).Nodup ∧
        ∀ output, output ∈ plan.producers input ↔ ⟨output, input⟩ ∈ plan.indexedConnections) ∧
      ∀ target source, plan.dependencies.Depends target source ↔
        ∃ connection ∈ plan.indexedConnections,
          connection.source.stage = source ∧ connection.target.stage = target := by
  rw [indexedConnections_eq]
  exact ⟨rfl, plan.connections.ascending, fun _ => addressable.mem_connections_iff,
    fun output => ⟨addressable.nodup_consumers output, fun _ => addressable.mem_consumers⟩,
    fun input => ⟨addressable.nodup_producers input, fun _ => addressable.mem_producers⟩,
    fun _ _ => Addressable.depends_iff_exists_connection⟩

/-- A stage whose output stands for two markers, both of which one further stage reads and one of
which another stage reads. -/
def sharedSample : Plan where
  stages := [
    { id := ⟨0⟩, graph := {}, inputs := [], provenance := [],
      outputs := [{ id := ⟨0⟩, marker := ⟨0⟩, origins := .ofList [⟨4⟩, ⟨7⟩] }] },
    { id := ⟨1⟩, graph := {}, outputs := [], provenance := [],
      inputs := [{ id := ⟨1⟩, marker := ⟨0⟩, origins := .ofList [⟨4⟩, ⟨7⟩] }] },
    { id := ⟨2⟩, graph := {}, outputs := [], provenance := [],
      inputs := [{ id := ⟨2⟩, marker := ⟨0⟩, origins := .singleton ⟨7⟩ }] }]
  nextStage := ⟨3⟩
  nextPort := ⟨3⟩

theorem connections_agree_sharedSample : sharedSample.Addressable ∧
    sharedSample.indexedConnections.toList =
      [⟨⟨⟨0⟩, ⟨0⟩⟩, ⟨⟨1⟩, ⟨1⟩⟩⟩, ⟨⟨⟨0⟩, ⟨0⟩⟩, ⟨⟨2⟩, ⟨2⟩⟩⟩] ∧
    ⟨⟨1⟩, ⟨1⟩⟩ ∈ sharedSample.consumers ⟨⟨0⟩, ⟨0⟩⟩ ∧
    sharedSample.dependencies.Depends ⟨2⟩ ⟨0⟩ := by
  have addressable : sharedSample.Addressable := ⟨by decide, by decide⟩
  obtain ⟨same, -, -, consumers, -, depends⟩ := connections_agree addressable
  rw [same] at consumers depends ⊢
  exact ⟨addressable, by decide, ((consumers _).2 _).2 (by decide),
    (depends _ _).2 ⟨⟨⟨⟨0⟩, ⟨0⟩⟩, ⟨⟨2⟩, ⟨2⟩⟩⟩, by decide, rfl, rfl⟩⟩

end Plan

end StagePlanner
