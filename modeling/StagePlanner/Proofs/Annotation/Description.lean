import StagePlanner.Proofs.Annotation.Naming

/-!
# Faithful descriptions

A description is put together from texts: vertices and ports under their names, and connections as
full names of the ports at their other ends. Since full names tell ports apart nothing is lost on the
way, and the edges of the description are the connections of the plan (`describe_faithful`).
-/

namespace StagePlanner

open Std (ExtTreeMap)

theorem mapM_eq_some_map {α β : Type} {compute : α → Option β} {result : α → β} {items : List α}
    (computes : ∀ item ∈ items, compute item = some (result item)) :
    items.mapM compute = some (items.map result) := by
  induction items with
  | nil => rfl
  | cons head tail ih =>
    rw [List.mapM_cons, computes head List.mem_cons_self,
      ih fun item member => computes item (List.mem_cons_of_mem _ member)]
    rfl

/-! ### Names that tell ports apart -/

theorem eq_some_getD {α : Type} {value : Option α} {default : α} (isSome : value.isSome = true) :
    value = some (value.getD default) := by
  obtain ⟨found, rfl⟩ := Option.isSome_iff_exists.1 isSome
  rfl

/-- The address of a port of the plan. -/
def Plan.HasPort (plan : Plan) (address : PortAddress) : Prop :=
  ∃ stage ∈ plan.stages, ∃ port ∈ stage.ports, ⟨stage.id, port.id⟩ = address

namespace Plan

variable {plan : Plan} {origins : OrderedSet OperatorId} {address : PortAddress}

theorem hasPort_of_mem_inputsFrom (member : address ∈ plan.inputsFrom origins) :
    plan.HasPort address := by
  obtain ⟨stage, isStage, port, isInput, -, same⟩ := mem_inputsFrom.1 member
  exact ⟨stage, isStage, port, List.mem_append_left _ isInput, same⟩

theorem hasPort_of_mem_outputsFrom (member : address ∈ plan.outputsFrom origins) :
    plan.HasPort address := by
  obtain ⟨stage, isStage, port, isOutput, -, same⟩ := mem_outputsFrom.1 member
  exact ⟨stage, isStage, port, List.mem_append_right _ isOutput, same⟩

end Plan

/-- The ends of connections name each other. -/
structure PlanDescription.Mirrored {ν : Type} (description : PlanDescription ν) : Prop where
  /-- An output names an input exactly when the input names the output. -/
  mirrors : ∀ producer ∈ description.vertices, ∀ output ∈ producer.outputs,
    ∀ consumer ∈ description.vertices, ∀ input ∈ consumer.inputs,
      (consumer.name ++ "." ++ input.name ∈ output.opposites ↔
        producer.name ++ "." ++ output.name ∈ input.opposites)
  /-- An output names inputs and nothing else, each once. -/
  outputs : ∀ producer ∈ description.vertices, ∀ output ∈ producer.outputs,
    output.opposites.Nodup ∧ ∀ name ∈ output.opposites, ∃ consumer ∈ description.vertices,
      ∃ input ∈ consumer.inputs, consumer.name ++ "." ++ input.name = name
  /-- An input names outputs and nothing else, each once. -/
  inputs : ∀ consumer ∈ description.vertices, ∀ input ∈ consumer.inputs,
    input.opposites.Nodup ∧ ∀ name ∈ input.opposites, ∃ producer ∈ description.vertices,
      ∃ output ∈ producer.outputs, producer.name ++ "." ++ output.name = name

namespace AnnotatedPlan

variable {ν : Type} (annotated : AnnotatedPlan ν)

/-- Everything has a name, and no two ports have one full name. -/
structure Labelled : Prop where
  addressable : annotated.plan.Addressable
  stages : ∀ stage ∈ annotated.plan.stages, (annotated.notes.stage stage.id).name.isSome = true
  ports : ∀ stage ∈ annotated.plan.stages, ∀ port ∈ stage.ports,
    (annotated.notes.port port.id).name.isSome = true
  /-- Full names tell ports apart. -/
  unique : ∀ left right name, annotated.plan.HasPort left → annotated.plan.HasPort right →
    annotated.portName? left.stage left.port = some name →
    annotated.portName? right.stage right.port = some name → left = right

/-- The full name of a port; empty if it has none. -/
def fullName (address : PortAddress) : String :=
  (annotated.portName? address.stage address.port).getD ""

variable {annotated}

/-- Names that were attached tell ports apart. -/
theorem labelled_of_names (addressable : annotated.plan.Addressable) {order : List StageId}
    (isOrder : annotated.plan.order = .ok order) (names : annotated.notes.Names annotated.plan order) :
    annotated.Labelled := by
  have placed : ∀ stage ∈ annotated.plan.stages, ∃ place : Nat, order[place]? = some stage.id := by
    intro stage isStage
    have listed := Plan.perm_of_order addressable.stages isOrder
    exact List.mem_iff_getElem?.1 (listed.mem_iff.2 (List.mem_map_of_mem isStage))
  have named : ∀ stage ∈ annotated.plan.stages, ∀ port ∈ stage.ports, ∃ place letter number,
      order[place]? = some stage.id ∧ stage.Numbers letter number port ∧
      annotated.portName? stage.id port.id =
        some (positionName "v" place ++ "." ++ positionName letter number) := by
    intro stage isStage port isPort
    obtain ⟨place, isPlace⟩ := placed stage isStage
    obtain ⟨letter, number, numbers⟩ := Stage.exists_numbers isPort
    exact ⟨place, letter, number, isPlace, numbers, names.portName?_eq_some isStage isPlace numbers⟩
  refine ⟨addressable, fun stage isStage => ?_, fun stage isStage port isPort => ?_, ?_⟩
  · obtain ⟨place, isPlace⟩ := placed stage isStage
    rw [names.stages place stage.id isPlace, Option.isSome_some]
  · obtain ⟨letter, number, numbers⟩ := Stage.exists_numbers isPort
    rw [names.ports stage isStage letter number port numbers, Option.isSome_some]
  · rintro _ _ name ⟨left, isLeft, first, isFirst, rfl⟩ ⟨right, isRight, second, isSecond, rfl⟩ isName same
    obtain ⟨place, letter, number, isPlace, numbers, leftName⟩ := named left isLeft first isFirst
    obtain ⟨other, side, position, isOther, others, rightName⟩ := named right isRight second isSecond
    obtain ⟨rfl, rfl, rfl⟩ := fullName_inj numbers.isSide others.isSide
      (Option.some.inj ((leftName.symm.trans isName).trans (same.symm.trans rightName)))
    have stages : left = right := Plan.stage_unique addressable.stages isLeft isRight
      (Option.some.inj (isPlace.symm.trans isOther))
    subst stages
    rw [numbers.port_unique others]

namespace Labelled

variable (labelled : annotated.Labelled)

include labelled

theorem portName?_eq_some {address : PortAddress} (hasPort : annotated.plan.HasPort address) :
    annotated.portName? address.stage address.port = some (annotated.fullName address) := by
  obtain ⟨stage, isStage, port, isPort, rfl⟩ := hasPort
  refine eq_some_getD ?_
  obtain ⟨vertex, isVertex⟩ := Option.isSome_iff_exists.1 (labelled.stages stage isStage)
  obtain ⟨name, isName⟩ := Option.isSome_iff_exists.1 (labelled.ports stage isStage port isPort)
  simp [portName?, isVertex, isName]

theorem address_unique {left right : PortAddress} (isLeft : annotated.plan.HasPort left)
    (isRight : annotated.plan.HasPort right)
    (same : annotated.fullName left = annotated.fullName right) : left = right :=
  labelled.unique left right _ isLeft isRight (labelled.portName?_eq_some isLeft)
    (same ▸ labelled.portName?_eq_some isRight)

/-- The name of an entry for a port is the name of the port. -/
theorem fullName_eq {stage : Stage} (isStage : stage ∈ annotated.plan.stages) {port : StagePort}
    (isPort : port ∈ stage.ports) :
    (annotated.describeStage stage).name ++ "." ++ ((annotated.notes.port port.id).name.getD "") =
      annotated.fullName ⟨stage.id, port.id⟩ := by
  obtain ⟨vertex, isVertex⟩ := Option.isSome_iff_exists.1 (labelled.stages stage isStage)
  obtain ⟨name, isName⟩ := Option.isSome_iff_exists.1 (labelled.ports stage isStage port isPort)
  simp only [fullName, portName?, describeStage, isVertex, isName, Option.getD_some]
  rfl

/-! ### Ports that are listed by their names -/

/-- Where all of some addresses are those of ports, their names are listed. -/
theorem perm_names {addresses : List PortAddress}
    (havePorts : ∀ address ∈ addresses, annotated.plan.HasPort address) :
    (annotated.names addresses).Perm (addresses.map annotated.fullName) := by
  have all : (addresses.filterMap fun address => annotated.portName? address.stage address.port) =
      addresses.map annotated.fullName := by
    rw [← List.filterMap_eq_map]
    exact List.filterMap_congr fun address member => labelled.portName?_eq_some (havePorts address member)
  rw [names, all]
  exact List.mergeSort_perm _ _

theorem mem_names {addresses : List PortAddress}
    (havePorts : ∀ address ∈ addresses, annotated.plan.HasPort address) {address : PortAddress}
    (hasPort : annotated.plan.HasPort address) :
    annotated.fullName address ∈ annotated.names addresses ↔ address ∈ addresses := by
  rw [(labelled.perm_names havePorts).mem_iff, List.mem_map]
  constructor
  · rintro ⟨other, member, same⟩
    exact labelled.address_unique (havePorts other member) hasPort same ▸ member
  · intro member
    exact ⟨address, member, rfl⟩

end Labelled

/-! ### Vertices -/

/-- A vertex describes a stage: it has the name of the stage and one entry for each port, under the
name of the port. -/
structure Portrays (annotated : AnnotatedPlan ν) (stage : Stage) (vertex : VertexDescription ν) :
    Prop where
  name : (annotated.notes.stage stage.id).name = some vertex.name
  inputs : vertex.inputs.Perm (stage.inputs.map annotated.describeInput)
  outputs : vertex.outputs.Perm (stage.outputs.map annotated.describeOutput)
  inputNames : ∀ port ∈ stage.inputs,
    (annotated.notes.port port.id).name = some (annotated.describeInput port).name
  outputNames : ∀ port ∈ stage.outputs,
    (annotated.notes.port port.id).name = some (annotated.describeOutput port).name
  /-- No two entries have one name. -/
  distinct : (vertex.inputs.map PortDescription.name ++ vertex.outputs.map PortDescription.name).Nodup

theorem perm_sortedPorts (ports : List (PortDescription ν)) : (sortedPorts ports).Perm ports :=
  List.mergeSort_perm _ _

theorem mem_inputs_describeStage {stage : Stage} {entry : PortDescription ν} :
    entry ∈ (annotated.describeStage stage).inputs ↔
      ∃ port ∈ stage.inputs, annotated.describeInput port = entry := by
  rw [← List.mem_map]
  exact (perm_sortedPorts _).mem_iff

theorem mem_outputs_describeStage {stage : Stage} {entry : PortDescription ν} :
    entry ∈ (annotated.describeStage stage).outputs ↔
      ∃ port ∈ stage.outputs, annotated.describeOutput port = entry := by
  rw [← List.mem_map]
  exact (perm_sortedPorts _).mem_iff

/-- Where a table has the full names of all ports, looking names up in it makes no difference. -/
theorem tabledStage_eq (addressable : annotated.plan.Addressable) {table : ExtTreeMap PortAddress String}
    (full : ∀ address, annotated.plan.HasPort address →
      table[address]? = annotated.portName? address.stage address.port)
    {stage : Stage} (isStage : stage ∈ annotated.plan.stages) :
    annotated.tabledStage table stage = annotated.describeStage stage := by
  have names : ∀ addresses : List PortAddress,
      (∀ address ∈ addresses, annotated.plan.HasPort address) →
        tabledNames table addresses = annotated.names addresses := by
    intro addresses havePorts
    rw [tabledNames, AnnotatedPlan.names]
    congr 1
    exact List.filterMap_congr fun address member => full address (havePorts address member)
  have inputs : ∀ port ∈ stage.inputs,
      { annotated.describeInput port with
        opposites := tabledNames table (annotated.plan.producers ⟨stage.id, port.id⟩) } =
        annotated.describeInput port := by
    intro port isInput
    rw [addressable.producers_eq isStage isInput, names _ fun _ => Plan.hasPort_of_mem_outputsFrom]
    rfl
  have outputs : ∀ port ∈ stage.outputs,
      { annotated.describeOutput port with
        opposites := tabledNames table (annotated.plan.consumers ⟨stage.id, port.id⟩) } =
        annotated.describeOutput port := by
    intro port isOutput
    rw [addressable.consumers_eq isStage isOutput, names _ fun _ => Plan.hasPort_of_mem_inputsFrom]
    rfl
  rw [tabledStage, List.map_congr_left inputs, List.map_congr_left outputs]
  rfl

namespace Labelled

variable (labelled : annotated.Labelled)

include labelled

theorem describe_vertices :
    annotated.describe.vertices = annotated.plan.stages.map annotated.describeStage := by
  have allNamed : annotated.plan.stages.all annotated.isNamed = true := by
    simp only [List.all_eq_true, isNamed, Bool.and_eq_true]
    exact fun stage isStage => ⟨labelled.stages stage isStage, labelled.ports stage isStage⟩
  rw [describe, if_pos allNamed]

theorem portrays {stage : Stage} (isStage : stage ∈ annotated.plan.stages) :
    annotated.Portrays stage (annotated.describeStage stage) := by
  have named : ∀ port ∈ stage.ports, (annotated.notes.port port.id).name =
      some ((annotated.notes.port port.id).name.getD "") :=
    fun port isPort => eq_some_getD (labelled.ports stage isStage port isPort)
  refine ⟨eq_some_getD (labelled.stages stage isStage), perm_sortedPorts _,
    perm_sortedPorts _, fun port isInput => named port (List.mem_append_left _ isInput),
    fun port isOutput => named port (List.mem_append_right _ isOutput), ?_⟩
  have names : ((annotated.describeStage stage).inputs.map PortDescription.name ++
      (annotated.describeStage stage).outputs.map PortDescription.name).Perm
      (stage.ports.map fun port => (annotated.notes.port port.id).name.getD "") := by
    rw [Stage.ports, List.map_append]
    refine ((perm_sortedPorts _).map _).append ((perm_sortedPorts _).map _) |>.trans ?_
    rw [List.map_map, List.map_map]
    exact .refl _
  refine names.nodup_iff.2 (List.Nodup.map_on (fun first isFirst second isSecond same => ?_)
    (labelled.addressable.distinctPorts isStage).of_map)
  have addresses := labelled.address_unique ⟨stage, isStage, first, isFirst, rfl⟩
    ⟨stage, isStage, second, isSecond, rfl⟩ (by
      rw [← labelled.fullName_eq isStage isFirst, ← labelled.fullName_eq isStage isSecond, same])
  exact (labelled.addressable.port_unique isStage isStage isFirst isSecond
    (congrArg PortAddress.port addresses)).2

theorem describeInput_fullName {stage : Stage} (isStage : stage ∈ annotated.plan.stages)
    {port : StagePort} (isInput : port ∈ stage.inputs) :
    (annotated.describeStage stage).name ++ "." ++ (annotated.describeInput port).name =
      annotated.fullName ⟨stage.id, port.id⟩ :=
  labelled.fullName_eq isStage (List.mem_append_left _ isInput)

theorem describeOutput_fullName {stage : Stage} (isStage : stage ∈ annotated.plan.stages)
    {port : StagePort} (isOutput : port ∈ stage.outputs) :
    (annotated.describeStage stage).name ++ "." ++ (annotated.describeOutput port).name =
      annotated.fullName ⟨stage.id, port.id⟩ :=
  labelled.fullName_eq isStage (List.mem_append_right _ isOutput)

/-! ### Connected ports -/

theorem mem_opposites_input {producer : Stage}
    (isProducer : producer ∈ annotated.plan.stages) {output input : StagePort}
    (isOutput : output ∈ producer.outputs) :
    annotated.fullName ⟨producer.id, output.id⟩ ∈ (annotated.describeInput input).opposites ↔
      output.Meets input := by
  have isPort : output ∈ producer.ports := List.mem_append_right _ isOutput
  rw [describeInput, labelled.mem_names (fun _ => Plan.hasPort_of_mem_outputsFrom)
    ⟨producer, isProducer, output, isPort, rfl⟩, Plan.mem_outputsFrom]
  constructor
  · rintro ⟨stage, isStage, port, isPortOf, common, same⟩
    obtain ⟨-, rfl⟩ := labelled.addressable.port_unique isStage isProducer
      (List.mem_append_right _ isPortOf) isPort (congrArg PortAddress.port same)
    exact common
  · intro common
    exact ⟨producer, isProducer, output, isOutput, common, rfl⟩

theorem mem_opposites_output {consumer : Stage} (isConsumer : consumer ∈ annotated.plan.stages)
    {output input : StagePort} (isInput : input ∈ consumer.inputs) :
    annotated.fullName ⟨consumer.id, input.id⟩ ∈ (annotated.describeOutput output).opposites ↔
      output.Meets input := by
  have isPort : input ∈ consumer.ports := List.mem_append_left _ isInput
  rw [describeOutput, labelled.mem_names (fun _ => Plan.hasPort_of_mem_inputsFrom)
    ⟨consumer, isConsumer, input, isPort, rfl⟩, Plan.mem_inputsFrom]
  constructor
  · rintro ⟨stage, isStage, port, isPortOf, common, same⟩
    obtain ⟨-, rfl⟩ := labelled.addressable.port_unique isStage isConsumer
      (List.mem_append_left _ isPortOf) isPort (congrArg PortAddress.port same)
    exact StagePort.Meets.symm common
  · intro common
    exact ⟨consumer, isConsumer, input, isInput, common.symm, rfl⟩

/-! ### Edges -/

/-- The edges are the full names of the ends of the connections. -/
theorem perm_edges : annotated.describe.edges.Perm (annotated.plan.connections.toList.map
    fun connection => (annotated.fullName connection.source, annotated.fullName connection.target)) := by
  refine .trans ?_ (labelled.addressable.perm_connections.symm.map _)
  rw [PlanDescription.edges, labelled.describe_vertices, List.flatMap_map, List.map_flatMap]
  refine List.Perm.flatMap_left _ fun stage isStage => ?_
  refine ((perm_sortedPorts _).flatMap_right _).trans ?_
  rw [List.flatMap_map, List.map_flatMap]
  refine List.Perm.flatMap_left _ fun port isOutput => ?_
  rw [List.map_map]
  refine ((labelled.perm_names fun _ => Plan.hasPort_of_mem_inputsFrom).map _).trans ?_
  rw [List.map_map]
  refine .of_eq (List.map_congr_left fun target _ => ?_)
  exact congrArg (·, annotated.fullName target) (labelled.describeOutput_fullName isStage isOutput)

omit labelled in
theorem hasPort_ends {connection : Connection} (isConnection : connection ∈ annotated.plan.connections) :
    annotated.plan.HasPort connection.source ∧ annotated.plan.HasPort connection.target := by
  obtain ⟨producer, isProducer, output, isOutput, consumer, isConsumer, input, isInput, -, rfl⟩ :=
    Plan.mem_connections.1 isConnection
  exact ⟨⟨producer, isProducer, output, List.mem_append_right _ isOutput, rfl⟩,
    ⟨consumer, isConsumer, input, List.mem_append_left _ isInput, rfl⟩⟩

theorem nodup_edges : annotated.describe.edges.Nodup := by
  refine labelled.perm_edges.nodup_iff.2 (List.Nodup.map_on ?_ annotated.plan.connections.nodup)
  intro left isLeft right isRight same
  obtain ⟨leftSource, leftTarget⟩ := hasPort_ends isLeft
  obtain ⟨rightSource, rightTarget⟩ := hasPort_ends isRight
  have sources := labelled.address_unique leftSource rightSource (congrArg Prod.fst same)
  have targets := labelled.address_unique leftTarget rightTarget (congrArg Prod.snd same)
  cases left; cases right; cases sources; cases targets
  rfl

theorem mem_edges {edge : String × String} :
    edge ∈ annotated.describe.edges ↔ ∃ connection ∈ annotated.plan.connections,
      annotated.portName? connection.source.stage connection.source.port = some edge.1 ∧
      annotated.portName? connection.target.stage connection.target.port = some edge.2 := by
  rw [labelled.perm_edges.mem_iff, List.mem_map]
  refine exists_congr fun connection => and_congr_right fun isConnection => ?_
  obtain ⟨source, target⟩ := hasPort_ends isConnection
  rw [labelled.portName?_eq_some source, labelled.portName?_eq_some target, Option.some.injEq,
    Option.some.injEq, ← Prod.mk.injEq]

/-! ### A table of names -/

/-- The addresses of all ports with their full names. -/
theorem namedAddresses?_eq {stage : Stage} (isStage : stage ∈ annotated.plan.stages) :
    annotated.namedAddresses? stage = some (stage.ports.map fun port =>
      ((⟨stage.id, port.id⟩ : PortAddress), annotated.fullName ⟨stage.id, port.id⟩)) := by
  obtain ⟨vertex, isVertex⟩ := Option.isSome_iff_exists.1 (labelled.stages stage isStage)
  rw [namedAddresses?, isVertex, Option.bind_eq_bind, Option.bind_some]
  refine mapM_eq_some_map fun port isPort => ?_
  obtain ⟨name, isName⟩ := Option.isSome_iff_exists.1 (labelled.ports stage isStage port isPort)
  have full := labelled.fullName_eq isStage isPort
  rw [describeStage, isVertex, isName] at full
  rw [isName, ← full]
  rfl

/-- The table has the full name of every port. -/
theorem exists_nameTable : ∃ table, annotated.nameTable? = some table ∧
    ∀ address, annotated.plan.HasPort address →
      table[address]? = some (annotated.fullName address) := by
  have entries : annotated.plan.stages.mapM annotated.namedAddresses? =
      some (annotated.plan.stages.map fun stage => stage.ports.map fun port =>
        ((⟨stage.id, port.id⟩ : PortAddress), annotated.fullName ⟨stage.id, port.id⟩)) :=
    mapM_eq_some_map fun stage isStage => labelled.namedAddresses?_eq isStage
  refine ⟨_, by rw [nameTable?, entries]; rfl, ?_⟩
  rintro _ ⟨stage, isStage, port, isPort, rfl⟩
  refine ExtTreeMap.getElem?_ofList_of_mem Std.ReflCmp.compare_self (List.pairwise_map.1 (?_ :
    List.Pairwise (fun left right => ¬ compare left right = .eq) (List.map Prod.fst _))) ?_
  · rw [List.map_flatten, List.map_map, ← List.flatMap_def]
    simp only [Function.comp_def, List.map_map]
    exact (labelled.addressable.nodup_addresses fun _ _ => List.Sublist.refl _).imp
      fun differ same => differ (Std.LawfulEqCmp.eq_of_compare same)
  · rw [← List.flatMap_def, List.mem_flatMap]
    exact ⟨stage, isStage, List.mem_map_of_mem isPort⟩

/-- Looking names up in a table of all names gives the same description. -/
theorem tabledDescription_eq : annotated.tabledDescription = annotated.describe := by
  obtain ⟨table, isTable, full⟩ := labelled.exists_nameTable
  have stages : ∀ stage ∈ annotated.plan.stages,
      annotated.tabledStage table stage = annotated.describeStage stage := fun stage isStage =>
    tabledStage_eq labelled.addressable (fun address hasPort =>
      (full address hasPort).trans (labelled.portName?_eq_some hasPort).symm) isStage
  have vertices := labelled.describe_vertices
  rw [tabledDescription, isTable]
  rw [← List.map_congr_left stages] at vertices
  exact congrArg PlanDescription.mk vertices.symm

theorem mem_vertices {vertex : VertexDescription ν} : vertex ∈ annotated.describe.vertices ↔
    ∃ stage ∈ annotated.plan.stages, annotated.describeStage stage = vertex := by
  rw [labelled.describe_vertices, List.mem_map]

theorem nodup_names {addresses : List PortAddress} (distinct : addresses.Nodup)
    (havePorts : ∀ address ∈ addresses, annotated.plan.HasPort address) :
    (annotated.names addresses).Nodup :=
  (labelled.perm_names havePorts).nodup_iff.2 (List.Nodup.map_on (fun left isLeft right isRight =>
    labelled.address_unique (havePorts left isLeft) (havePorts right isRight)) distinct)

/-- The ends of connections name each other. -/
theorem mirrored : annotated.describe.Mirrored where
  mirrors vertex isVertex entry isEntry other isOther twin isTwin := by
    obtain ⟨producer, isProducer, rfl⟩ := labelled.mem_vertices.1 isVertex
    obtain ⟨consumer, isConsumer, rfl⟩ := labelled.mem_vertices.1 isOther
    obtain ⟨output, isOutput, rfl⟩ := mem_outputs_describeStage.1 isEntry
    obtain ⟨input, isInput, rfl⟩ := mem_inputs_describeStage.1 isTwin
    rw [labelled.describeInput_fullName isConsumer isInput,
      labelled.describeOutput_fullName isProducer isOutput,
      labelled.mem_opposites_output isConsumer isInput, labelled.mem_opposites_input isProducer isOutput]
  outputs vertex isVertex entry isEntry := by
    obtain ⟨producer, isProducer, rfl⟩ := labelled.mem_vertices.1 isVertex
    obtain ⟨output, isOutput, rfl⟩ := mem_outputs_describeStage.1 isEntry
    refine ⟨labelled.nodup_names (labelled.addressable.nodup_inputsFrom _)
      fun _ => Plan.hasPort_of_mem_inputsFrom, fun name isName => ?_⟩
    obtain ⟨address, member, rfl⟩ := List.mem_map.1
      ((labelled.perm_names fun _ => Plan.hasPort_of_mem_inputsFrom).mem_iff.1 isName)
    obtain ⟨consumer, isConsumer, input, isInput, -, rfl⟩ := Plan.mem_inputsFrom.1 member
    exact ⟨_, labelled.mem_vertices.2 ⟨consumer, isConsumer, rfl⟩, _,
      mem_inputs_describeStage.2 ⟨input, isInput, rfl⟩,
      labelled.describeInput_fullName isConsumer isInput⟩
  inputs vertex isVertex entry isEntry := by
    obtain ⟨consumer, isConsumer, rfl⟩ := labelled.mem_vertices.1 isVertex
    obtain ⟨input, isInput, rfl⟩ := mem_inputs_describeStage.1 isEntry
    refine ⟨labelled.nodup_names (labelled.addressable.nodup_outputsFrom _)
      fun _ => Plan.hasPort_of_mem_outputsFrom, fun name isName => ?_⟩
    obtain ⟨address, member, rfl⟩ := List.mem_map.1
      ((labelled.perm_names fun _ => Plan.hasPort_of_mem_outputsFrom).mem_iff.1 isName)
    obtain ⟨producer, isProducer, output, isOutput, -, rfl⟩ := Plan.mem_outputsFrom.1 member
    exact ⟨_, labelled.mem_vertices.2 ⟨producer, isProducer, rfl⟩, _,
      mem_outputs_describeStage.2 ⟨output, isOutput, rfl⟩,
      labelled.describeOutput_fullName isProducer isOutput⟩

end Labelled

/-- A description says what the plan is like. Once names are attached, whatever else is noted later,
there is one vertex for each stage, in the order of the plan, with one entry for each port; the edges
are the connections of the plan, each once, as pairs of full names; and inputs and outputs name each
other. Looking the names up in a table makes no difference. -/
theorem describe_faithful {notes named : Notes ν} (addressable : annotated.plan.Addressable)
    (succeeds : annotated.plan.attachNames.apply notes = (.ok (), named))
    (same : named.SameNames annotated.notes) :
    annotated.tabledDescription = annotated.describe ∧
      List.Forall₂ annotated.Portrays annotated.plan.stages annotated.describe.vertices ∧
      (annotated.describe.edges.Nodup ∧
        annotated.describe.edges.length = annotated.plan.connections.size ∧
        ∀ edge, edge ∈ annotated.describe.edges ↔ ∃ connection ∈ annotated.plan.connections,
          annotated.portName? connection.source.stage connection.source.port = some edge.1 ∧
          annotated.portName? connection.target.stage connection.target.port = some edge.2) ∧
      annotated.describe.Mirrored := by
  obtain ⟨order, isOrder⟩ := Plan.exists_order_of_attachNames succeeds
  have labelled := labelled_of_names addressable isOrder
    ((addressable.names_of_attachNames isOrder succeeds).mono same)
  refine ⟨labelled.tabledDescription_eq, ?_, ⟨labelled.nodup_edges, ?_, fun _ => labelled.mem_edges⟩,
    labelled.mirrored⟩
  · rw [labelled.describe_vertices, List.forall₂_map_right_iff, List.forall₂_same]
    exact fun stage isStage => labelled.portrays isStage
  · rw [labelled.perm_edges.length_eq, List.length_map, OrderedSet.size]

theorem describe_faithful_sharedSample : ∃ annotated : AnnotatedPlan Nat,
    annotated.plan = Plan.sharedSample ∧ annotated.plan.Addressable ∧
    annotated.plan.attachNames.apply {} = (.ok (), annotated.notes) ∧
    annotated.describe.edges.length = 2 ∧
    ("v0.o0", "v1.i0") ∈ annotated.describe.edges ∧ ("v0.o0", "v2.i0") ∈ annotated.describe.edges ∧
    annotated.describe.Mirrored := by
  have addressable : Plan.sharedSample.Addressable := ⟨by decide, by decide⟩
  have isOrder : Plan.sharedSample.order = .ok [⟨0⟩, ⟨1⟩, ⟨2⟩] := by decide +kernel
  have succeeds := Plan.apply_attachNames isOrder ({} : Notes Nat)
  refine ⟨⟨Plan.sharedSample, _⟩, rfl, addressable, succeeds, ?_⟩
  obtain ⟨-, -, ⟨-, length, edges⟩, mirrored⟩ :=
    @describe_faithful Nat ⟨Plan.sharedSample, _⟩ _ _ addressable succeeds (refl_of Notes.SameNames _)
  exact ⟨length.trans (by decide),
    (edges _).2 ⟨⟨⟨⟨0⟩, ⟨0⟩⟩, ⟨⟨1⟩, ⟨1⟩⟩⟩, by decide, by decide +kernel, by decide +kernel⟩,
    (edges _).2 ⟨⟨⟨⟨0⟩, ⟨0⟩⟩, ⟨⟨2⟩, ⟨2⟩⟩⟩, by decide, by decide +kernel, by decide +kernel⟩, mirrored⟩

end AnnotatedPlan

end StagePlanner
