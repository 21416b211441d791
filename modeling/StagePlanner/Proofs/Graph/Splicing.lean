import StagePlanner.Proofs.Graph.Outcome

/-!
# Operators put between ports

An operator with one input and one output stands between some outputs and some inputs when it
replaces the edges between them (`Graph.Interposed`). `Edit.insertBefore` puts it between all
producers of an input and that input, `Edit.insertAfter` between an output and all its consumers,
and `Edit.bypass` takes an operator out of its place between its producers and its consumers.
-/

namespace StagePlanner

/-- An operator of the planner has one input and one output. -/
def Operator.Slender (operator : Operator) : Prop :=
  ∀ kind, operator.kind = .core kind → operator.inputs.length = 1 ∧ operator.outputs.length = 1

namespace Graph

/-- The second graph is the first one with an operator between some outputs and some inputs, all of
which were connected with each other. -/
structure Interposed (graph result : Graph) (operator : Operator) (entry exit : PortId)
    (sources targets : PortId → Prop) : Prop where
  operators : ∀ other, other ∈ result.operators ↔ other ∈ graph.operators ∨ other = operator
  fresh : operator.id ∉ graph.operatorIds
  inputs : operator.inputs.map Port.id = [entry]
  outputs : operator.outputs.map Port.id = [exit]
  /-- Every one of the outputs feeds every one of the inputs. -/
  joined : ∀ source target, sources source → targets target → ⟨source, target⟩ ∈ graph.edges
  areOutputs : ∀ source, sources source →
    ∃ other ∈ graph.operators, source ∈ other.outputs.map Port.id
  areInputs : ∀ target, targets target →
    ∃ other ∈ graph.operators, target ∈ other.inputs.map Port.id
  edges : ∀ source target, ⟨source, target⟩ ∈ result.edges ↔
    ⟨source, target⟩ ∈ graph.edges ∧ ¬ (sources source ∧ targets target) ∨
      sources source ∧ target = entry ∨ source = exit ∧ targets target

/-- Two graphs differ in their edges only. -/
structure SameButEdges (graph result : Graph) : Prop where
  operators : result.operators = graph.operators
  nextOperator : result.nextOperator = graph.nextOperator
  nextPort : result.nextPort = graph.nextPort
  nextSerial : result.nextSerial = graph.nextSerial

variable {graph result : Graph}

theorem SameButEdges.trans {middle : Graph} (first : graph.SameButEdges middle)
    (second : middle.SameButEdges result) : graph.SameButEdges result where
  operators := second.operators.trans first.operators
  nextOperator := second.nextOperator.trans first.nextOperator
  nextPort := second.nextPort.trans first.nextPort
  nextSerial := second.nextSerial.trans first.nextSerial

theorem SameButEdges.refl (graph : Graph) : graph.SameButEdges graph := ⟨rfl, rfl, rfl, rfl⟩

section Removed

variable {operator other : Operator} (same : (graph.without operator).SameButEdges result)

include same

/-- When an operator was removed the others are left. -/
theorem SameButEdges.mem_operators_iff :
    other ∈ result.operators ↔ other ∈ graph.operators ∧ other.id ≠ operator.id := by
  rw [same.operators]
  exact mem_operators_without

/-- What is left has no port of an operator that was removed. -/
theorem SameButEdges.not_mem_ports (wellFormed : graph.WellFormed) (member : operator ∈ graph.operators)
    (isThere : other ∈ result.operators) {port : PortId} (owned : port ∈ other.ports.map Port.id) :
    port ∉ operator.ports.map Port.id := by
  intro owns
  obtain ⟨old, differs⟩ := same.mem_operators_iff.1 isThere
  exact differs (congrArg Operator.id (wellFormed.owner_unique old member owned owns))

end Removed

/-- Edges may be taken away. -/
theorem SameButEdges.wellFormed (same : graph.SameButEdges result) (wellFormed : graph.WellFormed)
    (fewer : ∀ edge ∈ result.edges, edge ∈ graph.edges) : result.WellFormed where
  ascending := same.operators ▸ wellFormed.ascending
  operatorsBelow := by
    rw [same.operators, same.nextOperator]
    exact wellFormed.operatorsBelow
  ports := same.operators ▸ wellFormed.ports
  portsBelow := by
    rw [same.operators, same.nextPort]
    exact wellFormed.portsBelow
  sources edge isEdge := same.operators ▸ wellFormed.sources edge (fewer edge isEdge)
  targets edge isEdge := same.operators ▸ wellFormed.targets edge (fewer edge isEdge)

theorem sameButEdges_link (graph : Graph) (source target : PortId) :
    graph.SameButEdges (graph.link source target) := ⟨rfl, rfl, rfl, rfl⟩

theorem sameButEdges_unlink (graph : Graph) (source target : PortId) :
    graph.SameButEdges (graph.unlink source target) := ⟨rfl, rfl, rfl, rfl⟩

/-- The ports that an operator with one input and one output gets. -/
theorem exists_ports_added (graph : Graph) {blueprint : Blueprint} (passThrough : blueprint.isPassThrough = true) :
    (graph.added blueprint).inputs.map Port.id = [graph.nextPort] ∧
      (graph.added blueprint).outputs.map Port.id = [⟨graph.nextPort.index + 1⟩] := by
  obtain ⟨oneInput, oneOutput⟩ := Bool.and_eq_true_iff.1 passThrough
  have inputs := of_decide_eq_true oneInput
  have outputs := of_decide_eq_true oneOutput
  have first : graph.nextPort.run 1 = [graph.nextPort] := rfl
  constructor
  · rw [added, map_id_assignPorts, inputs, first]
  · rw [added, map_id_assignPorts, outputs, inputs]
    rfl

theorem fresh_added (wellFormed : graph.WellFormed) (blueprint : Blueprint) :
    (graph.added blueprint).id ∉ graph.operatorIds := by
  intro listed
  obtain ⟨operator, member, same⟩ := mem_operatorIds.1 listed
  have below := wellFormed.operatorsBelow operator member
  rw [same] at below
  exact Nat.lt_irrefl _ below

/-- A new operator with one input and one output stands between ports as soon as the edges lead
through it. -/
theorem interposed_of_added (wellFormed : graph.WellFormed) {blueprint : Blueprint}
    (passThrough : blueprint.isPassThrough = true)
    (same : (graph.add blueprint).2.SameButEdges result) {sources targets : PortId → Prop}
    (joined : ∀ source target, sources source → targets target → ⟨source, target⟩ ∈ graph.edges)
    (areOutputs : ∀ source, sources source →
      ∃ other ∈ graph.operators, source ∈ other.outputs.map Port.id)
    (areInputs : ∀ target, targets target →
      ∃ other ∈ graph.operators, target ∈ other.inputs.map Port.id)
    (edges : ∀ source target, ⟨source, target⟩ ∈ result.edges ↔
      ⟨source, target⟩ ∈ graph.edges ∧ ¬ (sources source ∧ targets target) ∨
        sources source ∧ target = graph.nextPort ∨
          source = ⟨graph.nextPort.index + 1⟩ ∧ targets target) :
    graph.Interposed result (graph.added blueprint) graph.nextPort ⟨graph.nextPort.index + 1⟩ sources
      targets where
  operators other := by
    rw [same.operators, operators_add, List.mem_append, List.mem_singleton]
  fresh := fresh_added wellFormed blueprint
  inputs := (graph.exists_ports_added passThrough).1
  outputs := (graph.exists_ports_added passThrough).2
  joined := joined
  areOutputs := areOutputs
  areInputs := areInputs
  edges := edges

/-- The ports of the operators that are there are below the ones that come next. -/
theorem WellFormed.ne_of_below (wellFormed : graph.WellFormed) {operator : Operator}
    (member : operator ∈ graph.operators) {port : PortId}
    (owned : port ∈ operator.ports.map Port.id) {offset : Nat} :
    port ≠ ⟨graph.nextPort.index + offset⟩ := by
  rintro rfl
  obtain ⟨found, isPort, same⟩ := List.mem_map.1 owned
  have below := wellFormed.portsBelow operator member found isPort
  rw [same] at below
  dsimp only at below
  omega

/-- An operator that is new has ports of its own. -/
theorem WellFormed.ne_added (wellFormed : graph.WellFormed) {blueprint : Blueprint}
    {operator : Operator} (member : operator ∈ graph.operators) {port other : PortId}
    (owned : port ∈ operator.ports.map Port.id)
    (new : other ∈ (graph.added blueprint).ports.map Port.id) : port ≠ other := by
  rw [map_id_ports_added] at new
  obtain ⟨offset, -, rfl⟩ := List.mem_map.1 new
  exact wellFormed.ne_of_below member owned

/-- An operator of the graph with one input and one output. -/
structure Threads (graph : Graph) (operator : Operator) (entry exit : PortId) : Prop where
  member : operator ∈ graph.operators
  inputs : operator.inputs.map Port.id = [entry]
  outputs : operator.outputs.map Port.id = [exit]

namespace Threads

variable {operator : Operator} {entry exit : PortId} (threads : graph.Threads operator entry exit)

include threads

theorem isEntry : entry ∈ operator.inputs.map Port.id := by
  rw [threads.inputs]
  exact List.mem_singleton_self _

theorem isExit : exit ∈ operator.outputs.map Port.id := by
  rw [threads.outputs]
  exact List.mem_singleton_self _

theorem ports : operator.ports.map Port.id = [entry, exit] := by
  rw [Operator.ports, List.map_append, threads.inputs, threads.outputs]
  rfl

/-- Where there are no circuits such an operator does not feed itself. -/
theorem loopless (acyclic : graph.Acyclic) : ⟨exit, entry⟩ ∉ graph.edges := fun loop =>
  acyclic operator.id (.single (feeds_iff_exists_edge.2 ⟨_, _, loop,
    ⟨operator, threads.member, rfl, threads.isExit⟩, operator, threads.member, rfl, threads.isEntry⟩))

end Threads

/-- No output is an input as well. -/
theorem WellFormed.output_ne_input (wellFormed : graph.WellFormed) {producer consumer : Operator}
    (isProducer : producer ∈ graph.operators) (isConsumer : consumer ∈ graph.operators)
    {output input : PortId} (isOutput : output ∈ producer.outputs.map Port.id)
    (isInput : input ∈ consumer.inputs.map Port.id) : output ≠ input := by
  rintro rfl
  obtain rfl := wellFormed.owner_unique isProducer isConsumer
    (Operator.mem_ports_of_mem_portsOn .output isOutput)
    (Operator.mem_ports_of_mem_portsOn .input isInput)
  have onOutputs : output ∈ (producer.portsOn .output).map Port.id := isOutput
  have onInputs : output ∈ (producer.portsOn .input).map Port.id := isInput
  exact absurd (wellFormed.side_unique isProducer onOutputs onInputs) nofun

/-- No edge leaves at the input of an operator or enters at its output. -/
theorem Threads.apart_of_edge (wellFormed : graph.WellFormed) {operator : Operator} {entry exit : PortId}
    (threads : graph.Threads operator entry exit) {source target : PortId}
    (isEdge : ⟨source, target⟩ ∈ graph.edges) : source ≠ entry ∧ target ≠ exit := by
  obtain ⟨producer, isProducer, gives⟩ := wellFormed.sources _ isEdge
  obtain ⟨consumer, isConsumer, takes⟩ := wellFormed.targets _ isEdge
  exact ⟨wellFormed.output_ne_input isProducer threads.member gives threads.isEntry,
    (wellFormed.output_ne_input threads.member isConsumer threads.isExit takes).symm⟩

/-- What feeds an operator that does not feed itself is another operator. -/
theorem Threads.exists_producer (wellFormed : graph.WellFormed) {operator : Operator}
    {entry exit : PortId} (threads : graph.Threads operator entry exit)
    (loopless : ⟨exit, entry⟩ ∉ graph.edges) {source : PortId}
    (isEdge : ⟨source, entry⟩ ∈ graph.edges) :
    ∃ producer ∈ graph.operators, producer.id ≠ operator.id ∧
      source ∈ producer.outputs.map Port.id := by
  obtain ⟨producer, isProducer, gives⟩ := wellFormed.sources _ isEdge
  refine ⟨producer, isProducer, fun same => loopless ?_, gives⟩
  obtain rfl := wellFormed.operator_unique isProducer threads.member same
  rw [threads.outputs, List.mem_singleton] at gives
  exact gives ▸ isEdge

/-- What reads an operator that does not feed itself is another operator. -/
theorem Threads.exists_consumer (wellFormed : graph.WellFormed) {operator : Operator}
    {entry exit : PortId} (threads : graph.Threads operator entry exit)
    (loopless : ⟨exit, entry⟩ ∉ graph.edges) {target : PortId}
    (isEdge : ⟨exit, target⟩ ∈ graph.edges) :
    ∃ consumer ∈ graph.operators, consumer.id ≠ operator.id ∧
      target ∈ consumer.inputs.map Port.id := by
  obtain ⟨consumer, isConsumer, takes⟩ := wellFormed.targets _ isEdge
  refine ⟨consumer, isConsumer, fun same => loopless ?_, takes⟩
  obtain rfl := wellFormed.operator_unique isConsumer threads.member same
  rw [threads.inputs, List.mem_singleton] at takes
  exact takes ▸ isEdge

end Graph

/-- Data pass such an operator from its input to its output. -/
theorem Operator.Slender.threads {graph : Graph} {operator : Operator} (slender : operator.Slender)
    (member : operator ∈ graph.operators) {kind : CoreKind} (isCore : operator.isCore kind = true) :
    ∃ entry exit, graph.Threads operator entry exit := by
  obtain ⟨inputs, outputs⟩ := slender kind (of_decide_eq_true isCore)
  obtain ⟨input, isInput⟩ := List.length_eq_one_iff.1 inputs
  obtain ⟨output, isOutput⟩ := List.length_eq_one_iff.1 outputs
  exact ⟨input.id, output.id, member, by rw [isInput]; rfl, by rw [isOutput]; rfl⟩

namespace Edit

variable {graph result : Graph}

/-- Edges that are replaced one by one are all replaced in the end. -/
theorem yields_forM_replace (old new : PortId → Edge) {items : List PortId}
    (differ : ∀ item other, new item ≠ old other) {done : PUnit}
    (yields : (items.forM fun item => do
      let _ ← disconnect (old item).source (old item).target
      connect (new item).source (new item).target).Yields graph done result) :
    graph.SameButEdges result ∧ ∀ edge, edge ∈ result.edges ↔
        edge ∈ graph.edges ∧ (∀ item ∈ items, edge ≠ old item) ∨ ∃ item ∈ items, edge = new item := by
  induction items generalizing graph with
  | nil =>
    obtain ⟨-, rfl⟩ := yields_pure.1 yields
    exact ⟨.refl graph, by simp⟩
  | cons item rest ih =>
    obtain ⟨_, changed, first, others⟩ := yields_bind.1 yields
    obtain ⟨_, unlinked, removed, added⟩ := yields_bind.1 first
    obtain rfl := yields_disconnect removed
    obtain ⟨-, -, rfl⟩ := yields_connect added
    obtain ⟨same, edges⟩ := ih others
    refine ⟨((Graph.sameButEdges_unlink graph _ _).trans (Graph.sameButEdges_link _ _ _)).trans same,
      fun edge => ?_⟩
    rw [edges]
    simp only [Graph.link, Graph.unlink, OrderedSet.mem_insert, OrderedSet.mem_erase,
      List.forall_mem_cons, List.exists_mem_cons_iff]
    constructor
    · rintro (⟨rfl | ⟨old, kept⟩, others⟩ | new)
      · exact .inr (.inl rfl)
      · exact .inl ⟨old, kept, others⟩
      · exact .inr (.inr new)
    · rintro (⟨old, kept, others⟩ | rfl | new)
      · exact .inl ⟨.inr ⟨old, kept⟩, others⟩
      · exact .inl ⟨.inl rfl, fun other _ => differ item other⟩
      · exact .inr new

/-- Edges that are added one by one are all there in the end. -/
theorem yields_forM_add {α : Type} {items : List α} {edit : α → Edit PUnit}
    {adds : α → Edge → Prop}
    (each : ∀ item ∈ items, ∀ before done after, (edit item).Yields before done after →
      before.SameButEdges after ∧
        ∀ edge, edge ∈ after.edges ↔ edge ∈ before.edges ∨ adds item edge)
    {done : PUnit} (yields : (items.forM edit).Yields graph done result) :
    graph.SameButEdges result ∧
      ∀ edge, edge ∈ result.edges ↔ edge ∈ graph.edges ∨ ∃ item ∈ items, adds item edge := by
  induction items generalizing graph with
  | nil =>
    obtain ⟨-, rfl⟩ := yields_pure.1 yields
    exact ⟨.refl graph, by simp⟩
  | cons item rest ih =>
    obtain ⟨_, changed, first, others⟩ := yields_bind.1 yields
    obtain ⟨sameFirst, edgesFirst⟩ := each item List.mem_cons_self graph _ changed first
    obtain ⟨sameOthers, edgesOthers⟩ :=
      ih (fun other member => each other (List.mem_cons_of_mem _ member)) others
    refine ⟨sameFirst.trans sameOthers, fun edge => ?_⟩
    rw [edgesOthers, edgesFirst, or_assoc, List.exists_mem_cons_iff]

theorem yields_forM_connect {α : Type} {items : List α} (source target : α → PortId) {done : PUnit}
    (yields : (items.forM fun item => connect (source item) (target item)).Yields graph done result) :
    graph.SameButEdges result ∧ ∀ edge, edge ∈ result.edges ↔
      edge ∈ graph.edges ∨ ∃ item ∈ items, edge = ⟨source item, target item⟩ := by
  refine yields_forM_add (fun item _ before _ after connected => ?_) yields
  obtain ⟨-, -, rfl⟩ := yields_connect connected
  exact ⟨Graph.sameButEdges_link _ _ _, fun edge => by
    rw [Graph.link, OrderedSet.mem_insert, or_comm]⟩

/-- The ports of the operator that was added last. -/
theorem ports_of_added (wellFormed : graph.WellFormed) {blueprint : Blueprint}
    (passThrough : blueprint.isPassThrough = true) :
    (graph.add blueprint).2.inputAt graph.nextOperator 0 = .ok graph.nextPort ∧
      (graph.add blueprint).2.outputAt graph.nextOperator 0 =
        .ok ⟨graph.nextPort.index + 1⟩ := by
  have member : graph.added blueprint ∈ (graph.add blueprint).2.operators :=
    List.mem_append_right _ List.mem_cons_self
  obtain ⟨inputs, outputs⟩ := graph.exists_ports_added passThrough
  constructor
  · refine Graph.inputAt_of_portAt (wellFormed.add blueprint) ⟨_, member, rfl, ?_⟩
    rw [Operator.portsOn, inputs]
    rfl
  · refine Graph.outputAt_of_portAt (wellFormed.add blueprint) ⟨_, member, rfl, ?_⟩
    rw [Operator.portsOn, outputs]
    rfl

/-- What a splice does before it turns to edges: the port is on the side that it has to be on, and the
new operator is there with one input and one output. -/
theorem yields_opened (wellFormed : graph.WellFormed) {port : PortId} {side : PortSide}
    {blueprint : Blueprint} {cause : GraphFault} {α : Type} {value : α}
    {rest : OperatorId → PortId → PortId → Edit α}
    (yields : Yields (do
      requirePassThrough blueprint
      let place ← look fun graph => graph.place port
      if place.side ≠ side then refuse cause
      let id ← add blueprint
      let entry ← look fun graph => graph.inputAt id 0
      let exit ← look fun graph => graph.outputAt id 0
      rest id entry exit) graph value result) :
    blueprint.isPassThrough = true ∧
      (∃ owner ∈ graph.operators, port ∈ (owner.portsOn side).map Port.id) ∧
      (rest graph.nextOperator graph.nextPort ⟨graph.nextPort.index + 1⟩).Yields
        (graph.add blueprint).2 value result := by
  simp only [yields_bind, yields_look, yields_check, yields_requirePassThrough, yields_add] at yields
  obtain ⟨_, _, ⟨passThrough, rfl⟩, place, _, ⟨found, rfl⟩, onSide, _, _, ⟨rfl, rfl⟩, entry, _,
    ⟨isEntry, rfl⟩, exit, _, ⟨isExit, rfl⟩, wired⟩ := yields
  obtain ⟨atEntry, atExit⟩ := ports_of_added wellFormed passThrough
  obtain rfl := Except.ok.inj (atEntry.symm.trans isEntry)
  obtain rfl := Except.ok.inj (atExit.symm.trans isExit)
  obtain ⟨isOwner, owned⟩ := Graph.mem_portsOn_of_place? (Graph.place_eq_ok.1 found)
  rw [not_ne_iff.1 onSide] at owned
  exact ⟨passThrough, ⟨_, isOwner, owned⟩, wired⟩

/-- What putting an operator before an input leaves. -/
theorem yields_insertBefore (wellFormed : graph.WellFormed) {input : PortId} {blueprint : Blueprint}
    {id : OperatorId} (yields : (insertBefore input blueprint).Yields graph id result) :
    (graph.add blueprint).2.SameButEdges result ∧ id = graph.nextOperator ∧
      (∃ operator ∈ graph.operators, input ∈ operator.inputs.map Port.id) ∧
      graph.Interposed result (graph.added blueprint) graph.nextPort ⟨graph.nextPort.index + 1⟩
        (fun source => ⟨source, input⟩ ∈ graph.edges) fun target => target = input := by
  obtain ⟨passThrough, ⟨owner, isOwner, owned⟩, wired⟩ := yields_opened wellFormed yields
  simp only [yields_bind, yields_get, yields_pure] at wired
  obtain ⟨_, _, ⟨rfl, rfl⟩, _, rewired, replaced, _, _, connected, rfl, rfl⟩ := wired
  have notEntry : input ≠ ⟨graph.nextPort.index + 0⟩ :=
    wellFormed.ne_of_below isOwner (Operator.mem_ports_of_mem_portsOn .input owned)
  rw [(wellFormed.add blueprint).opposites_input (List.mem_append_left _ isOwner) owned] at replaced
  obtain ⟨same, edges⟩ := yields_forM_replace (fun producer => ⟨producer, input⟩)
    (fun producer => ⟨producer, graph.nextPort⟩)
    (fun _ _ equal => notEntry (congrArg Edge.target equal).symm) replaced
  obtain ⟨-, -, rfl⟩ := yields_connect connected
  have spliced := same.trans (Graph.sameButEdges_link _ ⟨graph.nextPort.index + 1⟩ input)
  refine ⟨spliced, rfl, ⟨_, isOwner, owned⟩, Graph.interposed_of_added wellFormed passThrough spliced
    ?_ (fun source feeds => wellFormed.sources _ feeds) ?_ fun source target => ?_⟩
  · rintro source target feeds rfl
    exact feeds
  · rintro target rfl
    exact ⟨_, isOwner, owned⟩
  · rw [Graph.link, OrderedSet.mem_insert, edges]
    change _ ∨ (_ ∈ graph.edges ∧ (∀ producer ∈ graph.producers input, _) ∨
      ∃ producer ∈ graph.producers input, _) ↔ _
    simp only [Edge.mk.injEq, ne_eq, Graph.mem_producers]
    constructor
    · rintro (⟨rfl, rfl⟩ | ⟨old, others⟩ | ⟨producer, feeds, rfl, rfl⟩)
      · exact .inr (.inr ⟨rfl, rfl⟩)
      · exact .inl ⟨old, fun ⟨feeds, same⟩ => others source feeds ⟨rfl, same⟩⟩
      · exact .inr (.inl ⟨feeds, rfl⟩)
    · rintro (⟨old, kept⟩ | ⟨feeds, rfl⟩ | both)
      · refine .inr (.inl ⟨old, ?_⟩)
        rintro producer feeds ⟨rfl, same⟩
        exact kept ⟨feeds, same⟩
      · exact .inr (.inr ⟨source, feeds, rfl, rfl⟩)
      · exact .inl both

/-- What putting an operator behind an output leaves. -/
theorem yields_insertAfter (wellFormed : graph.WellFormed) {output : PortId} {blueprint : Blueprint}
    {id : OperatorId} (yields : (insertAfter output blueprint).Yields graph id result) :
    (graph.add blueprint).2.SameButEdges result ∧ id = graph.nextOperator ∧
      (∃ operator ∈ graph.operators, output ∈ operator.outputs.map Port.id) ∧
      graph.Interposed result (graph.added blueprint) graph.nextPort ⟨graph.nextPort.index + 1⟩
        (fun source => source = output) fun target => ⟨output, target⟩ ∈ graph.edges := by
  obtain ⟨passThrough, ⟨owner, isOwner, owned⟩, wired⟩ := yields_opened wellFormed yields
  simp only [yields_bind, yields_get, yields_pure] at wired
  obtain ⟨_, _, ⟨rfl, rfl⟩, _, rewired, replaced, _, _, connected, rfl, rfl⟩ := wired
  have notExit : output ≠ ⟨graph.nextPort.index + 1⟩ :=
    wellFormed.ne_of_below isOwner (Operator.mem_ports_of_mem_portsOn .output owned)
  rw [(wellFormed.add blueprint).opposites_output (List.mem_append_left _ isOwner) owned] at replaced
  obtain ⟨same, edges⟩ := yields_forM_replace (fun consumer => ⟨output, consumer⟩)
    (fun consumer => ⟨⟨graph.nextPort.index + 1⟩, consumer⟩)
    (fun _ _ equal => notExit (congrArg Edge.source equal).symm) replaced
  obtain ⟨-, -, rfl⟩ := yields_connect connected
  have spliced := same.trans (Graph.sameButEdges_link _ output graph.nextPort)
  refine ⟨spliced, rfl, ⟨_, isOwner, owned⟩, Graph.interposed_of_added wellFormed passThrough spliced
    ?_ ?_ (fun target feeds => wellFormed.targets _ feeds) fun source target => ?_⟩
  · rintro source target rfl feeds
    exact feeds
  · rintro source rfl
    exact ⟨_, isOwner, owned⟩
  · rw [Graph.link, OrderedSet.mem_insert, edges]
    change _ ∨ (_ ∈ graph.edges ∧ (∀ consumer ∈ graph.consumers output, _) ∨
      ∃ consumer ∈ graph.consumers output, _) ↔ _
    simp only [Edge.mk.injEq, ne_eq, Graph.mem_consumers]
    constructor
    · rintro (⟨rfl, rfl⟩ | ⟨old, others⟩ | ⟨consumer, feeds, rfl, rfl⟩)
      · exact .inr (.inl ⟨rfl, rfl⟩)
      · exact .inl ⟨old, fun ⟨same, feeds⟩ => others target feeds ⟨same, rfl⟩⟩
      · exact .inr (.inr ⟨rfl, feeds⟩)
    · rintro (⟨old, kept⟩ | both | ⟨rfl, feeds⟩)
      · refine .inr (.inl ⟨old, ?_⟩)
        rintro consumer feeds ⟨same, rfl⟩
        exact kept ⟨same, feeds⟩
      · exact .inl both
      · exact .inr (.inr ⟨target, feeds, rfl, rfl⟩)

/-- What bypassing an operator leaves. -/
theorem yields_bypass (wellFormed : graph.WellFormed) {id : OperatorId} {done : Unit}
    (yields : (bypass id).Yields graph done result) :
    ∃ operator entry exit, operator.id = id ∧ graph.Threads operator entry exit ∧
      (graph.without operator).SameButEdges result ∧
      ∀ source target, ⟨source, target⟩ ∈ result.edges ↔
        ⟨source, target⟩ ∈ (graph.without operator).edges ∨
          ⟨source, entry⟩ ∈ graph.edges ∧ ⟨exit, target⟩ ∈ graph.edges := by
  simp only [bypass, yields_bind, yields_look] at yields
  obtain ⟨operator, _, ⟨found, rfl⟩, rest⟩ := yields
  obtain ⟨member, sameId⟩ := Graph.mem_of_operator found
  split at rest
  · next input output inputs outputs =>
    have threads : graph.Threads operator input.id output.id :=
      ⟨member, by rw [inputs]; rfl, by rw [outputs]; rfl⟩
    refine ⟨operator, input.id, output.id, sameId, threads, ?_⟩
    simp only [yields_bind, yields_get, yields_remove] at rest
    obtain ⟨_, _, ⟨rfl, rfl⟩, _, _, ⟨rfl, rfl⟩, _, _, ⟨removed, rfl⟩, connected⟩ := rest
    obtain rfl := Except.ok.inj (found.symm.trans removed)
    rw [wellFormed.opposites_input member threads.isEntry,
      wellFormed.opposites_output member threads.isExit] at connected
    obtain ⟨same, edges⟩ := yields_forM_add
      (fun producer _ _ _ _ each => yields_forM_connect (fun _ => producer) (fun consumer => consumer) each) connected
    refine ⟨same, fun source target => ?_⟩
    rw [edges]
    simp only [Graph.mem_producers, Graph.mem_consumers, Edge.mk.injEq]
    refine or_congr_right ⟨?_, ?_⟩
    · rintro ⟨producer, produces, consumer, consumes, rfl, rfl⟩
      exact ⟨produces, consumes⟩
    · rintro ⟨produces, consumes⟩
      exact ⟨source, produces, target, consumes, rfl, rfl⟩
  · exact absurd rest not_yields_refuse

end Edit

end StagePlanner
