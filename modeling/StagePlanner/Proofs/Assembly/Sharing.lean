import StagePlanner.Plan.Unification
import StagePlanner.Proofs.Assembly.Removal
import StagePlanner.Proofs.Graph.Copying
import StagePlanner.Proofs.Graph.Outcome

/-!
# Merging two ports of a stage

A port is merged into another one of the same side by wiring the other one like both and removing
it. `MergesOutputs` and `MergesInputs` say what is left. In proper stages merging succeeds when there
is something to wire at both ports, and in sound stages there always is.
-/

namespace StagePlanner

namespace Graph

variable {graph : Graph}

/-- Edges from outputs to inputs can be added one by one. -/
theorem exists_apply_forM_connect {α : Type} (source target : α → PortId) (items : List α)
    (wellFormed : graph.WellFormed)
    (sources : ∀ item ∈ items, ∃ operator ∈ graph.operators,
      source item ∈ (operator.portsOn .output).map Port.id)
    (targets : ∀ item ∈ items, ∃ operator ∈ graph.operators,
      target item ∈ (operator.portsOn .input).map Port.id) :
    ∃ changed, (items.forM fun item => Edit.connect (source item) (target item)).apply graph =
        (.ok (), changed) ∧
      changed.WellFormed ∧ changed.operators = graph.operators ∧
      ∀ edge, edge ∈ changed.edges ↔
        edge ∈ graph.edges ∨ ∃ item ∈ items, edge = ⟨source item, target item⟩ := by
  induction items generalizing graph with
  | nil => exact ⟨graph, rfl, wellFormed, rfl, by simp⟩
  | cons item rest ih =>
    obtain ⟨producer, isProducer, isOutput⟩ := sources item List.mem_cons_self
    obtain ⟨consumer, isConsumer, isInput⟩ := targets item List.mem_cons_self
    obtain ⟨start, startFound, -, startSide⟩ := wellFormed.exists_place? isProducer .output isOutput
    obtain ⟨finish, finishFound, -, finishSide⟩ := wellFormed.exists_place? isConsumer .input isInput
    obtain ⟨changed, isChanged, changedWellFormed, operators, edges⟩ := ih
      (wellFormed.link ⟨producer, isProducer, isOutput⟩ ⟨consumer, isConsumer, isInput⟩)
      (fun other member => sources other (List.mem_cons_of_mem _ member))
      fun other member => targets other (List.mem_cons_of_mem _ member)
    refine ⟨changed, ?_, changedWellFormed, operators, fun edge => ?_⟩
    · change (Edit.connect (source item) (target item) >>= fun _ => rest.forM _).apply graph = _
      rw [Edit.apply_bind, Edit.apply_connect startFound startSide finishFound finishSide]
      exact isChanged
    · rw [edges, link, OrderedSet.mem_insert, List.exists_mem_cons_iff, or_comm (a := edge = _),
        or_assoc]

theorem PortAt.mem_portsOn {side : PortSide} {terminal : Terminal} {port : PortId}
    (isAt : graph.PortAt side terminal port) :
    ∃ operator ∈ graph.operators, port ∈ (operator.portsOn side).map Port.id := by
  obtain ⟨operator, member, -, position⟩ := isAt
  exact ⟨operator, member, List.mem_of_getElem? position⟩

/-- Whatever is wired to the first marker becomes wired to the second one as well. -/
theorem exists_shareProducers (wellFormed : graph.WellFormed) {source target : OperatorId}
    {sourceInput targetInput : PortId} (sourceAt : graph.PortAt .input ⟨source, 0⟩ sourceInput)
    (targetAt : graph.PortAt .input ⟨target, 0⟩ targetInput) :
    ∃ changed, graph.edited (Stage.shareProducers source target) = .ok changed ∧
      changed.WellFormed ∧ changed.operators = graph.operators ∧
      ∀ start finish, changed.Wired start finish ↔ graph.Wired start finish ∨
        finish = ⟨target, 0⟩ ∧ graph.Wired start ⟨source, 0⟩ := by
  have opposites : graph.opposites sourceInput = graph.producers sourceInput := by
    obtain ⟨operator, member, owned⟩ := sourceAt.mem_portsOn
    exact wellFormed.opposites_input member owned
  obtain ⟨changed, isChanged, changedWellFormed, operators, edges⟩ :=
    exists_apply_forM_connect id (fun _ => targetInput) (graph.producers sourceInput)
      wellFormed (fun producer member => wellFormed.sources _ (mem_producers.1 member))
      fun _ _ => targetAt.mem_portsOn
  refine ⟨changed, ?_, changedWellFormed, operators, fun start finish => ?_⟩
  · rw [edited, Stage.shareProducers, Edit.apply_bind, Edit.apply_look,
      inputAt_of_portAt wellFormed targetAt]
    dsimp only
    rw [Edit.apply_bind, Edit.apply_look, inputAt_of_portAt wellFormed sourceAt]
    dsimp only
    rw [Edit.apply_bind]
    change (match ((graph.opposites sourceInput).forM fun producer =>
      Edit.connect producer targetInput).apply graph with
      | (.ok (), changed) => _
      | (.error fault, _) => _) = _
    rw [opposites]
    simp only [id_eq] at isChanged
    rw [isChanged]
  · simp only [Wired, PortAt.congr operators, edges]
    constructor
    · rintro ⟨output, input, outputAt, inputAt, old | ⟨producer, isProducer, new⟩⟩
      · exact .inl ⟨output, input, outputAt, inputAt, old⟩
      · cases new
        obtain rfl := wellFormed.portAt_unique inputAt targetAt
        exact .inr ⟨rfl, _, _, outputAt, sourceAt, mem_producers.1 isProducer⟩
    · rintro (⟨output, input, outputAt, inputAt, old⟩ | ⟨rfl, output, input, outputAt, inputAt, edge⟩)
      · exact ⟨output, input, outputAt, inputAt, .inl old⟩
      · obtain rfl := wellFormed.portAt_functional inputAt sourceAt
        exact ⟨_, _, outputAt, targetAt, .inr ⟨_, mem_producers.2 edge, rfl⟩⟩

/-- Whatever the first marker is wired to becomes wired to the second one as well. -/
theorem exists_shareConsumers (wellFormed : graph.WellFormed) {source target : OperatorId}
    {sourceOutput targetOutput : PortId} (sourceAt : graph.PortAt .output ⟨source, 0⟩ sourceOutput)
    (targetAt : graph.PortAt .output ⟨target, 0⟩ targetOutput) :
    ∃ changed, graph.edited (Stage.shareConsumers source target) = .ok changed ∧
      changed.WellFormed ∧ changed.operators = graph.operators ∧
      ∀ start finish, changed.Wired start finish ↔ graph.Wired start finish ∨
        start = ⟨target, 0⟩ ∧ graph.Wired ⟨source, 0⟩ finish := by
  have opposites : graph.opposites sourceOutput = graph.consumers sourceOutput := by
    obtain ⟨operator, member, owned⟩ := sourceAt.mem_portsOn
    exact wellFormed.opposites_output member owned
  obtain ⟨changed, isChanged, changedWellFormed, operators, edges⟩ :=
    exists_apply_forM_connect (fun _ => targetOutput) id (graph.consumers sourceOutput)
      wellFormed (fun _ _ => targetAt.mem_portsOn)
      fun consumer member => wellFormed.targets _ (mem_consumers.1 member)
  refine ⟨changed, ?_, changedWellFormed, operators, fun start finish => ?_⟩
  · rw [edited, Stage.shareConsumers, Edit.apply_bind, Edit.apply_look,
      outputAt_of_portAt wellFormed targetAt]
    dsimp only
    rw [Edit.apply_bind, Edit.apply_look, outputAt_of_portAt wellFormed sourceAt]
    dsimp only
    rw [Edit.apply_bind]
    change (match ((graph.opposites sourceOutput).forM fun consumer =>
      Edit.connect targetOutput consumer).apply graph with
      | (.ok (), changed) => _
      | (.error fault, _) => _) = _
    rw [opposites]
    simp only [id_eq] at isChanged
    rw [isChanged]
  · simp only [Wired, PortAt.congr operators, edges]
    constructor
    · rintro ⟨output, input, outputAt, inputAt, old | ⟨consumer, isConsumer, new⟩⟩
      · exact .inl ⟨output, input, outputAt, inputAt, old⟩
      · cases new
        obtain rfl := wellFormed.portAt_unique outputAt targetAt
        exact .inr ⟨rfl, _, _, sourceAt, inputAt, mem_consumers.1 isConsumer⟩
    · rintro (⟨output, input, outputAt, inputAt, old⟩ | ⟨rfl, output, input, outputAt, inputAt, edge⟩)
      · exact ⟨output, input, outputAt, inputAt, .inl old⟩
      · obtain rfl := wellFormed.portAt_functional outputAt sourceAt
        exact ⟨_, _, targetAt, inputAt, .inr ⟨_, mem_consumers.2 edge, rfl⟩⟩

theorem yields_of_edited {edit : Edit Unit} {changed : Graph}
    (edited : graph.edited edit = .ok changed) : edit.Yields graph () changed := by
  rw [Graph.edited] at edited
  split at edited
  · next same =>
    cases edited
    exact same
  · cases edited

/-- Producers are only shared by operators with an input. -/
theorem portAt_of_shareProducers {source target : OperatorId} {changed : Graph}
    (shared : graph.edited (Stage.shareProducers source target) = .ok changed) :
    (∃ input, graph.PortAt .input ⟨source, 0⟩ input) ∧
      ∃ input, graph.PortAt .input ⟨target, 0⟩ input := by
  have yields : (Stage.shareProducers source target).Yields graph () changed := yields_of_edited shared
  simp only [Stage.shareProducers, Edit.yields_bind, Edit.yields_look] at yields
  obtain ⟨targetInput, _, ⟨targetFound, rfl⟩, sourceInput, _, ⟨sourceFound, -⟩, -⟩ := yields
  exact ⟨⟨sourceInput, portAt_of_inputAt sourceFound⟩, targetInput, portAt_of_inputAt targetFound⟩

/-- Consumers are only shared by operators with an output. -/
theorem portAt_of_shareConsumers {source target : OperatorId} {changed : Graph}
    (shared : graph.edited (Stage.shareConsumers source target) = .ok changed) :
    (∃ output, graph.PortAt .output ⟨source, 0⟩ output) ∧
      ∃ output, graph.PortAt .output ⟨target, 0⟩ output := by
  have yields : (Stage.shareConsumers source target).Yields graph () changed := yields_of_edited shared
  simp only [Stage.shareConsumers, Edit.yields_bind, Edit.yields_look] at yields
  obtain ⟨targetOutput, _, ⟨targetFound, rfl⟩, sourceOutput, _, ⟨sourceFound, -⟩, -⟩ := yields
  exact ⟨⟨sourceOutput, portAt_of_outputAt sourceFound⟩, targetOutput, portAt_of_outputAt targetFound⟩

end Graph

/-- What identifies a port within its stage. -/
def StagePort.place (port : StagePort) : StagePortId × OperatorId := (port.id, port.marker)

/-- A port that stands for further origins. -/
def StagePort.widened (port : StagePort) (origins : OrderedSet OperatorId) : StagePort :=
  { port with origins := port.origins.union origins }

namespace Stage

variable {stage : Stage}

theorem Sound.exists_portAt (sound : stage.Sound) {port : StagePort} (isPort : port ∈ stage.ports)
    (side : PortSide) : ∃ id, stage.graph.PortAt side ⟨port.marker, 0⟩ id :=
  sound.proper.exists_portAt sound.singlePorts.ported isPort side

theorem exists_same_place {ports others : List StagePort}
    (same : ports.map StagePort.place = others.map StagePort.place) {port : StagePort}
    (member : port ∈ ports) : ∃ other ∈ others, other.id = port.id ∧ other.marker = port.marker := by
  have listed : port.place ∈ others.map StagePort.place := same ▸ List.mem_map_of_mem member
  obtain ⟨other, isOther, equal⟩ := List.mem_map.1 listed
  exact ⟨other, isOther, congrArg Prod.fst equal, congrArg Prod.snd equal⟩

/-- A stage stays proper when origins change and when wires change that keep away from the outer
sides of its ports. -/
theorem Proper.of_same_places (proper : stage.Proper) {result : Stage}
    (wellFormed : result.graph.WellFormed)
    (operators : result.graph.operators = stage.graph.operators)
    (inputs : result.inputs.map StagePort.place = stage.inputs.map StagePort.place)
    (outputs : result.outputs.map StagePort.place = stage.outputs.map StagePort.place)
    (unfed : ∀ port ∈ stage.inputs, ∀ id, ¬ result.graph.Feeds id port.marker)
    (idle : ∀ port ∈ stage.outputs, ∀ id, ¬ result.graph.Feeds port.marker id) : result.Proper := by
  have ports : result.ports.map StagePort.place = stage.ports.map StagePort.place := by
    rw [Stage.ports, Stage.ports, List.map_append, List.map_append, inputs, outputs]
  refine ⟨wellFormed, ?_, ?_, ?_, ?_, ?_⟩
  · have ids := congrArg (List.map Prod.fst) ports
    rw [List.map_map, List.map_map] at ids
    exact ids ▸ proper.distinctPorts
  · have markers := congrArg (List.map Prod.snd) ports
    rw [List.map_map, List.map_map] at markers
    exact markers ▸ proper.distinctMarkers
  · intro port isPort
    obtain ⟨old, isOld, -, same⟩ := exists_same_place ports isPort
    rw [operators, ← same]
    exact proper.marker old isOld
  · intro port isInput id
    obtain ⟨old, isOld, -, same⟩ := exists_same_place inputs isInput
    exact same ▸ unfed old isOld id
  · intro port isOutput id
    obtain ⟨old, isOld, -, same⟩ := exists_same_place outputs isOutput
    exact same ▸ idle old isOld id

/-- It stays sound when only origins change. -/
theorem Sound.of_same_places (sound : stage.Sound) {result : Stage} (graph : result.graph = stage.graph)
    (inputs : result.inputs.map StagePort.place = stage.inputs.map StagePort.place)
    (outputs : result.outputs.map StagePort.place = stage.outputs.map StagePort.place) :
    result.Sound := by
  have ports : result.ports.map StagePort.place = stage.ports.map StagePort.place := by
    rw [Stage.ports, Stage.ports, List.map_append, List.map_append, inputs, outputs]
  have proper : result.Proper := by
    refine sound.proper.of_same_places ?_ (congrArg Graph.operators graph) inputs outputs ?_ ?_
    · rw [graph]; exact sound.wellFormed
    · rw [graph]; exact sound.unfed
    · rw [graph]; exact sound.idle
  refine ⟨proper, fun operator member isMarker => ?_, graph ▸ sound.singlePorts⟩
  obtain ⟨old, isOld, isAt⟩ := sound.port operator (graph ▸ member) isMarker
  obtain ⟨port, isPort, -, same⟩ := exists_same_place ports.symm isOld
  exact ⟨port, isPort, same.trans isAt⟩

/-! ### Widening ports -/

theorem map_place_widen (ports : List StagePort) (id : StagePortId)
    (origins : OrderedSet OperatorId) :
    (ports.map fun port => if port.id = id then { port with origins := port.origins.union origins }
      else port).map StagePort.place = ports.map StagePort.place := by
  rw [List.map_map]
  refine List.map_congr_left fun port _ => ?_
  rw [Function.comp_apply]
  split <;> rfl

/-- Widening changes the one port with the identifier. -/
theorem mem_map_widen {ports : List StagePort} {kept port : StagePort} (member : kept ∈ ports)
    (unique : ∀ other ∈ ports, other.id = kept.id → other = kept) (origins : OrderedSet OperatorId) :
    (port ∈ ports.map fun other => if other.id = kept.id then
        { other with origins := other.origins.union origins } else other) ↔
      (port ∈ ports ∧ port ≠ kept) ∨ port = kept.widened origins := by
  rw [List.mem_map]
  constructor
  · rintro ⟨other, isOther, rfl⟩
    split
    · next same =>
      obtain rfl := unique other isOther same
      exact .inr rfl
    · next differ => exact .inl ⟨isOther, fun same => differ (congrArg StagePort.id same)⟩
  · rintro (⟨isPort, differ⟩ | rfl)
    · exact ⟨port, isPort, if_neg fun same => differ (unique port isPort same)⟩
    · exact ⟨kept, member, if_pos rfl⟩

/-- When a port is merged into another one that is widened, the others of its side are left. -/
theorem mem_merged_iff {ports : List StagePort} {kept absorbed port : StagePort}
    (unique : ∀ other ∈ ports, other.marker = absorbed.marker → other = absorbed)
    (differ : kept.marker ≠ absorbed.marker) {origins : OrderedSet OperatorId} :
    ((port ∈ ports ∧ port ≠ kept) ∨ port = kept.widened origins) ∧ port.marker ≠ absorbed.marker ↔
      (port ∈ ports ∧ port ≠ kept ∧ port ≠ absorbed) ∨ port = kept.widened origins := by
  constructor
  · rintro ⟨⟨isPort, notKept⟩ | rfl, stays⟩
    · exact .inl ⟨isPort, notKept, fun same => stays (congrArg StagePort.marker same)⟩
    · exact .inr rfl
  · rintro (⟨isPort, notKept, notAbsorbed⟩ | rfl)
    · exact ⟨.inl ⟨isPort, notKept⟩, fun same => notAbsorbed (unique port isPort same)⟩
    · exact ⟨.inr rfl, differ⟩

theorem Proper.mem_widenOutput (proper : stage.Proper) {kept port : StagePort}
    (isOutput : kept ∈ stage.outputs) (origins : OrderedSet OperatorId) :
    port ∈ (stage.widenOutput kept.id origins).outputs ↔
      (port ∈ stage.outputs ∧ port ≠ kept) ∨ port = kept.widened origins :=
  mem_map_widen isOutput (fun _ isOther same => proper.port_unique_of_id
    (List.mem_append_right _ isOther) (List.mem_append_right _ isOutput) same) origins

theorem Proper.mem_widenInput (proper : stage.Proper) {kept port : StagePort}
    (isInput : kept ∈ stage.inputs) (origins : OrderedSet OperatorId) :
    port ∈ (stage.widenInput kept.id origins).inputs ↔
      (port ∈ stage.inputs ∧ port ≠ kept) ∨ port = kept.widened origins :=
  mem_map_widen isInput (fun _ isOther same => proper.port_unique_of_id
    (List.mem_append_left _ isOther) (List.mem_append_left _ isInput) same) origins

theorem Proper.widenOutput (proper : stage.Proper) (id : StagePortId)
    (origins : OrderedSet OperatorId) : (stage.widenOutput id origins).Proper :=
  proper.of_same_places proper.wellFormed rfl rfl (map_place_widen _ _ _) proper.unfed proper.idle

theorem Proper.widenInput (proper : stage.Proper) (id : StagePortId)
    (origins : OrderedSet OperatorId) : (stage.widenInput id origins).Proper :=
  proper.of_same_places proper.wellFormed rfl (map_place_widen _ _ _) rfl proper.unfed proper.idle

theorem weight_widenOutput (id : StagePortId) (origins : OrderedSet OperatorId) :
    (stage.widenOutput id origins).weight = stage.weight := by
  simp only [weight, Stage.widenOutput, List.length_map]

theorem weight_widenInput (id : StagePortId) (origins : OrderedSet OperatorId) :
    (stage.widenInput id origins).weight = stage.weight := by
  simp only [weight, Stage.widenInput, List.length_map]

/-! ### Merging ports -/

/-- The first stage is the second one with one output merged into another one: what fed either of
them feeds the one that is kept. -/
structure MergesOutputs (result stage : Stage) (kept absorbed : StagePort) : Prop where
  id : result.id = stage.id
  provenance : result.provenance = stage.provenance
  operators : ∀ operator, operator ∈ result.graph.operators ↔
    operator ∈ stage.graph.operators ∧ operator.id ≠ absorbed.marker
  wired : ∀ source target, result.graph.Wired source target ↔ target.operator ≠ absorbed.marker ∧
    (stage.graph.Wired source target ∨
      target = ⟨kept.marker, 0⟩ ∧ stage.graph.Wired source ⟨absorbed.marker, 0⟩)
  inputs : ∀ port, port ∈ result.inputs ↔ port ∈ stage.inputs
  outputs : ∀ port, port ∈ result.outputs ↔
    (port ∈ stage.outputs ∧ port ≠ kept ∧ port ≠ absorbed) ∨ port = kept.widened absorbed.origins

/-- The first stage is the second one with one input merged into another one: the one that is kept
feeds what either of them fed. -/
structure MergesInputs (result stage : Stage) (kept absorbed : StagePort) : Prop where
  id : result.id = stage.id
  provenance : result.provenance = stage.provenance
  operators : ∀ operator, operator ∈ result.graph.operators ↔
    operator ∈ stage.graph.operators ∧ operator.id ≠ absorbed.marker
  wired : ∀ source target, result.graph.Wired source target ↔ source.operator ≠ absorbed.marker ∧
    (stage.graph.Wired source target ∨
      source = ⟨kept.marker, 0⟩ ∧ stage.graph.Wired ⟨absorbed.marker, 0⟩ target)
  inputs : ∀ port, port ∈ result.inputs ↔
    (port ∈ stage.inputs ∧ port ≠ kept ∧ port ≠ absorbed) ∨ port = kept.widened absorbed.origins
  outputs : ∀ port, port ∈ result.outputs ↔ port ∈ stage.outputs

/-- A stage stays proper when what feeds one output feeds another one too. -/
theorem Proper.of_sharedProducers (proper : stage.Proper) {kept absorbed : StagePort}
    (isKept : kept ∈ stage.outputs) {graph : Graph} (wellFormed : graph.WellFormed)
    (operators : graph.operators = stage.graph.operators)
    (wired : ∀ source target, graph.Wired source target ↔ stage.graph.Wired source target ∨
      target = ⟨kept.marker, 0⟩ ∧ stage.graph.Wired source ⟨absorbed.marker, 0⟩) :
    ({ stage with graph } : Stage).Proper := by
  refine proper.of_same_places wellFormed operators rfl rfl ?_ ?_
  · rintro port isInput id ⟨output, input, feeds⟩
    rcases (wired _ _).1 feeds with old | ⟨same, -⟩
    · exact proper.unfed port isInput id old.feeds
    · exact proper.input_ne_output isInput isKept (congrArg Terminal.operator same)
  · rintro port isOutput id ⟨output, input, feeds⟩
    rcases (wired _ _).1 feeds with old | ⟨-, old⟩
    · exact proper.idle port isOutput id old.feeds
    · exact proper.idle port isOutput absorbed.marker old.feeds

/-- A stage stays proper when one input feeds what another one feeds. -/
theorem Proper.of_sharedConsumers (proper : stage.Proper) {kept absorbed : StagePort}
    (isKept : kept ∈ stage.inputs) {graph : Graph} (wellFormed : graph.WellFormed)
    (operators : graph.operators = stage.graph.operators)
    (wired : ∀ source target, graph.Wired source target ↔ stage.graph.Wired source target ∨
      source = ⟨kept.marker, 0⟩ ∧ stage.graph.Wired ⟨absorbed.marker, 0⟩ target) :
    ({ stage with graph } : Stage).Proper := by
  refine proper.of_same_places wellFormed operators rfl rfl ?_ ?_
  · rintro port isInput id ⟨output, input, feeds⟩
    rcases (wired _ _).1 feeds with old | ⟨-, old⟩
    · exact proper.unfed port isInput id old.feeds
    · exact proper.unfed port isInput absorbed.marker old.feeds
  · rintro port isOutput id ⟨output, input, feeds⟩
    rcases (wired _ _).1 feeds with old | ⟨same, -⟩
    · exact proper.idle port isOutput id old.feeds
    · exact proper.input_ne_output isKept isOutput (congrArg Terminal.operator same).symm

/-- An output can be merged into another one when both have an input. -/
theorem Proper.exists_mergeOutputs (proper : stage.Proper) {kept absorbed : StagePort}
    (isKept : kept ∈ stage.outputs) (isAbsorbed : absorbed ∈ stage.outputs)
    (differ : kept ≠ absorbed) {keptInput absorbedInput : PortId}
    (keptAt : stage.graph.PortAt .input ⟨kept.marker, 0⟩ keptInput)
    (absorbedAt : stage.graph.PortAt .input ⟨absorbed.marker, 0⟩ absorbedInput) :
    ∃ result, stage.mergeOutputs kept absorbed = .ok result ∧ result.Proper ∧
      result.MergesOutputs stage kept absorbed ∧ result.weight < stage.weight := by
  have keptPort : kept ∈ stage.ports := List.mem_append_right _ isKept
  have absorbedPort : absorbed ∈ stage.ports := List.mem_append_right _ isAbsorbed
  have markersDiffer : kept.marker ≠ absorbed.marker := fun same =>
    differ (proper.port_unique_of_marker keptPort absorbedPort same)
  obtain ⟨graph, isGraph, wellFormed, operators, wired⟩ :=
    Graph.exists_shareProducers proper.wellFormed absorbedAt keptAt
  have sharedProper := proper.of_sharedProducers isKept wellFormed operators wired
  have widenedProper := sharedProper.widenOutput kept.id absorbed.origins
  have stillThere := (sharedProper.mem_widenOutput isKept absorbed.origins).2
    (.inl ⟨isAbsorbed, differ.symm⟩)
  obtain ⟨result, isResult, restricts⟩ := widenedProper.exists_removeOutput stillThere
  have lighter : result.weight < stage.weight := by
    refine (weight_removeOutput_lt isResult).trans_eq ?_
    rw [weight_widenOutput]
    simp only [weight, Graph.size, operators]
  refine ⟨result, ?_, restricts.proper widenedProper, ⟨restricts.id, restricts.provenance,
    fun operator => ?_, fun source target => ?_, fun port => ?_, fun port => ?_⟩, lighter⟩
  · rw [mergeOutputs, isGraph]
    exact isResult
  · rw [restricts.graph.operators]
    exact and_congr_left fun _ => by rw [← operators]; rfl
  · rw [restricts.graph.wired]
    constructor
    · rintro ⟨new, -, targetStays⟩
      exact ⟨targetStays, (wired _ _).1 new⟩
    · rintro ⟨targetStays, either⟩
      refine ⟨(wired _ _).2 either, fun same => ?_, targetStays⟩
      rcases either with old | ⟨-, old⟩
      · exact proper.idle absorbed isAbsorbed target.operator (same ▸ old.feeds)
      · exact proper.idle absorbed isAbsorbed absorbed.marker (same ▸ old.feeds)
  · rw [restricts.mem_inputs]
    exact and_iff_left_of_imp fun isInput => proper.input_ne_output isInput isAbsorbed
  · rw [restricts.mem_outputs, sharedProper.mem_widenOutput isKept]
    refine mem_merged_iff (fun other isOther same => ?_) markersDiffer
    exact proper.port_unique_of_marker (List.mem_append_right _ isOther) absorbedPort same

/-- An input can be merged into another one when both have an output. -/
theorem Proper.exists_mergeInputs (proper : stage.Proper) {kept absorbed : StagePort}
    (isKept : kept ∈ stage.inputs) (isAbsorbed : absorbed ∈ stage.inputs)
    (differ : kept ≠ absorbed) {keptOutput absorbedOutput : PortId}
    (keptAt : stage.graph.PortAt .output ⟨kept.marker, 0⟩ keptOutput)
    (absorbedAt : stage.graph.PortAt .output ⟨absorbed.marker, 0⟩ absorbedOutput) :
    ∃ result, stage.mergeInputs kept absorbed = .ok result ∧ result.Proper ∧
      result.MergesInputs stage kept absorbed ∧ result.weight < stage.weight := by
  have keptPort : kept ∈ stage.ports := List.mem_append_left _ isKept
  have absorbedPort : absorbed ∈ stage.ports := List.mem_append_left _ isAbsorbed
  have markersDiffer : kept.marker ≠ absorbed.marker := fun same =>
    differ (proper.port_unique_of_marker keptPort absorbedPort same)
  obtain ⟨graph, isGraph, wellFormed, operators, wired⟩ :=
    Graph.exists_shareConsumers proper.wellFormed absorbedAt keptAt
  have sharedProper := proper.of_sharedConsumers isKept wellFormed operators wired
  have widenedProper := sharedProper.widenInput kept.id absorbed.origins
  have stillThere := (sharedProper.mem_widenInput isKept absorbed.origins).2
    (.inl ⟨isAbsorbed, differ.symm⟩)
  obtain ⟨result, isResult, restricts⟩ := widenedProper.exists_removeInput stillThere
  have lighter : result.weight < stage.weight := by
    refine (weight_removeInput_lt isResult).trans_eq ?_
    rw [weight_widenInput]
    simp only [weight, Graph.size, operators]
  refine ⟨result, ?_, restricts.proper widenedProper, ⟨restricts.id, restricts.provenance,
    fun operator => ?_, fun source target => ?_, fun port => ?_, fun port => ?_⟩, lighter⟩
  · rw [mergeInputs, isGraph]
    exact isResult
  · rw [restricts.graph.operators]
    exact and_congr_left fun _ => by rw [← operators]; rfl
  · rw [restricts.graph.wired]
    constructor
    · rintro ⟨new, sourceStays, -⟩
      exact ⟨sourceStays, (wired _ _).1 new⟩
    · rintro ⟨sourceStays, either⟩
      refine ⟨(wired _ _).2 either, sourceStays, fun same => ?_⟩
      rcases either with old | ⟨-, old⟩
      · exact proper.unfed absorbed isAbsorbed source.operator (same ▸ old.feeds)
      · exact proper.unfed absorbed isAbsorbed absorbed.marker (same ▸ old.feeds)
  · rw [restricts.mem_inputs, sharedProper.mem_widenInput isKept]
    refine mem_merged_iff (fun other isOther same => ?_) markersDiffer
    exact proper.port_unique_of_marker (List.mem_append_left _ isOther) absorbedPort same
  · rw [restricts.mem_outputs]
    exact and_iff_left_of_imp fun isOutput => (proper.input_ne_output isAbsorbed isOutput).symm

/-- When an output is merged into another one both have an input. -/
theorem portAt_of_mergeOutputs {result : Stage} {kept absorbed : StagePort}
    (merged : stage.mergeOutputs kept absorbed = .ok result) :
    (∃ input, stage.graph.PortAt .input ⟨absorbed.marker, 0⟩ input) ∧
      ∃ input, stage.graph.PortAt .input ⟨kept.marker, 0⟩ input := by
  obtain ⟨graph, shared, -⟩ := bind_eq_ok_iff.1 merged
  exact Graph.portAt_of_shareProducers shared

/-- When an input is merged into another one both have an output. -/
theorem portAt_of_mergeInputs {result : Stage} {kept absorbed : StagePort}
    (merged : stage.mergeInputs kept absorbed = .ok result) :
    (∃ output, stage.graph.PortAt .output ⟨absorbed.marker, 0⟩ output) ∧
      ∃ output, stage.graph.PortAt .output ⟨kept.marker, 0⟩ output := by
  obtain ⟨graph, shared, -⟩ := bind_eq_ok_iff.1 merged
  exact Graph.portAt_of_shareConsumers shared

/-! ### Merging ports of sound stages -/

/-- A stage from which one marker is gone is sound when the other markers still have their ports. -/
theorem Proper.sound_of_absorbed {result : Stage} {absorbed : StagePort} (proper : result.Proper)
    (sound : stage.Sound)
    (operators : ∀ operator ∈ result.graph.operators,
      operator ∈ stage.graph.operators ∧ operator.id ≠ absorbed.marker)
    (ports : ∀ port ∈ stage.ports, port ≠ absorbed →
      ∃ left ∈ result.ports, left.marker = port.marker) : result.Sound := by
  refine ⟨proper, fun operator member isMarker => ?_,
    fun operator member => sound.singlePorts operator (operators operator member).1⟩
  obtain ⟨old, differ⟩ := operators operator member
  obtain ⟨port, isPort, same⟩ := sound.port operator old isMarker
  obtain ⟨left, isLeft, alike⟩ := ports port isPort fun isAbsorbed =>
    differ (same.symm.trans (congrArg StagePort.marker isAbsorbed))
  exact ⟨left, isLeft, alike.trans same⟩

theorem MergesOutputs.sound {result : Stage} {kept absorbed : StagePort}
    (merges : result.MergesOutputs stage kept absorbed) (proper : result.Proper) (sound : stage.Sound) :
    result.Sound := by
  refine proper.sound_of_absorbed sound (fun operator => (merges.operators operator).1)
    fun port isPort differs => ?_
  rcases List.mem_append.1 isPort with isInput | isOutput
  · exact ⟨port, List.mem_append_left _ ((merges.inputs port).2 isInput), rfl⟩
  · by_cases isKept : port = kept
    · exact ⟨_, List.mem_append_right _ ((merges.outputs _).2 (.inr rfl)), isKept ▸ rfl⟩
    · exact ⟨port, List.mem_append_right _
        ((merges.outputs port).2 (.inl ⟨isOutput, isKept, differs⟩)), rfl⟩

theorem MergesInputs.sound {result : Stage} {kept absorbed : StagePort}
    (merges : result.MergesInputs stage kept absorbed) (proper : result.Proper) (sound : stage.Sound) :
    result.Sound := by
  refine proper.sound_of_absorbed sound (fun operator => (merges.operators operator).1)
    fun port isPort differs => ?_
  rcases List.mem_append.1 isPort with isInput | isOutput
  · by_cases isKept : port = kept
    · exact ⟨_, List.mem_append_left _ ((merges.inputs _).2 (.inr rfl)), isKept ▸ rfl⟩
    · exact ⟨port, List.mem_append_left _
        ((merges.inputs port).2 (.inl ⟨isInput, isKept, differs⟩)), rfl⟩
  · exact ⟨port, List.mem_append_right _ ((merges.outputs port).2 isOutput), rfl⟩

/-- An output can be merged into another one. -/
theorem Sound.exists_mergeOutputs (sound : stage.Sound) {kept absorbed : StagePort}
    (isKept : kept ∈ stage.outputs) (isAbsorbed : absorbed ∈ stage.outputs)
    (differ : kept ≠ absorbed) :
    ∃ result, stage.mergeOutputs kept absorbed = .ok result ∧ result.Sound ∧
      result.MergesOutputs stage kept absorbed := by
  obtain ⟨_, keptAt⟩ := sound.exists_portAt (List.mem_append_right _ isKept) .input
  obtain ⟨_, absorbedAt⟩ := sound.exists_portAt (List.mem_append_right _ isAbsorbed) .input
  obtain ⟨result, isResult, proper, merges, -⟩ :=
    sound.proper.exists_mergeOutputs isKept isAbsorbed differ keptAt absorbedAt
  exact ⟨result, isResult, merges.sound proper sound, merges⟩

/-- An input can be merged into another one. -/
theorem Sound.exists_mergeInputs (sound : stage.Sound) {kept absorbed : StagePort}
    (isKept : kept ∈ stage.inputs) (isAbsorbed : absorbed ∈ stage.inputs)
    (differ : kept ≠ absorbed) :
    ∃ result, stage.mergeInputs kept absorbed = .ok result ∧ result.Sound ∧
      result.MergesInputs stage kept absorbed := by
  obtain ⟨_, keptAt⟩ := sound.exists_portAt (List.mem_append_left _ isKept) .output
  obtain ⟨_, absorbedAt⟩ := sound.exists_portAt (List.mem_append_left _ isAbsorbed) .output
  obtain ⟨result, isResult, proper, merges, -⟩ :=
    sound.proper.exists_mergeInputs isKept isAbsorbed differ keptAt absorbedAt
  exact ⟨result, isResult, merges.sound proper sound, merges⟩

end Stage

end StagePlanner
