import StagePlanner.Proofs.Stage.Realization

/-!
# Sound stages

What every pass over a plan may rely on and has to keep. In a proper stage data enter at inputs and
leave at outputs only, all of which are markers, and no port is listed twice. A stage is sound when
moreover all its markers are ports, each with one input and one output. Whatever a cut is like, a
stage that realizes it is proper; it is sound when the cut is complete and the markers of the graph
are like this.
-/

namespace StagePlanner

/-- Markers have one input and one output. -/
def Graph.SinglePortMarkers (graph : Graph) : Prop :=
  ∀ operator ∈ graph.operators, operator.isMarker = true →
    operator.inputs.length = 1 ∧ operator.outputs.length = 1

/-- Every marker has an input and an output. -/
def Graph.PortedMarkers (graph : Graph) : Prop :=
  ∀ operator ∈ graph.operators, operator.isMarker = true →
    operator.inputs ≠ [] ∧ operator.outputs ≠ []

/-- Every marker in the stages has an input and an output. -/
def Plan.PortedMarkers (plan : Plan) : Prop := ∀ stage ∈ plan.stages, stage.graph.PortedMarkers

theorem Graph.SinglePortMarkers.ported {graph : Graph} (single : graph.SinglePortMarkers) :
    graph.PortedMarkers := by
  intro operator member isMarker
  obtain ⟨oneInput, oneOutput⟩ := single operator member isMarker
  exact ⟨List.ne_nil_of_length_eq_add_one oneInput, List.ne_nil_of_length_eq_add_one oneOutput⟩

/-- What is at a marker is at its one input or at its one output. -/
theorem Graph.SinglePortMarkers.index_eq_zero {graph : Graph} (single : graph.SinglePortMarkers)
    (wellFormed : graph.WellFormed) {side : PortSide} {terminal : Terminal} {port : PortId}
    (isMarker : graph.isMarker terminal.operator = true) (isAt : graph.PortAt side terminal port) :
    terminal.index = 0 := by
  obtain ⟨operator, member, same, position⟩ := isAt
  rw [← same, Graph.isMarker, Graph.holds_id wellFormed member] at isMarker
  obtain ⟨oneInput, oneOutput⟩ := single operator member isMarker
  obtain ⟨bound, -⟩ := List.getElem?_eq_some_iff.1 position
  cases side with
  | input => simpa [Operator.portsOn, oneInput] using bound
  | output => simpa [Operator.portsOn, oneOutput] using bound

/-- The ports of a stage are markers in it, and nothing passes through them inside the stage. -/
structure Stage.Proper (stage : Stage) : Prop where
  wellFormed : stage.graph.WellFormed
  distinctPorts : (stage.ports.map StagePort.id).Nodup
  distinctMarkers : (stage.ports.map StagePort.marker).Nodup
  /-- Every port is a marker of the stage. -/
  marker : ∀ port ∈ stage.ports, ∃ operator ∈ stage.graph.operators,
    operator.id = port.marker ∧ operator.isMarker = true
  /-- Nothing in the stage feeds an input. -/
  unfed : ∀ port ∈ stage.inputs, ∀ id, ¬ stage.graph.Feeds id port.marker
  /-- An output feeds nothing in the stage. -/
  idle : ∀ port ∈ stage.outputs, ∀ id, ¬ stage.graph.Feeds port.marker id

/-- A proper stage whose ports are all of its markers, each with one input and one output. -/
structure Stage.Sound (stage : Stage) : Prop extends proper : Stage.Proper stage where
  /-- Every marker of the stage is a port. -/
  port : ∀ operator ∈ stage.graph.operators, operator.isMarker = true →
    ∃ port ∈ stage.ports, port.marker = operator.id
  singlePorts : stage.graph.SinglePortMarkers

/-- Proper stages under distinct identifiers. -/
structure Plan.Proper (plan : Plan) : Prop where
  distinct : plan.stageIds.Nodup
  stages : ∀ stage ∈ plan.stages, stage.Proper

/-- Sound stages under distinct identifiers. -/
structure Plan.Sound (plan : Plan) : Prop where
  distinct : plan.stageIds.Nodup
  stages : ∀ stage ∈ plan.stages, stage.Sound

theorem Plan.Sound.proper {plan : Plan} (sound : plan.Sound) : plan.Proper :=
  ⟨sound.distinct, fun stage isStage => (sound.stages stage isStage).proper⟩

/-! ### Ports of proper stages -/

namespace Stage.Proper

variable {stage : Stage} (proper : stage.Proper)

include proper

theorem input?_eq_some_iff {id : StagePortId} {port : StagePort} :
    stage.input? id = some port ↔ port ∈ stage.inputs ∧ port.id = id := by
  have distinct := proper.distinctPorts
  rw [ports, List.map_append] at distinct
  exact find?_key_eq_some_iff (List.nodup_append.1 distinct).1

theorem output?_eq_some_iff {id : StagePortId} {port : StagePort} :
    stage.output? id = some port ↔ port ∈ stage.outputs ∧ port.id = id := by
  have distinct := proper.distinctPorts
  rw [ports, List.map_append] at distinct
  exact find?_key_eq_some_iff (List.nodup_append.1 distinct).2.1

theorem inputAt?_eq_some_iff {id : OperatorId} {port : StagePort} :
    stage.inputAt? id = some port ↔ port ∈ stage.inputs ∧ port.marker = id := by
  have distinct := proper.distinctMarkers
  rw [ports, List.map_append] at distinct
  exact find?_key_eq_some_iff (List.nodup_append.1 distinct).1

theorem port_unique_of_id {left right : StagePort} (isLeft : left ∈ stage.ports)
    (isRight : right ∈ stage.ports) (same : left.id = right.id) : left = right :=
  List.inj_on_of_nodup_map proper.distinctPorts isLeft isRight same

theorem port_unique_of_marker {left right : StagePort} (isLeft : left ∈ stage.ports)
    (isRight : right ∈ stage.ports) (same : left.marker = right.marker) : left = right :=
  List.inj_on_of_nodup_map proper.distinctMarkers isLeft isRight same

theorem input_ne_output {input output : StagePort} (isInput : input ∈ stage.inputs)
    (isOutput : output ∈ stage.outputs) : input.marker ≠ output.marker := by
  have distinct := proper.distinctMarkers
  rw [ports, List.map_append] at distinct
  exact (List.nodup_append.1 distinct).2.2 _ (List.mem_map_of_mem isInput) _
    (List.mem_map_of_mem isOutput)

theorem exists_marker {port : StagePort} (isPort : port ∈ stage.ports) :
    ∃ operator, stage.graph.operator? port.marker = some operator ∧
      operator ∈ stage.graph.operators ∧ operator.id = port.marker ∧ operator.isMarker = true := by
  obtain ⟨operator, member, same, isMarker⟩ := proper.marker port isPort
  exact ⟨operator, proper.wellFormed.operator?_eq_some_iff.2 ⟨member, same⟩, member, same, isMarker⟩

theorem isMarker_port {port : StagePort} (isPort : port ∈ stage.ports) :
    stage.graph.isMarker port.marker = true := by
  obtain ⟨operator, member, same, isMarker⟩ := proper.marker port isPort
  rw [← same, Graph.isMarker, Graph.holds_id proper.wellFormed member, isMarker]

/-- An operator that is no marker is at no port. -/
theorem id_ne_marker {operator : Operator} (member : operator ∈ stage.graph.operators)
    (noMarker : operator.isMarker = false) {port : StagePort} (isPort : port ∈ stage.ports) :
    operator.id ≠ port.marker := by
  intro same
  have isMarker := proper.isMarker_port isPort
  rw [← same, Graph.isMarker, Graph.holds_id proper.wellFormed member, noMarker] at isMarker
  cases isMarker

/-- Where markers have ports, the marker of a port has a first one on either side. -/
theorem exists_portAt (ported : stage.graph.PortedMarkers) {port : StagePort}
    (isPort : port ∈ stage.ports) (side : PortSide) :
    ∃ id, stage.graph.PortAt side ⟨port.marker, 0⟩ id := by
  obtain ⟨operator, -, member, same, isMarker⟩ := proper.exists_marker isPort
  obtain ⟨someInput, someOutput⟩ := ported operator member isMarker
  cases side with
  | input =>
    obtain ⟨input, others, inputs⟩ := List.exists_cons_of_ne_nil someInput
    exact ⟨input.id, operator, member, same, by simp [Operator.portsOn, inputs]⟩
  | output =>
    obtain ⟨output, others, outputs⟩ := List.exists_cons_of_ne_nil someOutput
    exact ⟨output.id, operator, member, same, by simp [Operator.portsOn, outputs]⟩

end Stage.Proper

/-! ### Ports of sound stages -/

namespace Stage.Sound

variable {stage : Stage} (sound : stage.Sound)

include sound

/-- The operator of a port has one input and one output. -/
theorem exists_operator {port : StagePort} (isPort : port ∈ stage.ports) :
    ∃ operator, stage.graph.operator? port.marker = some operator ∧
      operator ∈ stage.graph.operators ∧ operator.id = port.marker ∧ operator.isMarker = true ∧
      (∃ input, operator.inputs = [input]) ∧ ∃ output, operator.outputs = [output] := by
  obtain ⟨operator, found, member, same, isMarker⟩ := sound.proper.exists_marker isPort
  obtain ⟨oneInput, oneOutput⟩ := sound.singlePorts operator member isMarker
  exact ⟨operator, found, member, same, isMarker, List.length_eq_one_iff.1 oneInput,
    List.length_eq_one_iff.1 oneOutput⟩

/-- Every marker of a stage is one of its ports. -/
theorem exists_port {id : OperatorId} (isMarker : stage.graph.isMarker id = true) :
    ∃ port ∈ stage.ports, port.marker = id := by
  obtain ⟨operator, member, rfl, isOne⟩ := (Graph.holds_iff sound.wellFormed).1 isMarker
  exact sound.port operator member isOne

/-- Wires end at the one input of a port and start at its one output. -/
theorem index_eq_zero {port : StagePort} (isPort : port ∈ stage.ports) {side : PortSide}
    {terminal : Terminal} {id : PortId} (isAt : stage.graph.PortAt side terminal id)
    (same : terminal.operator = port.marker) : terminal.index = 0 :=
  sound.singlePorts.index_eq_zero sound.wellFormed (same ▸ sound.proper.isMarker_port isPort) isAt

theorem wired_input_index {port : StagePort} (isPort : port ∈ stage.ports) {source : Terminal}
    {index : Nat} (wired : stage.graph.Wired source ⟨port.marker, index⟩) : index = 0 := by
  obtain ⟨_, _, -, isAt, -⟩ := wired
  exact sound.index_eq_zero isPort isAt rfl

theorem wired_output_index {port : StagePort} (isPort : port ∈ stage.ports) {target : Terminal}
    {index : Nat} (wired : stage.graph.Wired ⟨port.marker, index⟩ target) : index = 0 := by
  obtain ⟨_, _, isAt, -, -⟩ := wired
  exact sound.index_eq_zero isPort isAt rfl

end Stage.Sound

/-! ### Realized stages -/

namespace Stage.Realizes

variable {stage : Stage} {graph : Graph} {cut : StageCut} (realizes : stage.Realizes graph cut)
  (wellFormed : graph.WellFormed)

include realizes

/-- Every operator of the stage is like an operator of the graph. -/
theorem exists_alike {operator : Operator} (member : operator ∈ stage.graph.operators) :
    ∃ original ∈ graph.operators, operator.blueprint = original.blueprint := by
  obtain ⟨pair, isPair, isCopy⟩ := realizes.exists_source member
  obtain ⟨copy, copyMember, original, isOriginal, copyId, -, same⟩ := realizes.alike pair isPair
  obtain rfl := realizes.wellFormed.operator_unique copyMember member (copyId.trans isCopy)
  exact ⟨original, isOriginal, same⟩

include wellFormed

/-- A copy is a marker when its original is one. -/
theorem isMarker_eq {pair : CopiedPair .operator} (member : pair ∈ stage.provenance) :
    stage.graph.isMarker pair.copy = graph.isMarker pair.source := by
  obtain ⟨copy, isCopy, original, isOriginal, copyId, originalId, same⟩ := realizes.alike pair member
  rw [← copyId, ← originalId, Graph.isMarker, Graph.isMarker, Graph.holds_id realizes.wellFormed isCopy,
    Graph.holds_id wellFormed isOriginal]
  have kinds := congrArg Blueprint.kind same
  exact congrArg (fun kind => kind.marker?.isSome) kinds

/-- Stages that realize sound cuts are proper. -/
theorem stageProper (sound : cut.Sound graph) (distinct : (stage.ports.map StagePort.id).Nodup) :
    stage.Proper where
  wellFormed := realizes.wellFormed
  distinctPorts := distinct
  distinctMarkers := by
    have paired := List.rel_append realizes.inputs realizes.outputs
    have originals : (cut.inputs.toList ++ cut.outputs.toList).Nodup := by
      refine List.nodup_append.2 ⟨cut.inputs.nodup, cut.outputs.nodup, ?_⟩
      rintro id isInput _ isOutput rfl
      exact sound.apart id isInput isOutput
    refine List.pairwise_map.2 (pairwise_of_partners paired originals ?_)
    intro left right first second isFirst isSecond differ same
    -- Two ports with one marker would stand for the same marker of the graph.
    have equal := realizes.pair_unique_of_copy isFirst.2 isSecond.2 same
    exact differ (congrArg CopiedPair.source equal)
  marker port isPort := by
    obtain ⟨id, ⟨-, isCopy⟩, ends⟩ := realizes.exists_standsFor isPort
    obtain ⟨copy, member, -, -, copyId, -, -⟩ := realizes.alike _ isCopy
    have isMarker : graph.isMarker id = true := by
      rcases ends with isInput | isOutput
      · exact (sound.inputs id isInput).2
      · exact (sound.outputs id isOutput).2
    rw [← realizes.isMarker_eq wellFormed isCopy, ← copyId, Graph.isMarker,
      Graph.holds_id realizes.wellFormed member] at isMarker
    exact ⟨copy, member, copyId, isMarker⟩
  unfed port isInput id feeds := by
    obtain ⟨marker, isMarker, -, isCopy⟩ := exists_partner_of_mem realizes.inputs isInput
    obtain ⟨output, input, wired⟩ := feeds
    obtain ⟨left, -, right, isRight, -, rightCopy, carries⟩ := realizes.exists_original wired
    have same := realizes.pair_unique_of_copy isRight isCopy rightCopy
    have notInput := (StageCut.keeps_iff.1 carries.kept).1
    rw [same] at notInput
    exact notInput isMarker
  idle port isOutput id feeds := by
    obtain ⟨marker, isMarker, -, isCopy⟩ := exists_partner_of_mem realizes.outputs isOutput
    obtain ⟨output, input, wired⟩ := feeds
    obtain ⟨left, isLeft, right, -, leftCopy, -, carries⟩ := realizes.exists_original wired
    have same := realizes.pair_unique_of_copy isLeft isCopy leftCopy
    have notOutput := (StageCut.keeps_iff.1 carries.kept).2.1
    rw [same] at notOutput
    exact notOutput isMarker

/-- They are sound when the cuts are complete. -/
theorem stageSound (single : graph.SinglePortMarkers) (sound : cut.Sound graph)
    (complete : cut.Complete graph) (distinct : (stage.ports.map StagePort.id).Nodup) :
    stage.Sound := by
  refine ⟨realizes.stageProper wellFormed sound distinct, ?_, ?_⟩
  · intro operator member isMarker
    obtain ⟨pair, isPair, isCopy⟩ := realizes.exists_source member
    have copyMarker : stage.graph.isMarker pair.copy = true := by
      rw [isCopy, Graph.isMarker, Graph.holds_id realizes.wellFormed member, isMarker]
    rw [realizes.isMarker_eq wellFormed isPair] at copyMarker
    rcases complete.markers _ (realizes.source_mem isPair) copyMarker with isInput | isOutput
    · obtain ⟨port, isPort, -, portCopy⟩ := exists_partner realizes.inputs
        (OrderedSet.mem_toList.2 isInput)
      have same := realizes.pair_unique_of_source portCopy isPair rfl
      exact ⟨port, List.mem_append_left _ isPort, (congrArg CopiedPair.copy same).trans isCopy⟩
    · obtain ⟨port, isPort, -, portCopy⟩ := exists_partner realizes.outputs
        (OrderedSet.mem_toList.2 isOutput)
      have same := realizes.pair_unique_of_source portCopy isPair rfl
      exact ⟨port, List.mem_append_right _ isPort, (congrArg CopiedPair.copy same).trans isCopy⟩
  · intro operator member isMarker
    obtain ⟨original, isOriginal, same⟩ := realizes.exists_alike member
    have originalMarker : original.isMarker = true := by
      have kinds := congrArg (fun blueprint => blueprint.kind.marker?.isSome) same
      exact kinds.symm.trans isMarker
    have inputs := Operator.length_portsOn same .input
    have outputs := Operator.length_portsOn same .output
    obtain ⟨oneInput, oneOutput⟩ := single original isOriginal originalMarker
    exact ⟨inputs.trans oneInput, outputs.trans oneOutput⟩

end Stage.Realizes

end StagePlanner
