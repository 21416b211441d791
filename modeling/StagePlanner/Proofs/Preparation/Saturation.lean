import StagePlanner.Proofs.Graph.Completion
import StagePlanner.Proofs.Marking.Checkpointing
import StagePlanner.Proofs.Preparation.Readiness

/-!
# Saturated graphs

Inserting markers changes nothing in a graph that has all that it would insert
(`Planner.insertMarkers_of_saturates`): core checkpoints are gone, classes ask for nothing but what units
demand, the ports of external operators are checkpointed if this is switched on, and so are broadcasts
broken.
-/

namespace StagePlanner

namespace Graph

variable {graph : Graph}

theorem WellFormed.isBounded_of_boundBy (wellFormed : graph.WellFormed) {operator : Operator}
    (member : operator ∈ graph.operators) {input : PortId}
    (owned : input ∈ operator.inputs.map Port.id) (fed : ∃ source, ⟨source, input⟩ ∈ graph.edges)
    {marker : Marker} {crossing : Crossing} (bound : graph.BoundBy marker crossing input) :
    graph.isBounded marker crossing input = true := by
  have listed : ∀ id, id ∈ (graph.oppositeOperators input).toList ↔ _ := fun _ =>
    OrderedSet.mem_toList.trans (wellFormed.mem_oppositeOperators .input member owned)
  simp only [isBounded, Bool.and_eq_true, Bool.not_eq_true', List.isEmpty_eq_false_iff_exists_mem,
    List.all_eq_true, listed]
  constructor
  · obtain ⟨source, isEdge⟩ := fed
    obtain ⟨producer, isProducer, gives⟩ := wellFormed.sources _ isEdge
    exact ⟨_, source, isEdge, producer, isProducer, gives, rfl⟩
  · rintro _ ⟨source, isEdge, producer, isProducer, gives, rfl⟩
    obtain ⟨found, isFound, alsoGives, isBound⟩ := bound source isEdge
    obtain rfl := wellFormed.owner_unique isProducer isFound
      (Operator.mem_ports_of_mem_portsOn .output gives)
      (Operator.mem_ports_of_mem_portsOn .output alsoGives)
    rw [holds_id wellFormed isProducer]
    simpa using isBound

/-- In a ready graph every demand is met. -/
theorem Ready.boundBy (ready : graph.Ready) {operator : Operator} (member : operator ∈ graph.operators)
    {input : Port} {marker : Marker} {crossing : Crossing}
    (demands : operator.Demands input marker crossing) : graph.BoundBy marker crossing input.id := by
  intro source isEdge
  obtain ⟨producer, isProducer, gives⟩ := ready.wellFormed.sources _ isEdge
  obtain ⟨output, isOutput, rfl⟩ := List.mem_map.1 gives
  refine ⟨producer, isProducer, gives, ?_⟩
  cases demands with
  | gathered isUser owned isGroup =>
    exact ready.grouped operator member _ isUser input owned isGroup producer isProducer output isOutput
      isEdge
  | broadcast isUser owned isWhole =>
    exact ready.whole operator member _ isUser input owned isWhole producer isProducer output isOutput
      isEdge

end Graph

/-! ### Classes ask for what units demand -/

section

variable {ν : Type} [Volume ν] {limit : Option ν} {graph : Graph} {estimator : Estimator}
  {operator : Operator} {operatorClass : OperatorClass}

theorem OperatorClass.describes_of_user? {estimates : Estimates ν}
    (isClass : classOf? limit graph estimates operator = some operatorClass) {definition : UserOperator}
    (isUser : operator.kind.user? = some definition) :
    operator.kind = .user definition ∧ operatorClass.Describes operator definition
      (operator.IsShuffled limit graph estimates definition) := by
  have kind : operator.kind = .user definition := by
    cases kind : operator.kind <;> rw [kind] at isUser <;> cases isUser
    rfl
  obtain ⟨found, isFound, describes⟩ := exists_classOf? limit graph estimates kind
  exact ⟨kind, Option.some.inj (isFound.symm.trans isClass) ▸ describes⟩

/-- A class of a settled operator asks for no shuffle that its units do not demand. -/
theorem Operator.Settled.gathered (settled : operator.Settled limit estimator graph)
    {definition : UserOperator} (isUser : operator.kind = .user definition)
    (describes : operatorClass.Describes operator definition
      (operator.IsShuffled limit graph (estimator.estimate graph) definition))
    (isGroup : operatorClass.primaryUse = .group) {port : PortId} (listed : port ∈ operatorClass.primary) :
    ∃ input ∈ operator.inputs, input.id = port ∧ operator.Demands input .gather
      (input.crossing (if operatorClass.partialReduction then some operator.serial else none)) := by
  obtain ⟨owned, notSecondary⟩ := (describes.primary port).1 listed
  obtain ⟨input, isInput, rfl⟩ := List.mem_map.1 owned
  have notWhole : input.unit ≠ some .whole := fun isWhole =>
    notSecondary (describes.whole input isInput isWhole)
  have unit := ((settled definition isUser).1 (describes.group.1 isGroup).1 input isInput).resolve_right
    notWhole
  rw [describes.partialReduction]
  exact ⟨input, isInput, rfl, .gathered isUser isInput unit⟩

/-- Nor does it ask for another broadcast. -/
theorem Operator.Settled.broadcast (settled : operator.Settled limit estimator graph)
    {definition : UserOperator} (isUser : operator.kind = .user definition)
    (describes : operatorClass.Describes operator definition
      (operator.IsShuffled limit graph (estimator.estimate graph) definition))
    {port : PortId} (listed : port ∈ operatorClass.secondary) :
    ∃ input ∈ operator.inputs, input.id = port ∧
      operator.Demands input .broadcast (input.crossing none) := by
  rcases describes.other port listed with ⟨input, isInput, same, isWhole⟩ |
    ⟨notShuffled, isJoin, input, first, same⟩
  · exact ⟨input, isInput, same, .broadcast isUser isInput isWhole⟩
  · have isInput := List.mem_of_head? first
    exact ⟨input, isInput, same, .broadcast isUser isInput
      ((settled definition isUser).2 notShuffled isJoin input first)⟩

/-- The class of an operator of another kind asks for nothing. -/
theorem Operator.Undeclared.asks_nothing (undeclared : operator.Undeclared)
    (notUser : operator.kind.user? = none) {estimates : Estimates ν}
    (isClass : classOf? limit graph estimates operator = some operatorClass) :
    operatorClass.primaryUse ≠ .group ∧ operatorClass.secondary = [] := by
  have noneWhole : (operator.inputs.filter fun port => port.unit = some .whole) = [] := by
    refine List.filter_eq_nil_iff.2 fun input isInput isWhole => ?_
    rw [decide_eq_true_eq, undeclared notUser input isInput] at isWhole
    cases isWhole
  cases kind : operator.kind with
  | user definition =>
    rw [kind] at notUser
    cases notUser
  | marker boundary =>
    rw [classOf?, kind] at isClass
    cases isClass
  | _ =>
    rw [classOf?, kind, noneWhole] at isClass
    cases isClass
    refine ⟨fun isGroup => ?_, rfl⟩
    dsimp only at isGroup
    split at isGroup <;> cases isGroup

end

namespace Edit

variable {graph : Graph}

/-! ### Edits with nothing to do -/

theorem yields_forM_idle {α : Type} {items : List α} {edit : α → Edit PUnit}
    (idle : ∀ item ∈ items, (edit item).Yields graph PUnit.unit graph) :
    (items.forM edit).Yields graph PUnit.unit graph := by
  induction items with
  | nil => exact yields_pure.2 ⟨rfl, rfl⟩
  | cons item rest ih =>
    obtain ⟨first, others⟩ := List.forall_mem_cons.1 idle
    exact yields_bind.2 ⟨_, _, first, ih others⟩

theorem yields_optional_idle {α : Type} {condition : Prop} [Decidable condition] {edit : Edit PUnit}
    {next : Edit α} {value : α} (idle : condition → edit.Yields graph PUnit.unit graph)
    (later : next.Yields graph value graph) :
    (if condition then (do edit; next) else next).Yields graph value graph := by
  split
  · next holds => exact yields_bind.2 ⟨_, _, idle holds, later⟩
  · exact later

theorem yields_markCheckpoints_idle
    (unchecked : ∀ operator ∈ graph.operators, operator.isCore .checkpoint = false) :
    markCheckpoints.Yields graph () graph := by
  have none : (graph.operators.filter fun operator => operator.isCore .checkpoint) = [] :=
    List.filter_eq_nil_iff.2 fun operator member => by simp [unchecked operator member]
  refine yields_bind.2 ⟨graph, graph, yields_get.2 ⟨rfl, rfl⟩, yields_forM_idle fun operator listed => ?_⟩
  rw [none] at listed
  cases listed

theorem yields_bound_idle (wellFormed : graph.WellFormed) {operator : Operator}
    (member : operator ∈ graph.operators) {input : Port} (owned : input ∈ operator.inputs)
    (fed : ∃ source, ⟨source, input.id⟩ ∈ graph.edges) {marker : Marker}
    {aggregation : Option SerialNumber} (bounded : graph.BoundBy marker (input.crossing aggregation) input.id) :
    (bound marker input.id aggregation).Yields graph () graph := by
  have owns : input.id ∈ (operator.portsOn .input).map Port.id := List.mem_map_of_mem owned
  obtain ⟨place, found, -⟩ := wellFormed.exists_place? member .input owns
  have isPlace := Graph.place_eq_ok.2 found
  have isInput := wellFormed.port_of_place member (List.mem_append_left _ owned) isPlace
  refine yields_bind.2 ⟨input, graph, yields_bind.2 ⟨place, graph, yields_look.2 ⟨isPlace, rfl⟩,
    yields_pure.2 ⟨isInput, rfl⟩⟩, yields_bind.2 ⟨graph, graph, yields_get.2 ⟨rfl, rfl⟩, ?_⟩⟩
  rw [wellFormed.isBounded_of_boundBy member owns fed bounded]
  exact yields_pure.2 ⟨rfl, rfl⟩

theorem yields_checkpointExternalInputs_idle (wellFormed : graph.WellFormed)
    (checkpointed : graph.Checkpointed OperatorKind.isInput .output) :
    checkpointExternalInputs.Yields graph () graph := by
  refine yields_bind.2 ⟨graph, graph, yields_get.2 ⟨rfl, rfl⟩, yields_forM_idle fun operator listed =>
    yields_forM_idle fun output owned => yields_bind.2 ⟨graph, graph, yields_get.2 ⟨rfl, rfl⟩, ?_⟩⟩
  obtain ⟨member, isInput⟩ := List.mem_filter.1 listed
  have owns : output.id ∈ (operator.portsOn .output).map Port.id := List.mem_map_of_mem owned
  rw [(wellFormed.isCheckpointed_iff .output member owns).2 (checkpointed operator member isInput _ owns)]
  exact yields_pure.2 ⟨rfl, rfl⟩

theorem yields_checkpointExternalOutputs_idle (wellFormed : graph.WellFormed)
    (checkpointed : graph.Checkpointed OperatorKind.isOutput .input) :
    checkpointExternalOutputs.Yields graph () graph := by
  refine yields_bind.2 ⟨graph, graph, yields_get.2 ⟨rfl, rfl⟩, yields_forM_idle fun operator listed =>
    yields_forM_idle fun input owned => yields_bind.2 ⟨graph, graph, yields_get.2 ⟨rfl, rfl⟩, ?_⟩⟩
  obtain ⟨member, isOutput⟩ := List.mem_filter.1 listed
  have owns : input.id ∈ (operator.portsOn .input).map Port.id := List.mem_map_of_mem owned
  rw [(wellFormed.isCheckpointed_iff .input member owns).2 (checkpointed operator member isOutput _ owns)]
  exact yields_pure.2 ⟨rfl, rfl⟩

theorem yields_removeCyclicBroadcasts_idle (none : graph.cyclicBroadcast? = none) (limit : Nat) :
    (removeCyclicBroadcasts limit).Yields graph { steps := 0, converged := true } graph := by
  rw [removeCyclicBroadcasts]
  cases limit with
  | zero =>
    refine yields_bind.2 ⟨graph, graph, yields_get.2 ⟨rfl, rfl⟩, yields_pure.2 ⟨?_, rfl⟩⟩
    rw [none]
    rfl
  | succ limit =>
    refine yields_bind.2 ⟨graph, graph, yields_get.2 ⟨rfl, rfl⟩, ?_⟩
    rw [none]
    exact yields_pure.2 ⟨rfl, rfl⟩

end Edit

namespace Planner

variable {ν : Type} [Volume ν] (planner : Planner ν)

/-- A ready graph in which everything is marked that the options of a planner ask for. -/
structure Saturates (graph : Graph) : Prop where
  ready : graph.Ready
  settled : ∀ operator ∈ graph.operators,
    operator.Settled planner.config.broadcastLimit planner.estimator graph
  undeclared : ∀ operator ∈ graph.operators, operator.Undeclared
  inputs : planner.isEnabled .checkpointAfterExternalInputs = true →
    graph.Checkpointed OperatorKind.isInput .output
  outputs : planner.isEnabled .checkpointBeforeExternalOutputs = true →
    graph.Checkpointed OperatorKind.isOutput .input
  unbroken : planner.isEnabled .removeCyclicBroadcasts = true → graph.cyclicBroadcast? = none

variable {planner} {graph : Graph}

theorem Saturates.yields_boundInputs (saturates : planner.Saturates graph) {operatorClass : OperatorClass}
    (listed : operatorClass ∈ planner.classes graph) :
    (Edit.boundInputs operatorClass).Yields graph () graph := by
  have wellFormed := saturates.ready.wellFormed
  obtain ⟨operator, member, isClass⟩ := Edit.mem_classesOf.1 listed
  have isOperator : graph.operator operatorClass.operator = .ok operator := by
    rw [Edit.operator_of_classOf? isClass]
    exact wellFormed.operator_eq_ok member
  have meets : ∀ {input : Port} {marker : Marker} {aggregation : Option SerialNumber},
      operator.Demands input marker (input.crossing aggregation) →
        (Edit.bound marker input.id aggregation).Yields graph () graph := by
    intro input marker aggregation demands
    obtain ⟨definition, isUser⟩ := demands.isUser
    exact Edit.yields_bound_idle wellFormed member demands.member
      (saturates.ready.fed operator member (by rw [Operator.isMarkerOf, Operator.marker?, isUser]; rfl)
        input demands.member) (saturates.ready.boundBy member demands)
  have gathered : operatorClass.primaryUse = .group → ∀ port ∈ operatorClass.primary,
      (Edit.bound .gather port
        (if operatorClass.partialReduction then some operator.serial else none)).Yields graph () graph := by
    intro isGroup port isPrimary
    cases kind : operator.kind.user? with
    | none =>
      exact absurd isGroup ((saturates.undeclared operator member).asks_nothing kind isClass).1
    | some definition =>
      obtain ⟨isUser, describes⟩ := OperatorClass.describes_of_user? isClass kind
      obtain ⟨input, -, rfl, demands⟩ :=
        (saturates.settled operator member).gathered isUser describes isGroup isPrimary
      exact meets demands
  have broadcast : ∀ port ∈ operatorClass.secondary,
      (Edit.bound .broadcast port none).Yields graph () graph := by
    intro port isSecondary
    cases kind : operator.kind.user? with
    | none =>
      rw [((saturates.undeclared operator member).asks_nothing kind isClass).2] at isSecondary
      cases isSecondary
    | some definition =>
      obtain ⟨isUser, describes⟩ := OperatorClass.describes_of_user? isClass kind
      obtain ⟨input, -, rfl, demands⟩ :=
        (saturates.settled operator member).broadcast isUser describes isSecondary
      exact meets demands
  refine Edit.yields_bind.2 ⟨operator, graph, Edit.yields_look.2 ⟨isOperator, rfl⟩, ?_⟩
  exact Edit.yields_optional_idle (fun isGroup => Edit.yields_forM_idle (gathered isGroup))
    (Edit.yields_forM_idle broadcast)

/-- Inserting markers into a graph that has all of them leaves it as it is. -/
theorem insertMarkers_of_saturates (saturates : planner.Saturates graph) :
    planner.insertMarkers.Yields graph
      (if planner.isEnabled .removeCyclicBroadcasts then some { steps := 0, converged := true } else none)
      graph := by
  have wellFormed := saturates.ready.wellFormed
  refine Edit.yields_bind.2 ⟨(), graph, Edit.yields_markCheckpoints_idle saturates.ready.unchecked,
    Edit.yields_bind.2 ⟨graph, graph, Edit.yields_get.2 ⟨rfl, rfl⟩, Edit.yields_bind.2 ⟨_, graph,
      Edit.yields_forM_idle fun _ => saturates.yields_boundInputs, ?_⟩⟩⟩
  refine Edit.yields_optional_idle
    (fun enabled => Edit.yields_checkpointExternalInputs_idle wellFormed (saturates.inputs enabled))
    (Edit.yields_optional_idle
      (fun enabled => Edit.yields_checkpointExternalOutputs_idle wellFormed (saturates.outputs enabled)) ?_)
  split
  · next enabled =>
    exact Edit.yields_bind.2 ⟨_, graph, Edit.yields_removeCyclicBroadcasts_idle
      (saturates.unbroken enabled) planner.stepLimit, Edit.yields_pure.2 ⟨rfl, rfl⟩⟩
  · exact Edit.yields_pure.2 ⟨rfl, rfl⟩

end Planner

end StagePlanner
