import StagePlanner.Plan.Pruning
import StagePlanner.Proofs.Fallible
import StagePlanner.Proofs.Graph.Restriction
import StagePlanner.Proofs.Stage.Soundness

/-!
# Removing operators from stages

Whatever passes remove from a stage, the result is the stage restricted to the operators that
stay, with the ports whose markers stay. `Stage.Restricts` says so; restrictions compose, keep
stages proper and sound, and are what the removal of outputs, of inputs and of dead operators give.
Every removal makes a stage lighter.
-/

namespace StagePlanner

open Relation

namespace Stage

/-- The first stage is the second one restricted to the operators that stay. -/
structure Restricts (result stage : Stage) (stays : OperatorId → Prop) : Prop where
  id : result.id = stage.id
  provenance : result.provenance = stage.provenance
  graph : result.graph.Restricts stage.graph stays
  inputs : result.inputs.Sublist stage.inputs
  outputs : result.outputs.Sublist stage.outputs
  mem_inputs : ∀ port, port ∈ result.inputs ↔ port ∈ stage.inputs ∧ stays port.marker
  mem_outputs : ∀ port, port ∈ result.outputs ↔ port ∈ stage.outputs ∧ stays port.marker

variable {stage : Stage}

theorem Restricts.congr {result : Stage} {stays other : OperatorId → Prop}
    (restricts : result.Restricts stage stays) (same : ∀ id, stays id ↔ other id) :
    result.Restricts stage other := by
  have equal : stays = other := funext fun id => propext (same id)
  rwa [equal] at restricts

theorem Proper.restricts_refl (proper : stage.Proper) : stage.Restricts stage fun _ => True :=
  ⟨rfl, rfl, proper.wellFormed.restricts_refl, .refl _, .refl _, by simp, by simp⟩

theorem Restricts.trans {last middle : Stage} {first second : OperatorId → Prop}
    (later : last.Restricts middle second) (earlier : middle.Restricts stage first) :
    last.Restricts stage fun id => first id ∧ second id where
  id := later.id.trans earlier.id
  provenance := later.provenance.trans earlier.provenance
  graph := later.graph.trans earlier.graph
  inputs := later.inputs.trans earlier.inputs
  outputs := later.outputs.trans earlier.outputs
  mem_inputs port := by rw [later.mem_inputs, earlier.mem_inputs, and_assoc]
  mem_outputs port := by rw [later.mem_outputs, earlier.mem_outputs, and_assoc]

theorem Restricts.mem_ports {result : Stage} {stays : OperatorId → Prop}
    (restricts : result.Restricts stage stays) {port : StagePort} :
    port ∈ result.ports ↔ port ∈ stage.ports ∧ stays port.marker := by
  rw [ports, ports, List.mem_append, List.mem_append, restricts.mem_inputs, restricts.mem_outputs,
    or_and_right]

/-- A restricted stage is proper. -/
theorem Restricts.proper {result : Stage} {stays : OperatorId → Prop}
    (restricts : result.Restricts stage stays) (proper : stage.Proper) : result.Proper where
  wellFormed := restricts.graph.wellFormed
  distinctPorts := proper.distinctPorts.sublist ((restricts.inputs.append restricts.outputs).map _)
  distinctMarkers := proper.distinctMarkers.sublist ((restricts.inputs.append restricts.outputs).map _)
  marker port isPort := by
    obtain ⟨old, stay⟩ := restricts.mem_ports.1 isPort
    obtain ⟨operator, member, same, isMarker⟩ := proper.marker port old
    exact ⟨operator, (restricts.graph.operators operator).2 ⟨member, same ▸ stay⟩, same, isMarker⟩
  unfed port isInput id feeds := by
    obtain ⟨output, input, wired⟩ := feeds
    exact proper.unfed port ((restricts.mem_inputs port).1 isInput).1 id
      ⟨output, input, ((restricts.graph.wired _ _).1 wired).1⟩
  idle port isOutput id feeds := by
    obtain ⟨output, input, wired⟩ := feeds
    exact proper.idle port ((restricts.mem_outputs port).1 isOutput).1 id
      ⟨output, input, ((restricts.graph.wired _ _).1 wired).1⟩

/-- It is sound when the stage is. -/
theorem Restricts.sound {result : Stage} {stays : OperatorId → Prop}
    (restricts : result.Restricts stage stays) (sound : stage.Sound) : result.Sound := by
  refine ⟨restricts.proper sound.proper, fun operator member isMarker => ?_, fun operator member =>
    sound.singlePorts operator ((restricts.graph.operators operator).1 member).1⟩
  obtain ⟨old, stay⟩ := (restricts.graph.operators operator).1 member
  obtain ⟨port, isPort, same⟩ := sound.port operator old isMarker
  exact ⟨port, restricts.mem_ports.2 ⟨isPort, same ▸ stay⟩, same⟩

/-! ### Removing ports -/

/-- An output can be removed. -/
theorem Proper.exists_removeOutput (proper : stage.Proper) {port : StagePort}
    (isOutput : port ∈ stage.outputs) :
    ∃ result, stage.removeOutput port.id = .ok result ∧
      result.Restricts stage fun id => id ≠ port.marker := by
  have isPort : port ∈ stage.ports := List.mem_append_right _ isOutput
  obtain ⟨operator, found, member, same, -⟩ := proper.exists_marker isPort
  refine ⟨{ stage with
    graph := stage.graph.without operator
    outputs := stage.outputs.filter fun other => other.id ≠ port.id }, ?_, ?_⟩
  · rw [removeOutput, proper.output?_eq_some_iff.2 ⟨isOutput, rfl⟩]
    simp only [withoutMarker, Stage.operator?, found]
    rfl
  · refine ⟨rfl, rfl, ?_, .refl _, List.filter_sublist, fun other => ?_, fun other => ?_⟩
    · rw [← same]
      exact proper.wellFormed.restricts_without member
    · refine ⟨fun isInput => ⟨isInput, proper.input_ne_output isInput isOutput⟩, And.left⟩
    · rw [List.mem_filter, decide_eq_true_eq]
      refine and_congr_right fun isOther => not_congr ⟨fun sameId => ?_, fun sameMarker => ?_⟩
      · rw [proper.port_unique_of_id (List.mem_append_right _ isOther) isPort sameId]
      · rw [proper.port_unique_of_marker (List.mem_append_right _ isOther) isPort sameMarker]

/-- An input can be removed. -/
theorem Proper.exists_removeInput (proper : stage.Proper) {port : StagePort}
    (isInput : port ∈ stage.inputs) :
    ∃ result, stage.removeInput port.id = .ok result ∧
      result.Restricts stage fun id => id ≠ port.marker := by
  have isPort : port ∈ stage.ports := List.mem_append_left _ isInput
  obtain ⟨operator, found, member, same, -⟩ := proper.exists_marker isPort
  refine ⟨{ stage with
    graph := stage.graph.without operator
    inputs := stage.inputs.filter fun other => other.id ≠ port.id }, ?_, ?_⟩
  · rw [removeInput, proper.input?_eq_some_iff.2 ⟨isInput, rfl⟩]
    simp only [withoutMarker, Stage.operator?, found]
    rfl
  · refine ⟨rfl, rfl, ?_, List.filter_sublist, .refl _, fun other => ?_, fun other => ?_⟩
    · rw [← same]
      exact proper.wellFormed.restricts_without member
    · rw [List.mem_filter, decide_eq_true_eq]
      refine and_congr_right fun isOther => not_congr ⟨fun sameId => ?_, fun sameMarker => ?_⟩
      · rw [proper.port_unique_of_id (List.mem_append_left _ isOther) isPort sameId]
      · rw [proper.port_unique_of_marker (List.mem_append_left _ isOther) isPort sameMarker]
    · refine ⟨fun isOutput => ⟨isOutput, (proper.input_ne_output isInput isOutput).symm⟩, And.left⟩

/-! ### Weight -/

theorem size_without_le (graph : Graph) (operator : Operator) :
    (graph.without operator).size ≤ graph.size :=
  List.length_filter_le ..

/-- Filtering ports that include the one with an identifier leaves fewer. -/
theorem length_without_port_lt {ports : List StagePort} {id : StagePortId} {port : StagePort}
    (found : (ports.find? fun other => other.id = id) = some port) :
    (ports.filter fun other => other.id ≠ id).length < ports.length := by
  have same : port.id = id := by simpa using List.find?_some found
  exact List.length_filter_lt_length_iff_exists.2
    ⟨port, List.mem_of_find?_eq_some found, by simp [same]⟩

theorem size_withoutMarker_le {port : StagePort} {graph : Graph}
    (removed : stage.withoutMarker port = .ok graph) : graph.size ≤ stage.graph.size := by
  rw [withoutMarker] at removed
  split at removed
  · cases removed
    exact size_without_le _ _
  · cases removed

theorem weight_removeOutput_lt {result : Stage} {id : StagePortId}
    (removed : stage.removeOutput id = .ok result) : result.weight < stage.weight := by
  rw [removeOutput] at removed
  split at removed
  · cases removed
  · next port found =>
    obtain ⟨graph, isGraph, same⟩ := bind_eq_ok_iff.1 removed
    cases same
    have operators := size_withoutMarker_le isGraph
    have outputs := length_without_port_lt found
    simp only [weight]
    omega

theorem weight_removeInput_lt {result : Stage} {id : StagePortId}
    (removed : stage.removeInput id = .ok result) : result.weight < stage.weight := by
  rw [removeInput] at removed
  split at removed
  · cases removed
  · next port found =>
    obtain ⟨graph, isGraph, same⟩ := bind_eq_ok_iff.1 removed
    cases same
    have operators := size_withoutMarker_le isGraph
    have inputs := length_without_port_lt found
    simp only [weight]
    omega

/-- Removing ports one by one makes a stage lighter, unless there is none to be removed. -/
theorem weight_foldlM_remove {remove : Stage → StagePortId → Except Fault Stage}
    (lighter : ∀ stage id result, remove stage id = .ok result → result.weight < stage.weight)
    {ports : List StagePort} {result : Stage}
    (removed : ports.foldlM (fun stage port => remove stage port.id) stage = .ok result) :
    (ports = [] ∧ result = stage) ∨ result.weight < stage.weight := by
  induction ports generalizing stage with
  | nil => exact .inl ⟨rfl, (Except.ok.inj removed).symm⟩
  | cons port rest ih =>
    rw [List.foldlM_cons] at removed
    obtain ⟨middle, first, others⟩ := bind_eq_ok_iff.1 removed
    have below := lighter stage port.id middle first
    rcases ih others with ⟨-, rfl⟩ | further
    · exact .inr below
    · exact .inr (further.trans below)

theorem weight_removeOutputs {outputs : List StagePort} {result : Stage}
    (removed : stage.removeOutputs outputs = .ok result) :
    (outputs = [] ∧ result = stage) ∨ result.weight < stage.weight :=
  weight_foldlM_remove (fun stage id _ (first : stage.removeOutput id = .ok _) =>
    weight_removeOutput_lt first) removed

theorem weight_removeInputs {inputs : List StagePort} {result : Stage}
    (removed : stage.removeInputs inputs = .ok result) :
    (inputs = [] ∧ result = stage) ∨ result.weight < stage.weight :=
  weight_foldlM_remove (fun stage id _ (first : stage.removeInput id = .ok _) =>
    weight_removeInput_lt first) removed

/-- Removing operators that are there makes a graph smaller. -/
theorem size_foldl_without_lt {graph : Graph} {operators : List Operator}
    (there : ∀ operator ∈ operators, operator ∈ graph.operators) (some : operators ≠ []) :
    (operators.foldl Graph.without graph).size < graph.size := by
  have noLarger : ∀ (operators : List Operator) (graph : Graph),
      (operators.foldl Graph.without graph).size ≤ graph.size := by
    intro operators
    induction operators with
    | nil => exact fun graph => Nat.le_refl _
    | cons operator rest ih => exact fun graph => (ih _).trans (size_without_le graph operator)
  obtain ⟨operator, rest, rfl⟩ := List.exists_cons_of_ne_nil some
  refine (noLarger rest _).trans_lt (List.length_filter_lt_length_iff_exists.2 ?_)
  exact ⟨operator, there operator List.mem_cons_self, by simp⟩

end Stage

end StagePlanner
