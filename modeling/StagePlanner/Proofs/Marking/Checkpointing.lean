import StagePlanner.Proofs.Marking.Insertion
import StagePlanner.Proofs.Preparation.Terminators

/-!
# Checkpointed ports

A port is checkpointed when it has opposites and all of them belong to checkpoint markers
(`Graph.CheckpointedAt`). The ports of external operators are once they have been visited, and they
stay so: later passes put only checkpoint markers on edges (`Graph.Checkpoints`), and terminators that
are taken away are no opposites of such a port (`CheckpointedAt.of_pares`).
-/

namespace StagePlanner

namespace Graph

variable {start graph middle result : Graph} {side : PortSide} {port : PortId}

/-- The owners of the opposites of a port. -/
theorem WellFormed.mem_oppositeOperators (wellFormed : graph.WellFormed) (side : PortSide)
    {operator : Operator} (member : operator ∈ graph.operators)
    (owned : port ∈ (operator.portsOn side).map Port.id) {id : OperatorId} :
    id ∈ graph.oppositeOperators port ↔ ∃ opposite, side.edge port opposite ∈ graph.edges ∧
      ∃ owner ∈ graph.operators, opposite ∈ (owner.portsOn side.opposite).map Port.id ∧
        owner.id = id := by
  rw [oppositeOperators, mem_ownersOf]
  simp only [wellFormed.mem_opposites side member owned, wellFormed.owner?_eq_some_iff]
  refine exists_congr fun opposite => and_congr_right fun isEdge => ?_
  constructor
  · rintro ⟨owner, ⟨isOwner, owns⟩, same⟩
    exact ⟨owner, isOwner, wellFormed.mem_portsOn_of_edge side.opposite isOwner owns
      (side.edge_opposite port opposite ▸ isEdge), same⟩
  · rintro ⟨owner, isOwner, listed, same⟩
    exact ⟨owner, ⟨isOwner, Operator.mem_ports_of_mem_portsOn side.opposite listed⟩, same⟩

/-- A port has opposites, and checkpoint markers own all of them. -/
structure CheckpointedAt (graph : Graph) (side : PortSide) (port : PortId) : Prop where
  connected : ∃ opposite, side.edge port opposite ∈ graph.edges
  owned : ∀ opposite, side.edge port opposite ∈ graph.edges →
    ∃ owner ∈ graph.operators, opposite ∈ (owner.portsOn side.opposite).map Port.id ∧
      owner.isMarkerOf .checkpoint = true

/-- The check that keeps checkpoints from being put at a port twice. -/
theorem WellFormed.isCheckpointed_iff (wellFormed : graph.WellFormed) (side : PortSide)
    {operator : Operator} (member : operator ∈ graph.operators)
    (owned : port ∈ (operator.portsOn side).map Port.id) :
    graph.isCheckpointed port = true ↔ graph.CheckpointedAt side port := by
  have listed : ∀ id, id ∈ (graph.oppositeOperators port).toList ↔ _ := fun _ =>
    OrderedSet.mem_toList.trans (wellFormed.mem_oppositeOperators side member owned)
  simp only [isCheckpointed, Bool.and_eq_true, Bool.not_eq_true', List.isEmpty_eq_false_iff_exists_mem,
    List.all_eq_true, listed]
  constructor
  · rintro ⟨⟨_, opposite, isEdge, -⟩, checkpoints⟩
    refine ⟨⟨opposite, isEdge⟩, fun other isOther => ?_⟩
    obtain ⟨owner, isOwner, owns⟩ := wellFormed.owner_of_edge side.opposite
      (side.edge_opposite port other ▸ isOther)
    have isMarker := checkpoints owner.id ⟨other, isOther, owner, isOwner, owns, rfl⟩
    rw [isMarkerOf, holds_id wellFormed isOwner] at isMarker
    exact ⟨owner, isOwner, owns, isMarker⟩
  · rintro ⟨⟨opposite, isEdge⟩, checkpoints⟩
    obtain ⟨owner, isOwner, owns, -⟩ := checkpoints opposite isEdge
    refine ⟨⟨_, opposite, isEdge, owner, isOwner, owns, rfl⟩, ?_⟩
    rintro _ ⟨other, isOther, another, isAnother, alsoOwns, rfl⟩
    obtain ⟨found, isFound, listed, isMarker⟩ := checkpoints other isOther
    obtain rfl := wellFormed.owner_unique isAnother isFound
      (Operator.mem_ports_of_mem_portsOn side.opposite alsoOwns)
      (Operator.mem_ports_of_mem_portsOn side.opposite listed)
    rw [isMarkerOf, holds_id wellFormed isAnother]
    exact isMarker

/-- Markers were added to a graph, and checkpointed ports stayed checkpointed. -/
structure Checkpoints (graph result : Graph) : Prop where
  wellFormed : result.WellFormed
  kept : ∀ operator ∈ graph.operators, operator ∈ result.operators
  new : ∀ operator ∈ result.operators, operator ∈ graph.operators ∨ operator.isMarker = true
  stays : ∀ side port, graph.CheckpointedAt side port → result.CheckpointedAt side port

theorem Checkpoints.refl (wellFormed : graph.WellFormed) : graph.Checkpoints graph :=
  ⟨wellFormed, fun _ => id, fun _ => .inl, fun _ _ => id⟩

theorem Checkpoints.trans (first : graph.Checkpoints middle) (second : middle.Checkpoints result) :
    graph.Checkpoints result where
  wellFormed := second.wellFormed
  kept operator member := second.kept operator (first.kept operator member)
  new operator member := (second.new operator member).elim (first.new operator) .inr
  stays side port isCheckpointed := second.stays side port (first.stays side port isCheckpointed)

instance : IsPreorder Graph fun graph result => graph.WellFormed → graph.Checkpoints result where
  refl _ := .refl
  trans _ _ _ first second wellFormed :=
    (first wellFormed).trans (second (first wellFormed).wellFormed)

namespace Interposed

variable {operator : Operator} {entry exit : PortId} {sources targets : PortId → Prop}
  (interposed : graph.Interposed result operator entry exit sources targets)
  (wellFormed : graph.WellFormed) (resultWellFormed : result.WellFormed)
  (isCheckpoint : operator.isMarkerOf .checkpoint = true)

include interposed

theorem entry_mem : entry ∈ (operator.portsOn .input).map Port.id := by
  rw [Operator.portsOn, interposed.inputs]
  exact List.mem_cons_self

theorem exit_mem : exit ∈ (operator.portsOn .output).map Port.id := by
  rw [Operator.portsOn, interposed.outputs]
  exact List.mem_cons_self

include resultWellFormed isCheckpoint

/-- A checkpoint marker before all that feeds an input checkpoints it. -/
theorem checkpointedAt_target {input : PortId} (isTarget : targets input)
    (all : ∀ source, ⟨source, input⟩ ∈ graph.edges → sources source) :
    result.CheckpointedAt .input input := by
  refine ⟨⟨exit, (interposed.edges exit input).2 (.inr (.inr ⟨rfl, isTarget⟩))⟩, fun source isEdge => ?_⟩
  rcases (interposed.edges source input).1 isEdge with ⟨old, notBetween⟩ | ⟨-, isEntry⟩ | ⟨rfl, -⟩
  · exact absurd ⟨all source old, isTarget⟩ notBetween
  · exact absurd isEntry (interposed.ne_of_targets resultWellFormed isTarget).1
  · exact ⟨operator, interposed.isMember, interposed.exit_mem, isCheckpoint⟩

/-- A checkpoint marker behind an output and before all that reads it checkpoints the output. -/
theorem checkpointedAt_source {output : PortId} (isSource : sources output)
    (all : ∀ target, ⟨output, target⟩ ∈ graph.edges → targets target) :
    result.CheckpointedAt .output output := by
  refine ⟨⟨entry, (interposed.edges output entry).2 (.inr (.inl ⟨isSource, rfl⟩))⟩, fun target isEdge => ?_⟩
  rcases (interposed.edges output target).1 isEdge with ⟨old, notBetween⟩ | ⟨-, rfl⟩ | ⟨isExit, -⟩
  · exact absurd ⟨isSource, all target old⟩ notBetween
  · exact ⟨operator, interposed.isMember, interposed.entry_mem, isCheckpoint⟩
  · exact absurd isExit (interposed.ne_of_sources resultWellFormed isSource).2

include wellFormed

theorem checkpoints : graph.Checkpoints result := by
  refine ⟨resultWellFormed, fun other member => (interposed.operators other).2 (.inl member),
    fun other member => ((interposed.operators other).1 member).imp_right ?_, fun side port before => ?_⟩
  · rintro rfl
    exact Option.isSome_iff_exists.2 ⟨_, of_decide_eq_true isCheckpoint⟩
  obtain ⟨⟨opposite, isEdge⟩, owned⟩ := before
  have stillOwned : ∀ {other : PortId}, side.edge port other ∈ graph.edges →
      ∃ owner ∈ result.operators, other ∈ (owner.portsOn side.opposite).map Port.id ∧
        owner.isMarkerOf .checkpoint = true := by
    intro other isOther
    obtain ⟨owner, isOwner, owns⟩ := owned other isOther
    exact ⟨owner, (interposed.operators owner).2 (.inl isOwner), owns⟩
  cases side with
  | input =>
    obtain ⟨-, notEntry, -⟩ := interposed.ne_of_edge wellFormed resultWellFormed isEdge
    refine ⟨?_, fun source isSource => ?_⟩
    · by_cases between : sources opposite ∧ targets port
      · exact ⟨exit, (interposed.edges exit port).2 (.inr (.inr ⟨rfl, between.2⟩))⟩
      · exact ⟨opposite, (interposed.edges opposite port).2 (.inl ⟨isEdge, between⟩)⟩
    · rcases (interposed.edges source port).1 isSource with ⟨old, -⟩ | ⟨-, isEntry⟩ | ⟨rfl, -⟩
      · exact stillOwned old
      · exact absurd isEntry notEntry
      · exact ⟨operator, interposed.isMember, interposed.exit_mem, isCheckpoint⟩
  | output =>
    obtain ⟨⟨-, notExit⟩, -⟩ := interposed.ne_of_edge wellFormed resultWellFormed isEdge
    refine ⟨?_, fun target isTarget => ?_⟩
    · by_cases between : sources port ∧ targets opposite
      · exact ⟨entry, (interposed.edges port entry).2 (.inr (.inl ⟨between.1, rfl⟩))⟩
      · exact ⟨opposite, (interposed.edges port opposite).2 (.inl ⟨isEdge, between⟩)⟩
    · rcases (interposed.edges port target).1 isTarget with ⟨old, -⟩ | ⟨-, rfl⟩ | ⟨isExit, -⟩
      · exact stillOwned old
      · exact ⟨operator, interposed.isMember, interposed.entry_mem, isCheckpoint⟩
      · exact absurd isExit notExit

end Interposed

end Graph

namespace Edit

variable {start graph result : Graph}

/-! ### Edits that checkpoint a port -/

theorem checkpoints_insertBefore (input : PortId) (dataType : DataType) :
    (insertBefore input (.marker .checkpoint dataType)).Ensures
      fun graph result => graph.WellFormed → graph.Checkpoints result := by
  intro graph id result yields wellFormed
  obtain ⟨-, -, -, interposed⟩ := yields_insertBefore wellFormed yields
  exact interposed.checkpoints wellFormed ((keeps_insertBefore input _).wellFormed wellFormed yields) rfl

theorem checkpoints_insertAfter (output : PortId) (dataType : DataType) :
    (insertAfter output (.marker .checkpoint dataType)).Ensures
      fun graph result => graph.WellFormed → graph.Checkpoints result := by
  intro graph id result yields wellFormed
  obtain ⟨-, -, -, interposed⟩ := yields_insertAfter wellFormed yields
  exact interposed.checkpoints wellFormed ((keeps_insertAfter output _).wellFormed wellFormed yields) rfl

theorem checkpointed_checkpointBefore (wellFormed : graph.WellFormed) {owner : Operator}
    (member : owner ∈ graph.operators) {input : PortId} (owned : input ∈ owner.inputs.map Port.id)
    {done : Unit} (yields : (checkpointBefore input).Yields graph done result) :
    graph.Checkpoints result ∧ result.CheckpointedAt .input input := by
  refine ⟨ensures_checkpointBefore checkpoints_insertBefore input _ _ _ yields wellFormed, ?_⟩
  obtain ⟨_, _, seen, rest⟩ := yields_bind.1 yields
  obtain ⟨rfl, rfl⟩ := yields_get.1 seen
  split at rest
  · simp only [checkpointInput, port, yields_bind, yields_look, yields_pure] at rest
    obtain ⟨_, _, ⟨_, _, ⟨-, rfl⟩, -, rfl⟩, _, _, inserted, -, rfl⟩ := rest
    obtain ⟨-, -, -, interposed⟩ := yields_insertBefore wellFormed inserted
    exact interposed.checkpointedAt_target
      ((keeps_insertBefore input _).wellFormed wellFormed inserted) rfl rfl fun _ => id
  · next isCheckpointed =>
    obtain ⟨-, rfl⟩ := yields_pure.1 rest
    exact (wellFormed.isCheckpointed_iff .input member owned).1 (by simpa using isCheckpointed)

theorem checkpointed_checkpointAfter (wellFormed : graph.WellFormed) {owner : Operator}
    (member : owner ∈ graph.operators) {output : PortId} (owned : output ∈ owner.outputs.map Port.id)
    {done : Unit} (yields : (checkpointAfter output).Yields graph done result) :
    graph.Checkpoints result ∧ result.CheckpointedAt .output output := by
  refine ⟨ensures_checkpointAfter checkpoints_insertAfter output _ _ _ yields wellFormed, ?_⟩
  obtain ⟨_, _, seen, rest⟩ := yields_bind.1 yields
  obtain ⟨rfl, rfl⟩ := yields_get.1 seen
  split at rest
  · simp only [port, yields_bind, yields_look, yields_pure] at rest
    obtain ⟨_, _, ⟨_, _, ⟨-, rfl⟩, -, rfl⟩, _, _, inserted, -, rfl⟩ := rest
    obtain ⟨-, -, -, interposed⟩ := yields_insertAfter wellFormed inserted
    exact interposed.checkpointedAt_source
      ((keeps_insertAfter output _).wellFormed wellFormed inserted) rfl rfl fun _ => id
  · next isCheckpointed =>
    obtain ⟨-, rfl⟩ := yields_pure.1 rest
    exact (wellFormed.isCheckpointed_iff .output member owned).1 (by simpa using isCheckpointed)

/-- Ports that are checkpointed one after the other are all checkpointed in the end. -/
theorem checkpointed_forM {α : Type} {items : List α} {edit : α → Edit PUnit} (side : PortSide)
    (ports : α → List PortId)
    (each : ∀ item ∈ items, ∀ middle changed done, start.Checkpoints middle →
      (edit item).Yields middle done changed →
        middle.Checkpoints changed ∧ ∀ port ∈ ports item, changed.CheckpointedAt side port)
    (checkpoints : start.Checkpoints graph) {done : PUnit}
    (yields : (items.forM edit).Yields graph done result) :
    graph.Checkpoints result ∧
      ∀ item ∈ items, ∀ port ∈ ports item, result.CheckpointedAt side port := by
  induction items generalizing graph with
  | nil =>
    obtain ⟨-, rfl⟩ := yields_pure.1 yields
    exact ⟨.refl checkpoints.wellFormed, nofun⟩
  | cons item rest ih =>
    obtain ⟨_, middle, first, later⟩ := yields_bind.1 yields
    obtain ⟨before, isCheckpointed⟩ := each item List.mem_cons_self _ _ _ checkpoints first
    obtain ⟨after, others⟩ := ih (fun other listed => each other (List.mem_cons_of_mem _ listed))
      (checkpoints.trans before) later
    exact ⟨before.trans after, List.forall_mem_cons.2
      ⟨fun port owned => after.stays side port (isCheckpointed port owned), others⟩⟩

end Edit

/-! ### External operators -/

/-- All ports on one side of operators of some kind are checkpointed. -/
def Graph.Checkpointed (graph : Graph) (kind : OperatorKind → Bool) (side : PortSide) : Prop :=
  ∀ operator ∈ graph.operators, kind operator.kind = true →
    ∀ port ∈ (operator.portsOn side).map Port.id, graph.CheckpointedAt side port

namespace Graph

variable {graph result : Graph} {kind : OperatorKind → Bool} {side : PortSide}
  (unmarked : ∀ operator : Operator, kind operator.kind = true → ¬ operator.isMarker = true)

include unmarked

theorem Checkpointed.of_checkpoints (checkpointed : graph.Checkpointed kind side)
    (checkpoints : graph.Checkpoints result) : result.Checkpointed kind side := by
  intro operator member isOfKind port owned
  have old := (checkpoints.new operator member).resolve_right (unmarked operator isOfKind)
  exact checkpoints.stays side port (checkpointed operator old isOfKind port owned)

/-- Terminators are not needed beside checkpoint markers. -/
theorem Checkpointed.of_pares (checkpointed : graph.Checkpointed kind side)
    (wellFormed : graph.WellFormed) (pares : graph.Pares result) : result.Checkpointed kind side := by
  intro operator member isOfKind port owned
  have old := pares.operators operator member
  obtain ⟨⟨opposite, isEdge⟩, isOwned⟩ := checkpointed operator old isOfKind port owned
  have isTerminator : ∀ {found : Operator} {terminator : Marker} {facing : PortSide},
      terminator.facing? = some facing → found.isMarkerOf terminator = true →
        found.isMarker = true ∧ found.isMarkerOf .checkpoint = false := by
    intro found terminator facing faces isMarker
    have same : found.marker? = some terminator := of_decide_eq_true isMarker
    refine ⟨Option.isSome_iff_exists.2 ⟨_, same⟩, ?_⟩
    rw [Operator.isMarkerOf, same]
    cases terminator <;> first | rfl | cases faces
  have stays : ∀ other, side.edge port other ∈ graph.edges → side.edge port other ∈ result.edges := by
    intro other isOther
    refine (pares.kept _ isOther).resolve_right ?_
    rintro ⟨facing, terminates, another, ⟨found, isFound, terminator, faces, isMarker, owns⟩, same⟩
    obtain ⟨marked, notCheckpoint⟩ := isTerminator faces isMarker
    rcases side.eq_or_eq_opposite facing with rfl | rfl
    · obtain ⟨rfl, -⟩ := PortSide.edge_inj.1 same
      obtain rfl := wellFormed.owner_unique isFound old
        (Operator.mem_ports_of_mem_portsOn _ owns) (Operator.mem_ports_of_mem_portsOn _ owned)
      exact unmarked found isOfKind marked
    · rw [PortSide.edge_opposite] at same
      obtain ⟨-, rfl⟩ := PortSide.edge_inj.1 same
      obtain ⟨owner, isOwner, alsoOwns, isCheckpoint⟩ := isOwned other isOther
      obtain rfl := wellFormed.owner_unique isFound isOwner
        (Operator.mem_ports_of_mem_portsOn _ owns) (Operator.mem_ports_of_mem_portsOn _ alsoOwns)
      rw [isCheckpoint] at notCheckpoint
      cases notCheckpoint
  refine ⟨⟨opposite, stays opposite isEdge⟩, fun other isOther => ?_⟩
  obtain ⟨owner, isOwner, owns, isCheckpoint⟩ := isOwned other (pares.edges _ isOther)
  obtain ⟨found, isFound, alsoOwns⟩ := pares.closed.wellFormed.owner_of_edge side.opposite
    (side.edge_opposite port other ▸ isOther)
  obtain rfl := wellFormed.owner_unique isOwner (pares.operators found isFound)
    (Operator.mem_ports_of_mem_portsOn _ owns) (Operator.mem_ports_of_mem_portsOn _ alsoOwns)
  exact ⟨owner, isFound, owns, isCheckpoint⟩

end Graph

namespace Edit

variable {graph result : Graph}

/-- Visiting the ports on one side of all operators of some kind checkpoints all of them if each visit
checkpoints one. -/
theorem checkpointed_forM_ports (wellFormed : graph.WellFormed) {kind : OperatorKind → Bool}
    (unmarked : ∀ operator : Operator, kind operator.kind = true → ¬ operator.isMarker = true)
    (side : PortSide) {visit : PortId → Edit PUnit}
    (visits : ∀ before after : Graph, before.WellFormed → ∀ owner ∈ before.operators,
      ∀ port ∈ (owner.portsOn side).map Port.id, ∀ done, (visit port).Yields before done after →
        before.Checkpoints after ∧ after.CheckpointedAt side port) {done : PUnit}
    (yields : ((graph.operators.filter fun operator => kind operator.kind).forM fun operator =>
      (operator.portsOn side).forM fun port => visit port.id).Yields graph done result) :
    result.Checkpointed kind side := by
  have all := checkpointed_forM side (fun operator => (operator.portsOn side).map Port.id)
    (fun operator listed middle changed _ before visited => ?_) (.refl wellFormed) yields
  · obtain ⟨checkpoints, checkpointed⟩ := all
    intro operator member isOfKind port owned
    have old := (checkpoints.new operator member).resolve_right (unmarked operator isOfKind)
    exact checkpointed operator (List.mem_filter.2 ⟨old, isOfKind⟩) port owned
  · have each := checkpointed_forM side (fun port : Port => [port.id])
      (fun port owned _ _ _ between checkpoints => ?_) (.refl before.wellFormed) visited
    · obtain ⟨after, checkpointed⟩ := each
      refine ⟨after, fun id listed => ?_⟩
      obtain ⟨port, owned, rfl⟩ := List.mem_map.1 listed
      exact checkpointed port owned port.id List.mem_cons_self
    · obtain ⟨still, isCheckpointed⟩ := visits _ _ between.wellFormed operator
        (between.kept _ (before.kept _ (List.mem_filter.1 listed).1)) port.id
        (List.mem_map_of_mem owned) _ checkpoints
      exact ⟨still, fun id same => List.mem_singleton.1 same ▸ isCheckpointed⟩

theorem checkpointed_checkpointExternalInputs (wellFormed : graph.WellFormed) {done : Unit}
    (yields : checkpointExternalInputs.Yields graph done result) :
    result.Checkpointed OperatorKind.isInput .output := by
  obtain ⟨_, _, seen, visited⟩ := yields_bind.1 yields
  obtain ⟨rfl, rfl⟩ := yields_get.1 seen
  exact checkpointed_forM_ports wellFormed (fun _ => Operator.not_marker_of_isInput) .output
    (fun _ _ wellFormed _ member _ owned _ => checkpointed_checkpointAfter wellFormed member owned) visited

theorem checkpointed_checkpointExternalOutputs (wellFormed : graph.WellFormed) {done : Unit}
    (yields : checkpointExternalOutputs.Yields graph done result) :
    result.Checkpointed OperatorKind.isOutput .input := by
  obtain ⟨_, _, seen, visited⟩ := yields_bind.1 yields
  obtain ⟨rfl, rfl⟩ := yields_get.1 seen
  exact checkpointed_forM_ports wellFormed (fun _ => Operator.not_marker_of_isOutput) .input
    (fun _ _ wellFormed _ member _ owned _ => checkpointed_checkpointBefore wellFormed member owned) visited

end Edit

end StagePlanner
