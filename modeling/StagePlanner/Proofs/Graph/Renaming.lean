import Mathlib.Data.Set.Function
import StagePlanner.Proofs.Graph.Splicing

/-!
# Operators replaced port by port

Some edits put another operator in the place of one, port by port (`Graph.Replaced`). A sequence of
them amounts to a renaming of operators and ports that keeps all edges (`Graph.Renamed`), which is an
isomorphism (`Graph.Renamed.isomorphic`); circuits are neither made nor broken by it.
-/

namespace StagePlanner

open Relation

/-- The second operator can stand in the place of the first one: it is of the same kind and has the
same groups and types at its ports, or it is a marker in the place of a core checkpoint. -/
inductive Operator.Alike (left right : Operator) : Prop
  | same (kind : right.kind = left.kind)
      (groups : right.inputs.map (fun port => port.group) = left.inputs.map fun port => port.group)
      (types : right.outputs.map (fun port => port.dataType) =
        left.outputs.map fun port => port.dataType)
  | marked (isCore : left.kind = .core .checkpoint) (isMarker : right.kind = .marker .checkpoint)

namespace PortSide

/-- The edge between a port on a side and an opposite of it. -/
def edge (side : PortSide) (port opposite : PortId) : Edge :=
  match side with
  | .input => ⟨opposite, port⟩
  | .output => ⟨port, opposite⟩

theorem edge_inj {side : PortSide} {port other opposite another : PortId} :
    side.edge port opposite = side.edge other another ↔ port = other ∧ opposite = another := by
  cases side <;> simp [edge, and_comm]

/-- The other side of an operator. -/
def opposite : PortSide → PortSide
  | .input => .output
  | .output => .input

theorem opposite_opposite (side : PortSide) : side.opposite.opposite = side := by
  cases side <;> rfl

theorem edge_opposite (side : PortSide) (port other : PortId) :
    side.opposite.edge other port = side.edge port other := by
  cases side <;> rfl

theorem eq_or_eq_opposite (side other : PortSide) : other = side ∨ other = side.opposite := by
  cases side <;> cases other <;> simp [opposite]

end PortSide

namespace Operator

theorem Alike.refl (operator : Operator) : operator.Alike operator := .same rfl rfl rfl

theorem Alike.trans {left middle right : Operator} (first : left.Alike middle)
    (second : middle.Alike right) : left.Alike right := by
  cases first with
  | same kind groups types =>
    cases second with
    | same otherKind otherGroups otherTypes =>
      exact .same (otherKind.trans kind) (otherGroups.trans groups) (otherTypes.trans types)
    | marked isCore isMarker => exact .marked (kind ▸ isCore) isMarker
  | marked isCore isMarker =>
    cases second with
    | same otherKind _ _ => exact .marked isCore (otherKind.trans isMarker)
    | marked stillCore _ =>
      rw [isMarker] at stillCore
      cases stillCore

/-- Terminators stay what they are, and nothing becomes one. -/
theorem Alike.isMarkerOf {left right : Operator} (alike : left.Alike right) {marker : Marker}
    (other : marker ≠ .checkpoint) : right.isMarkerOf marker = left.isMarkerOf marker := by
  cases alike with
  | same kind =>
    rw [Operator.isMarkerOf, Operator.isMarkerOf, Operator.marker?, Operator.marker?, kind]
  | marked isCore isMarker =>
    simp only [Operator.isMarkerOf, Operator.marker?, isCore, isMarker, OperatorKind.marker?,
      Option.some.injEq, other.symm, reduceCtorEq]

/-- Operators of users stay of the same kind. -/
theorem Alike.user {left right : Operator} (alike : left.Alike right)
    (isUser : right.kind.user?.isSome = true) : right.kind = left.kind := by
  cases alike with
  | same kind => exact kind
  | marked isCore isMarker =>
    rw [isMarker] at isUser
    cases isUser

/-- Where the ports of an operator go when another one takes its place; other ports stay. -/
def replacing (old new : Operator) (port : PortId) : PortId :=
  (((old.ports.map Port.id).zip (new.ports.map Port.id)).lookup port).getD port

theorem replacing_of_not_mem {old new : Operator} {port : PortId}
    (notOwned : port ∉ old.ports.map Port.id) : old.replacing new port = port := by
  have absent : ((old.ports.map Port.id).zip (new.ports.map Port.id)).lookup port = none := by
    rw [List.lookup_eq_none_iff]
    rintro ⟨key, value⟩ member
    rw [bne_iff_ne]
    rintro rfl
    exact notOwned (List.of_mem_zip member).1
  rw [replacing, absent, Option.getD_none]

theorem map_lookup_zip {keys values : List PortId} (distinct : keys.Nodup)
    (same : keys.length = values.length) (default : PortId → PortId) :
    keys.map (fun key => ((keys.zip values).lookup key).getD (default key)) = values := by
  induction keys generalizing values with
  | nil => exact (List.eq_nil_of_length_eq_zero same.symm).symm
  | cons key rest ih =>
    cases values with
    | nil => cases same
    | cons value others =>
      obtain ⟨fresh, distinctRest⟩ := List.nodup_cons.1 distinct
      have later := ih distinctRest (Nat.succ.inj same)
      rw [List.zip_cons_cons, List.map_cons, List.lookup_cons, beq_self_eq_true]
      refine congrArg₂ List.cons rfl ((List.map_congr_left fun other member => ?_).trans later)
      rw [List.lookup_cons, beq_eq_false_iff_ne.2 (ne_of_mem_of_not_mem member fresh)]

/-- The ports of the old operator become those of the new one. -/
theorem map_replacing {old new : Operator} (distinct : (old.ports.map Port.id).Nodup)
    (inputs : new.inputs.length = old.inputs.length)
    (outputs : new.outputs.length = old.outputs.length) (side : PortSide) :
    ((old.portsOn side).map Port.id).map (old.replacing new) = (new.portsOn side).map Port.id := by
  have all : (old.ports.map Port.id).map (old.replacing new) = new.ports.map Port.id := by
    refine map_lookup_zip distinct ?_ fun port => port
    simp only [ports, List.length_map, List.length_append, inputs, outputs]
  simp only [ports, List.map_append] at all
  obtain ⟨first, second⟩ := List.append_inj all (by simp only [List.length_map, inputs])
  cases side
  · exact first
  · exact second

/-- Ports that correspond on both sides correspond. -/
theorem map_ports_of_sides {old new : Operator} {rename : PortId → PortId}
    (sides : ∀ side, (new.portsOn side).map Port.id = ((old.portsOn side).map Port.id).map rename) :
    new.ports.map Port.id = (old.ports.map Port.id).map rename := by
  have inputs := sides .input
  have outputs := sides .output
  simp only [portsOn] at inputs outputs
  simp only [ports, List.map_append, inputs, outputs]

theorem exists_pair {old new : Operator} (side : PortSide)
    (same : (new.portsOn side).length = (old.portsOn side).length) {port : PortId}
    (owned : port ∈ (old.portsOn side).map Port.id) :
    ∃ pair ∈ (old.portsOn side).zip (new.portsOn side), pair.1.id = port := by
  obtain ⟨found, isFound, rfl⟩ := List.mem_map.1 owned
  obtain ⟨index, inside, rfl⟩ := List.mem_iff_getElem.1 isFound
  exact ⟨_, List.mem_iff_getElem.2 ⟨index, by simpa [same] using inside, List.getElem_zip⟩, rfl⟩

theorem replacing_pair {old new : Operator} (distinct : (old.ports.map Port.id).Nodup)
    (inputs : new.inputs.length = old.inputs.length)
    (outputs : new.outputs.length = old.outputs.length) {side : PortSide} {pair : Port × Port}
    (member : pair ∈ (old.portsOn side).zip (new.portsOn side)) :
    old.replacing new pair.1.id = pair.2.id := by
  have all := map_replacing distinct inputs outputs side
  obtain ⟨index, inside, rfl⟩ := List.mem_iff_getElem.1 member
  rw [List.length_zip, Nat.lt_min] at inside
  have here := congrArg (fun ids => ids[index]?) all
  simp only [List.getElem?_map, List.getElem?_eq_getElem inside.1,
    List.getElem?_eq_getElem inside.2, Option.map_some, Option.some.injEq] at here
  rwa [List.getElem_zip]

theorem length_of_map_id {ports : List Port} {id : PortId} (same : ports.map Port.id = [id]) :
    ports.length = 1 := by
  rw [← List.length_map (f := Port.id), same, List.length_singleton]

/-- Where an operator with one input and one output takes the place of another one, their inputs and
their outputs correspond, and other ports stay. -/
theorem replacing_single {old new : Operator} {entry exit newEntry newExit : PortId}
    (distinct : (old.ports.map Port.id).Nodup) (inputs : old.inputs.map Port.id = [entry])
    (outputs : old.outputs.map Port.id = [exit]) (newInputs : new.inputs.map Port.id = [newEntry])
    (newOutputs : new.outputs.map Port.id = [newExit]) :
    old.replacing new entry = newEntry ∧ old.replacing new exit = newExit ∧
      ∀ {port}, port ≠ entry → port ≠ exit → old.replacing new port = port := by
  have sides := map_replacing distinct
    ((length_of_map_id newInputs).trans (length_of_map_id inputs).symm)
    ((length_of_map_id newOutputs).trans (length_of_map_id outputs).symm)
  have entered := sides .input
  have left := sides .output
  rw [portsOn, portsOn, newInputs, inputs] at entered
  rw [portsOn, portsOn, newOutputs, outputs] at left
  refine ⟨(List.cons.inj entered).1, (List.cons.inj left).1, fun {port} notEntry notExit => ?_⟩
  refine replacing_of_not_mem ?_
  rw [ports, List.map_append, inputs, outputs, List.singleton_append, List.mem_pair, not_or]
  exact ⟨notEntry, notExit⟩

end Operator

namespace Graph

variable {graph middle result : Graph}

/-- Operators and ports get other identifiers, and every edge is kept. -/
structure Renamed (graph result : Graph) (becomes : Operator → Operator)
    (rename : PortId → PortId) : Prop where
  wellFormed : result.WellFormed
  operators : ∀ operator, operator ∈ result.operators ↔
    ∃ old ∈ graph.operators, becomes old = operator
  injective : ∀ left ∈ graph.operators, ∀ right ∈ graph.operators,
    becomes left = becomes right → left = right
  alike : ∀ operator ∈ graph.operators, operator.Alike (becomes operator)
  ports : ∀ operator ∈ graph.operators, ∀ side, ((becomes operator).portsOn side).map Port.id =
    ((operator.portsOn side).map Port.id).map rename
  edges : ∀ source target, ⟨source, target⟩ ∈ result.edges ↔
    ∃ edge ∈ graph.edges, rename edge.source = source ∧ rename edge.target = target

/-- The ports of all operators. -/
def portIds (graph : Graph) : Set PortId :=
  { port | ∃ operator ∈ graph.operators, port ∈ operator.ports.map Port.id }

/-- Operators and ports correspond one to one: the ports of an operator to those of the
corresponding one, in order and side by side, and edges to edges. -/
structure Isomorphic (graph result : Graph) (becomes : Operator → Operator)
    (rename : PortId → PortId) : Prop where
  wellFormed : result.WellFormed
  operators : Set.BijOn becomes { operator | operator ∈ graph.operators }
    { operator | operator ∈ result.operators }
  ports : Set.BijOn rename graph.portIds result.portIds
  owned : ∀ operator ∈ graph.operators, ∀ side, ((becomes operator).portsOn side).map Port.id =
    ((operator.portsOn side).map Port.id).map rename
  edges : ∀ source ∈ graph.portIds, ∀ target ∈ graph.portIds,
    ⟨rename source, rename target⟩ ∈ result.edges ↔ ⟨source, target⟩ ∈ graph.edges

variable {becomes later : Operator → Operator} {rename again : PortId → PortId}

theorem Renamed.refl (wellFormed : graph.WellFormed) : graph.Renamed graph id id where
  wellFormed := wellFormed
  operators operator := ⟨fun member => ⟨operator, member, rfl⟩, fun ⟨_, member, same⟩ => same ▸ member⟩
  injective _ _ _ _ := id
  alike operator _ := .refl operator
  ports operator _ side := (List.map_id _).symm
  edges source target := by
    constructor
    · exact fun isEdge => ⟨_, isEdge, rfl, rfl⟩
    · rintro ⟨edge, isEdge, rfl, rfl⟩
      exact isEdge

theorem Renamed.trans (first : graph.Renamed middle becomes rename)
    (second : middle.Renamed result later again) :
    graph.Renamed result (later ∘ becomes) (again ∘ rename) where
  wellFormed := second.wellFormed
  operators operator := by
    rw [second.operators]
    constructor
    · rintro ⟨between, isBetween, rfl⟩
      obtain ⟨old, isOld, rfl⟩ := (first.operators between).1 isBetween
      exact ⟨old, isOld, rfl⟩
    · rintro ⟨old, isOld, rfl⟩
      exact ⟨_, (first.operators _).2 ⟨old, isOld, rfl⟩, rfl⟩
  injective left isLeft right isRight same :=
    first.injective left isLeft right isRight
      (second.injective _ ((first.operators _).2 ⟨left, isLeft, rfl⟩) _
        ((first.operators _).2 ⟨right, isRight, rfl⟩) same)
  alike operator member := (first.alike operator member).trans
    (second.alike _ ((first.operators _).2 ⟨operator, member, rfl⟩))
  ports operator member side := by
    rw [Function.comp_apply, second.ports _ ((first.operators _).2 ⟨operator, member, rfl⟩) side,
      first.ports operator member side, List.map_map]
  edges source target := by
    rw [second.edges]
    constructor
    · rintro ⟨between, isBetween, rfl, rfl⟩
      obtain ⟨edge, isEdge, starts, ends⟩ := (first.edges _ _).1 isBetween
      exact ⟨edge, isEdge, congrArg again starts, congrArg again ends⟩
    · rintro ⟨edge, isEdge, rfl, rfl⟩
      exact ⟨_, (first.edges _ _).2 ⟨edge, isEdge, rfl, rfl⟩, rfl, rfl⟩

section Image

variable (resultWellFormed : result.WellFormed)
  (operators : ∀ operator, operator ∈ result.operators ↔
    ∃ old ∈ graph.operators, becomes old = operator)
  (injective : ∀ left ∈ graph.operators, ∀ right ∈ graph.operators,
    becomes left = becomes right → left = right)
  (ports : ∀ operator ∈ graph.operators, ∀ side, ((becomes operator).portsOn side).map Port.id =
    ((operator.portsOn side).map Port.id).map rename)

include resultWellFormed operators injective ports

/-- Ports stay apart where operators do. -/
theorem injOn_portIds : Set.InjOn rename graph.portIds := by
  have isThere : ∀ {operator}, operator ∈ graph.operators → becomes operator ∈ result.operators :=
    fun member => (operators _).2 ⟨_, member, rfl⟩
  rintro port ⟨left, isLeft, owned⟩ other ⟨right, isRight, owns⟩ same
  have atLeft := Operator.map_ports_of_sides (ports left isLeft)
  have atRight := Operator.map_ports_of_sides (ports right isRight)
  have ownedThere : rename port ∈ (becomes left).ports.map Port.id :=
    atLeft ▸ List.mem_map_of_mem owned
  have ownsThere : rename port ∈ (becomes right).ports.map Port.id :=
    same ▸ atRight ▸ List.mem_map_of_mem owns
  obtain rfl := injective left isLeft right isRight
    (resultWellFormed.owner_unique (isThere isLeft) (isThere isRight) ownedThere ownsThere)
  have distinct := resultWellFormed.nodup_ports (isThere isLeft)
  rw [atLeft] at distinct
  exact List.inj_on_of_nodup_map distinct owned owns same

/-- Two graphs are isomorphic if one has the operators, ports and edges of the other one under other
names. -/
theorem isomorphic_of_image (wellFormed : graph.WellFormed)
    (edges : ∀ source target, ⟨source, target⟩ ∈ result.edges ↔
      ∃ edge ∈ graph.edges, rename edge.source = source ∧ rename edge.target = target) :
    graph.Isomorphic result becomes rename := by
  have injOn := injOn_portIds resultWellFormed operators injective ports
  have isThere : ∀ {operator}, operator ∈ graph.operators → becomes operator ∈ result.operators :=
    fun member => (operators _).2 ⟨_, member, rfl⟩
  refine ⟨resultWellFormed, ⟨fun _ => isThere, fun left isLeft right => injective left isLeft right,
    fun operator => (operators operator).1⟩, ⟨?_, injOn, ?_⟩, ports, ?_⟩
  · rintro port ⟨operator, member, owned⟩
    exact ⟨_, isThere member,
      Operator.map_ports_of_sides (ports operator member) ▸ List.mem_map_of_mem owned⟩
  · rintro port ⟨operator, member, owned⟩
    obtain ⟨old, isOld, rfl⟩ := (operators operator).1 member
    rw [Operator.map_ports_of_sides (ports old isOld)] at owned
    obtain ⟨before, isBefore, rfl⟩ := List.mem_map.1 owned
    exact ⟨before, ⟨old, isOld, isBefore⟩, rfl⟩
  · intro source isSource target isTarget
    rw [edges]
    constructor
    · rintro ⟨edge, isEdge, starts, ends⟩
      obtain ⟨producer, isProducer, gives⟩ := wellFormed.sources edge isEdge
      obtain ⟨consumer, isConsumer, takes⟩ := wellFormed.targets edge isEdge
      have sameSource := injOn
        ⟨producer, isProducer, Operator.mem_ports_of_mem_portsOn .output gives⟩ isSource starts
      have sameTarget := injOn
        ⟨consumer, isConsumer, Operator.mem_ports_of_mem_portsOn .input takes⟩ isTarget ends
      rwa [← sameSource, ← sameTarget]
    · exact fun isEdge => ⟨_, isEdge, rfl, rfl⟩

end Image

/-- Edges end at ports. -/
theorem WellFormed.owner_of_edge (wellFormed : graph.WellFormed) (side : PortSide)
    {port opposite : PortId} (isEdge : side.edge port opposite ∈ graph.edges) :
    ∃ operator ∈ graph.operators, port ∈ (operator.portsOn side).map Port.id := by
  cases side with
  | input => exact wellFormed.targets _ isEdge
  | output => exact wellFormed.sources _ isEdge

/-- An operator that has the end of an edge has it on the side of that end. -/
theorem WellFormed.mem_portsOn_of_edge (wellFormed : graph.WellFormed) (side : PortSide)
    {operator : Operator} (member : operator ∈ graph.operators) {port opposite : PortId}
    (owned : port ∈ operator.ports.map Port.id) (isEdge : side.edge port opposite ∈ graph.edges) :
    port ∈ (operator.portsOn side).map Port.id := by
  obtain ⟨owner, isOwner, owns⟩ := wellFormed.owner_of_edge side isEdge
  rwa [wellFormed.owner_unique isOwner member (Operator.mem_ports_of_mem_portsOn side owns)
    owned] at owns

namespace Renamed

variable (renamed : graph.Renamed result becomes rename) (wellFormed : graph.WellFormed)

include renamed

theorem mem_becomes {operator : Operator} (member : operator ∈ graph.operators) :
    becomes operator ∈ result.operators :=
  (renamed.operators _).2 ⟨operator, member, rfl⟩

theorem mem_portsOn (side : PortSide) {operator : Operator} (member : operator ∈ graph.operators)
    {port : PortId} (owned : port ∈ (operator.portsOn side).map Port.id) :
    rename port ∈ ((becomes operator).portsOn side).map Port.id := by
  rw [renamed.ports operator member side]
  exact List.mem_map_of_mem owned

theorem length_portsOn (side : PortSide) {operator : Operator} (member : operator ∈ graph.operators) :
    ((becomes operator).portsOn side).length = (operator.portsOn side).length := by
  have same := congrArg List.length (renamed.ports operator member side)
  rwa [List.length_map, List.length_map, List.length_map] at same

/-- Ports stay apart. -/
theorem injOn_rename : Set.InjOn rename graph.portIds :=
  injOn_portIds renamed.wellFormed renamed.operators renamed.injective renamed.ports

theorem rename_injective (side : PortSide) {left right : Operator} (isLeft : left ∈ graph.operators)
    (isRight : right ∈ graph.operators) {port other : PortId}
    (leftOwned : port ∈ (left.portsOn side).map Port.id)
    (rightOwned : other ∈ (right.portsOn side).map Port.id) (same : rename port = rename other) :
    port = other :=
  renamed.injOn_rename ⟨left, isLeft, Operator.mem_ports_of_mem_portsOn side leftOwned⟩
    ⟨right, isRight, Operator.mem_ports_of_mem_portsOn side rightOwned⟩ same

include wellFormed

/-- A renaming is an isomorphism. -/
theorem isomorphic : graph.Isomorphic result becomes rename :=
  isomorphic_of_image renamed.wellFormed renamed.operators renamed.injective renamed.ports wellFormed
    renamed.edges

/-- The edges at a renamed port are the renamed ones. -/
theorem edges_at (side : PortSide) {operator : Operator} (member : operator ∈ graph.operators)
    {port : PortId} (owned : port ∈ (operator.portsOn side).map Port.id) {opposite : PortId} :
    side.edge (rename port) opposite ∈ result.edges ↔
      ∃ old, side.edge port old ∈ graph.edges ∧ rename old = opposite := by
  constructor
  · intro isEdge
    obtain ⟨other, old, isOld, same, rfl⟩ : ∃ other old, side.edge other old ∈ graph.edges ∧
        rename other = rename port ∧ rename old = opposite := by
      obtain ⟨edge, isOld, starts, ends⟩ := (renamed.edges _ _).1 isEdge
      cases side with
      | input => exact ⟨edge.target, edge.source, isOld, ends, starts⟩
      | output => exact ⟨edge.source, edge.target, isOld, starts, ends⟩
    obtain ⟨owner, isOwner, owns⟩ := wellFormed.owner_of_edge side isOld
    exact ⟨old, renamed.rename_injective side isOwner member owns owned same ▸ isOld, rfl⟩
  · rintro ⟨old, isOld, rfl⟩
    cases side <;> exact (renamed.edges _ _).2 ⟨_, isOld, rfl, rfl⟩

/-- Ports without edges have none under other names. -/
theorem unconnected (side : PortSide) {operator : Operator} (member : operator ∈ graph.operators)
    (bare : ∀ port ∈ (operator.portsOn side).map Port.id, ∀ opposite,
      side.edge port opposite ∉ graph.edges) :
    ∀ port ∈ ((becomes operator).portsOn side).map Port.id, ∀ opposite,
      side.edge port opposite ∉ result.edges := by
  intro port owned opposite isEdge
  rw [renamed.ports operator member side] at owned
  obtain ⟨old, isOld, rfl⟩ := List.mem_map.1 owned
  obtain ⟨before, wasEdge, -⟩ := (renamed.edges_at wellFormed side member isOld).1 isEdge
  exact bare old isOld before wasEdge

/-- Ports with edges have some under other names. -/
theorem connected (side : PortSide) {operator : Operator} (member : operator ∈ graph.operators)
    (linked : ∀ port ∈ (operator.portsOn side).map Port.id, ∃ opposite,
      side.edge port opposite ∈ graph.edges) :
    ∀ port ∈ ((becomes operator).portsOn side).map Port.id, ∃ opposite,
      side.edge port opposite ∈ result.edges := by
  intro port owned
  rw [renamed.ports operator member side] at owned
  obtain ⟨old, isOld, rfl⟩ := List.mem_map.1 owned
  obtain ⟨before, wasEdge⟩ := linked old isOld
  exact ⟨rename before, (renamed.edges_at wellFormed side member isOld).2 ⟨before, wasEdge, rfl⟩⟩

/-- An operator that feeds another one did so under its old identifier. -/
theorem feeds {source target : OperatorId} (feeds : result.Feeds source target) :
    ∃ producer ∈ graph.operators, ∃ consumer ∈ graph.operators, (becomes producer).id = source ∧
      (becomes consumer).id = target ∧ graph.Feeds producer.id consumer.id := by
  obtain ⟨output, input, isEdge, ⟨producer, isProducer, rfl, gives⟩, consumer, isConsumer, rfl,
    takes⟩ := feeds_iff_exists_edge.1 feeds
  obtain ⟨edge, old, rfl, rfl⟩ := (renamed.edges _ _).1 isEdge
  obtain ⟨before, isBefore, gave⟩ := wellFormed.sources edge old
  obtain ⟨after, isAfter, took⟩ := wellFormed.targets edge old
  have sameProducer := renamed.wellFormed.owner_unique (renamed.mem_becomes isBefore) isProducer
    (Operator.mem_ports_of_mem_portsOn .output
      (renamed.mem_portsOn .output isBefore gave))
    (Operator.mem_ports_of_mem_portsOn .output gives)
  have sameConsumer := renamed.wellFormed.owner_unique (renamed.mem_becomes isAfter) isConsumer
    (Operator.mem_ports_of_mem_portsOn .input (renamed.mem_portsOn .input isAfter took))
    (Operator.mem_ports_of_mem_portsOn .input takes)
  exact ⟨before, isBefore, after, isAfter, congrArg Operator.id sameProducer,
    congrArg Operator.id sameConsumer, feeds_iff_exists_edge.2
      ⟨_, _, old, ⟨before, isBefore, rfl, gave⟩, after, isAfter, rfl, took⟩⟩

theorem transGen_feeds {source target : OperatorId} (way : TransGen result.Feeds source target) :
    ∃ producer ∈ graph.operators, ∃ consumer ∈ graph.operators, (becomes producer).id = source ∧
      (becomes consumer).id = target ∧ TransGen graph.Feeds producer.id consumer.id := by
  induction way with
  | single step =>
    obtain ⟨producer, isProducer, consumer, isConsumer, first, last, old⟩ :=
      renamed.feeds wellFormed step
    exact ⟨producer, isProducer, consumer, isConsumer, first, last, .single old⟩
  | tail _ step ih =>
    obtain ⟨producer, isProducer, between, isBetween, first, same, before⟩ := ih
    obtain ⟨other, isOther, consumer, isConsumer, sameOther, last, old⟩ := renamed.feeds wellFormed step
    have sameBetween := renamed.injective between isBetween other isOther
      (renamed.wellFormed.operator_unique (renamed.mem_becomes isBetween)
        (renamed.mem_becomes isOther) (same.trans sameOther.symm))
    exact ⟨producer, isProducer, consumer, isConsumer, first, last, before.tail (sameBetween ▸ old)⟩

theorem acyclic (acyclic : graph.Acyclic) : result.Acyclic := by
  intro id around
  obtain ⟨producer, isProducer, consumer, isConsumer, first, last, way⟩ :=
    renamed.transGen_feeds wellFormed around
  have same := renamed.injective producer isProducer consumer isConsumer
    (renamed.wellFormed.operator_unique (renamed.mem_becomes isProducer)
      (renamed.mem_becomes isConsumer) (first.trans last.symm))
  exact acyclic producer.id (same ▸ way)

end Renamed

/-! ### One operator in the place of another -/

/-- The operator and its ports keep their identifiers. -/
def Untouched (becomes : Operator → Operator) (rename : PortId → PortId)
    (operator : Operator) : Prop :=
  becomes operator = operator ∧ ∀ port ∈ operator.ports.map Port.id, rename port = port

theorem Untouched.refl (operator : Operator) : Untouched id id operator := ⟨rfl, fun _ _ => rfl⟩

theorem Untouched.trans {operator : Operator} (first : Untouched becomes rename operator)
    (second : Untouched later again operator) :
    Untouched (later ∘ becomes) (again ∘ rename) operator := by
  refine ⟨(congrArg later first.1).trans second.1, fun port owned => ?_⟩
  rw [Function.comp_apply, first.2 port owned, second.2 port owned]

/-- The graph is renamed, and the operators that pass a test stay untouched. -/
def Relabels (graph result : Graph) (stays : Operator → Prop) : Prop :=
  ∃ becomes rename, graph.Renamed result becomes rename ∧
    ∀ operator ∈ graph.operators, stays operator → Untouched becomes rename operator

theorem Relabels.refl (wellFormed : graph.WellFormed) {stays : Operator → Prop} :
    graph.Relabels graph stays :=
  ⟨id, id, .refl wellFormed, fun operator _ _ => .refl operator⟩

theorem Relabels.trans {stays : Operator → Prop} (first : graph.Relabels middle stays)
    (second : middle.Relabels result stays) : graph.Relabels result stays := by
  obtain ⟨becomes, rename, renamed, untouched⟩ := first
  obtain ⟨later, again, renamedAgain, untouchedAgain⟩ := second
  refine ⟨_, _, renamed.trans renamedAgain, fun operator member kept => ?_⟩
  have stayed := untouched operator member kept
  have isThere := renamed.mem_becomes member
  rw [stayed.1] at isThere
  exact stayed.trans (untouchedAgain operator isThere kept)

/-- An operator that is new stands in the place of another one, port by port. -/
structure Replaced (graph result : Graph) (old new : Operator) : Prop where
  member : old ∈ graph.operators
  operators : ∀ other, other ∈ result.operators ↔
    other ∈ graph.operators ∧ other ≠ old ∨ other = new
  fresh : new ∉ graph.operators
  inputs : new.inputs.length = old.inputs.length
  outputs : new.outputs.length = old.outputs.length
  edges : ∀ source target, ⟨source, target⟩ ∈ result.edges ↔
    ∃ edge ∈ graph.edges, old.replacing new edge.source = source ∧
      old.replacing new edge.target = target

namespace Replaced

variable {old new : Operator} (replaced : graph.Replaced result old new)
  (wellFormed : graph.WellFormed)

include replaced wellFormed

theorem untouched {operator : Operator} (member : operator ∈ graph.operators)
    (other : operator ≠ old) :
    Untouched (fun operator => if operator = old then new else operator) (old.replacing new)
      operator := by
  refine ⟨if_neg other, fun port owned => Operator.replacing_of_not_mem fun owns => other ?_⟩
  exact wellFormed.owner_unique member replaced.member owned owns

/-- The ports of the operators are those of the old ones, one for one. -/
theorem map_portsOn {operator : Operator} (member : operator ∈ graph.operators) (side : PortSide) :
    ((if operator = old then new else operator).portsOn side).map Port.id =
      ((operator.portsOn side).map Port.id).map (old.replacing new) := by
  by_cases same : operator = old
  · rw [if_pos same, same]
    have distinct := wellFormed.nodup_ports replaced.member
    exact (Operator.map_replacing distinct replaced.inputs replaced.outputs side).symm
  · obtain ⟨-, stays⟩ := replaced.untouched wellFormed member same
    rw [if_neg same]
    refine (List.map_congr_left fun port owned => ?_).trans (List.map_id _) |>.symm
    exact stays port (Operator.mem_ports_of_mem_portsOn side owned)

omit wellFormed

theorem mem_operators_iff (operator : Operator) : operator ∈ result.operators ↔
    ∃ before ∈ graph.operators, (if before = old then new else before) = operator := by
  rw [replaced.operators]
  constructor
  · rintro (⟨member, other⟩ | rfl)
    · exact ⟨operator, member, if_neg other⟩
    · exact ⟨old, replaced.member, if_pos rfl⟩
  · rintro ⟨before, member, rfl⟩
    by_cases same : before = old
    · exact .inr (if_pos same)
    · rw [if_neg same]
      exact .inl ⟨member, same⟩

theorem injective : ∀ left ∈ graph.operators, ∀ right ∈ graph.operators,
    (if left = old then new else left) = (if right = old then new else right) → left = right := by
  intro left isLeft right isRight same
  by_cases first : left = old <;> by_cases second : right = old
  · rw [first, second]
  · rw [if_pos first, if_neg second] at same
    exact absurd (same ▸ isRight) replaced.fresh
  · rw [if_neg first, if_pos second] at same
    exact absurd (same ▸ isLeft) replaced.fresh
  · rwa [if_neg first, if_neg second] at same

include wellFormed

theorem renamed (resultWellFormed : result.WellFormed) (alike : old.Alike new) :
    graph.Renamed result (fun operator => if operator = old then new else operator)
      (old.replacing new) where
  wellFormed := resultWellFormed
  operators := replaced.mem_operators_iff
  injective := replaced.injective
  alike operator _ := by
    split
    · next same => exact same ▸ alike
    · exact .refl operator
  ports _ member := replaced.map_portsOn wellFormed member
  edges := replaced.edges

/-- The graph stays the same up to the names of the operator and its ports. -/
theorem isomorphic (resultWellFormed : result.WellFormed) :
    graph.Isomorphic result (fun operator => if operator = old then new else operator)
      (old.replacing new) :=
  isomorphic_of_image resultWellFormed replaced.mem_operators_iff replaced.injective
    (fun _ member => replaced.map_portsOn wellFormed member) wellFormed replaced.edges

end Replaced

theorem length_assignPorts {first : PortId} {shapes : List PortShape} :
    (assignPorts first shapes).length = shapes.length := by
  rw [assignPorts, List.length_map, List.length_zipIdx]

/-- An operator stands in the place of another one when it was added and the other one is taken
away. -/
theorem WellFormed.mem_exchanged_iff (wellFormed : graph.WellFormed) {old new : Operator}
    (member : old ∈ graph.operators) (fresh : new.id ∉ graph.operatorIds) (other : Operator) :
    (other ∈ graph.operators ∨ other = new) ∧ other.id ≠ old.id ↔
      other ∈ graph.operators ∧ other ≠ old ∨ other = new := by
  constructor
  · rintro ⟨isThere | rfl, differs⟩
    · exact .inl ⟨isThere, fun same => differs (congrArg Operator.id same)⟩
    · exact .inr rfl
  · rintro (⟨isThere, differs⟩ | rfl)
    · exact ⟨.inl isThere, fun same => differs (wellFormed.operator_unique isThere member same)⟩
    · exact ⟨.inr rfl, fun same => fresh (mem_operatorIds.2 ⟨old, member, same.symm⟩)⟩

theorem WellFormed.mem_opposites (wellFormed : graph.WellFormed) (side : PortSide)
    {operator : Operator} (member : operator ∈ graph.operators) {port opposite : PortId}
    (owned : port ∈ (operator.portsOn side).map Port.id) :
    opposite ∈ graph.opposites port ↔ side.edge port opposite ∈ graph.edges := by
  cases side with
  | input => rw [wellFormed.opposites_input member owned, mem_producers, PortSide.edge]
  | output => rw [wellFormed.opposites_output member owned, mem_consumers, PortSide.edge]

end Graph

namespace Edit

variable {graph result : Graph}

/-- Gives a port the edges of another one on the same side. -/
def mirror (side : PortSide) (pair : Port × Port) : Edit Unit := do
  ((← get).opposites pair.1.id).forM fun opposite =>
    connect (side.edge pair.2.id opposite).source (side.edge pair.2.id opposite).target

/-- Ports get the edges of other ones. -/
theorem yields_forM_mirror {side : PortSide} {pairs : List (Port × Port)}
    (wellFormed : graph.WellFormed)
    (owned : ∀ pair ∈ pairs, ∃ operator ∈ graph.operators,
      pair.1.id ∈ (operator.portsOn side).map Port.id)
    (apart : ∀ pair ∈ pairs, ∀ other ∈ pairs, other.1.id ≠ pair.2.id) {done : PUnit}
    (yields : (pairs.forM (mirror side)).Yields graph done result) :
    graph.SameButEdges result ∧ result.WellFormed ∧ ∀ edge, edge ∈ result.edges ↔
      edge ∈ graph.edges ∨ ∃ pair ∈ pairs, ∃ opposite, edge = side.edge pair.2.id opposite ∧
        side.edge pair.1.id opposite ∈ graph.edges := by
  induction pairs generalizing graph with
  | nil =>
    obtain ⟨-, rfl⟩ := yields_pure.1 yields
    exact ⟨.refl graph, wellFormed, by simp⟩
  | cons pair rest ih =>
    obtain ⟨_, middle, first, others⟩ := yields_bind.1 yields
    obtain ⟨_, _, seen, connected⟩ := yields_bind.1 first
    obtain ⟨rfl, rfl⟩ := yields_get.1 seen
    obtain ⟨operator, member, owns⟩ := owned pair List.mem_cons_self
    have middleWellFormed :=
      (Keeps.forM fun opposite => keeps_connect _ _).wellFormed wellFormed connected
    obtain ⟨sameFirst, edgesFirst⟩ := yields_forM_connect _ _ connected
    obtain ⟨sameOthers, resultWellFormed, edgesOthers⟩ := ih middleWellFormed
      (fun other listed => by
        rw [sameFirst.operators]
        exact owned other (List.mem_cons_of_mem _ listed))
      (fun other listed another alsoListed =>
        apart other (List.mem_cons_of_mem _ listed) another (List.mem_cons_of_mem _ alsoListed)) others
    refine ⟨sameFirst.trans sameOthers, resultWellFormed, fun edge => ?_⟩
    -- The edges that the first pair adds lie at a port whose edges nothing mirrors.
    have kept : ∀ other ∈ rest, ∀ opposite, side.edge other.1.id opposite ∈ middle.edges ↔
        side.edge other.1.id opposite ∈ graph.edges := by
      intro other listed opposite
      rw [edgesFirst]
      refine or_iff_left ?_
      rintro ⟨another, -, same⟩
      exact apart pair List.mem_cons_self other (List.mem_cons_of_mem _ listed)
        (PortSide.edge_inj.1 same).1
    rw [edgesOthers, edgesFirst, List.exists_mem_cons_iff, or_assoc]
    refine or_congr_right (or_congr ?_ ?_)
    · simp only [wellFormed.mem_opposites side member owns, and_comm]
    · exact exists_congr fun other => and_congr_right fun listed =>
        exists_congr fun opposite => and_congr_right fun _ => kept other listed opposite

/-- Where the edges of an operator on one side are mirrored, an edge lies at the port that stands in the
place of its end, too. -/
theorem mem_edges_mirrored {before after : Graph} {old new : Operator}
    (distinct : (old.ports.map Port.id).Nodup) (inputs : new.inputs.length = old.inputs.length)
    (outputs : new.outputs.length = old.outputs.length)
    (apart : ∀ port ∈ new.ports.map Port.id, port ∉ old.ports.map Port.id) (side : PortSide)
    (edges : ∀ edge, edge ∈ after.edges ↔ edge ∈ before.edges ∨
      ∃ pair ∈ (old.portsOn side).zip (new.portsOn side), ∃ opposite,
        edge = side.edge pair.2.id opposite ∧ side.edge pair.1.id opposite ∈ before.edges)
    {port opposite : PortId} (isEdge : side.edge port opposite ∈ before.edges)
    (onSide : port ∈ old.ports.map Port.id → port ∈ (old.portsOn side).map Port.id) :
    side.edge (old.replacing new port) opposite ∈ after.edges ∧
      old.replacing new port ∉ old.ports.map Port.id := by
  by_cases owned : port ∈ old.ports.map Port.id
  · have lengths : (new.portsOn side).length = (old.portsOn side).length := by
      cases side with
      | input => exact inputs
      | output => exact outputs
    obtain ⟨pair, listed, rfl⟩ := Operator.exists_pair side lengths (onSide owned)
    rw [Operator.replacing_pair distinct inputs outputs listed]
    exact ⟨(edges _).2 (.inr ⟨pair, listed, opposite, rfl, isEdge⟩), apart _
      (Operator.mem_ports_of_mem_portsOn side (List.mem_map_of_mem (List.of_mem_zip listed).2))⟩
  · rw [Operator.replacing_of_not_mem owned]
    exact ⟨(edges _).2 (.inl isEdge), owned⟩

/-- Edges that are mirrored from the ports of an operator to those of another one are those of the
other one once the first one is gone. -/
theorem mirrored_iff {fed reading : Graph} {old new : Operator} (wellFormed : graph.WellFormed)
    (member : old ∈ graph.operators) (inputs : new.inputs.length = old.inputs.length)
    (outputs : new.outputs.length = old.outputs.length)
    (apart : ∀ port ∈ new.ports.map Port.id, port ∉ old.ports.map Port.id)
    (fedEdges : ∀ edge, edge ∈ fed.edges ↔ edge ∈ graph.edges ∨
      ∃ pair ∈ old.inputs.zip new.inputs, ∃ opposite,
        edge = PortSide.input.edge pair.2.id opposite ∧
          PortSide.input.edge pair.1.id opposite ∈ graph.edges)
    (readingEdges : ∀ edge, edge ∈ reading.edges ↔ edge ∈ fed.edges ∨
      ∃ pair ∈ old.outputs.zip new.outputs, ∃ opposite,
        edge = PortSide.output.edge pair.2.id opposite ∧
          PortSide.output.edge pair.1.id opposite ∈ fed.edges) (source target : PortId) :
    ⟨source, target⟩ ∈ (reading.without old).edges ↔ ∃ edge ∈ graph.edges,
      old.replacing new edge.source = source ∧ old.replacing new edge.target = target := by
  have distinct := wellFormed.nodup_ports member
  have replaces : ∀ side, ∀ pair ∈ (old.portsOn side).zip (new.portsOn side),
      old.replacing new pair.1.id = pair.2.id :=
    fun side pair => Operator.replacing_pair distinct inputs outputs
  rw [Graph.mem_edges_without]
  constructor
  · rintro ⟨isEdge, notSource, notTarget⟩
    rcases (readingEdges _).1 isEdge with isFed | ⟨left, isLeft, opposite, same, isFed⟩
    · rcases (fedEdges _).1 isFed with isOld | ⟨right, isRight, opposite, same, isOld⟩
      · exact ⟨_, isOld, Operator.replacing_of_not_mem notSource,
          Operator.replacing_of_not_mem notTarget⟩
      · obtain ⟨rfl, rfl⟩ := Edge.mk.inj same
        exact ⟨_, isOld, Operator.replacing_of_not_mem notSource, replaces .input right isRight⟩
    · obtain ⟨rfl, rfl⟩ := Edge.mk.inj same
      rcases (fedEdges _).1 isFed with isOld | ⟨right, isRight, opposite, same, isOld⟩
      · exact ⟨_, isOld, replaces .output left isLeft, Operator.replacing_of_not_mem notTarget⟩
      · obtain ⟨rfl, rfl⟩ := Edge.mk.inj same
        exact ⟨_, isOld, replaces .output left isLeft, replaces .input right isRight⟩
  · rintro ⟨edge, isEdge, rfl, rfl⟩
    obtain ⟨isFed, notTarget⟩ := mem_edges_mirrored distinct inputs outputs apart .input fedEdges
      isEdge fun owned => wellFormed.mem_portsOn_of_edge .input member owned isEdge
    obtain ⟨isRead, notSource⟩ := mem_edges_mirrored distinct inputs outputs apart .output readingEdges
      isFed fun owned => wellFormed.mem_portsOn_of_edge .output member owned isEdge
    exact ⟨isRead, notSource, notTarget⟩

/-- Once an operator was mirrored on both of its sides, the other one can stand in its place. -/
theorem yields_mirrors {fed reading : Graph} {old new : Operator} (wellFormed : graph.WellFormed)
    (member : old ∈ graph.operators) (inputs : new.inputs.length = old.inputs.length)
    (outputs : new.outputs.length = old.outputs.length)
    (apart : ∀ port ∈ new.ports.map Port.id, port ∉ old.ports.map Port.id) {first second : PUnit}
    (mirrored : ((old.inputs.zip new.inputs).forM (mirror .input)).Yields graph first fed)
    (alsoMirrored : ((old.outputs.zip new.outputs).forM (mirror .output)).Yields fed second reading) :
    graph.SameButEdges reading ∧ reading.WellFormed ∧ ∀ source target,
      ⟨source, target⟩ ∈ (reading.without old).edges ↔ ∃ edge ∈ graph.edges,
        old.replacing new edge.source = source ∧ old.replacing new edge.target = target := by
  have separate : ∀ side, ∀ pair ∈ (old.portsOn side).zip (new.portsOn side),
      ∀ other ∈ (old.portsOn side).zip (new.portsOn side), other.1.id ≠ pair.2.id := by
    intro side pair listed other alsoListed same
    exact apart pair.2.id
      (Operator.mem_ports_of_mem_portsOn side (List.mem_map_of_mem (List.of_mem_zip listed).2))
      (same ▸ Operator.mem_ports_of_mem_portsOn side
        (List.mem_map_of_mem (List.of_mem_zip alsoListed).1))
  obtain ⟨sameFed, fedWellFormed, fedEdges⟩ := yields_forM_mirror wellFormed
    (fun pair listed => ⟨old, member, List.mem_map_of_mem (List.of_mem_zip listed).1⟩)
    (separate .input) mirrored
  obtain ⟨sameReading, readingWellFormed, readingEdges⟩ := yields_forM_mirror fedWellFormed
    (fun pair listed => ⟨old, sameFed.operators ▸ member,
      List.mem_map_of_mem (List.of_mem_zip listed).1⟩) (separate .output) alsoMirrored
  exact ⟨sameFed.trans sameReading, readingWellFormed,
    mirrored_iff wellFormed member inputs outputs apart fedEdges readingEdges⟩

/-- What rebuilding an operator leaves. -/
theorem replaced_of_rebuild (wellFormed : graph.WellFormed) {id copy : OperatorId}
    {change : Blueprint → Blueprint} (yields : (rebuild id change).Yields graph copy result) :
    ∃ old, old.id = id ∧ result.WellFormed ∧
      graph.Replaced result old (graph.added (change old.blueprint)) := by
  have resultWellFormed := (keeps_rebuild id change).wellFormed wellFormed yields
  simp only [rebuild, yields_bind, yields_look, yields_check, yields_add, yields_remove,
    yields_pure] at yields
  obtain ⟨old, _, ⟨found, rfl⟩, layout, _, _, ⟨rfl, rfl⟩, new, _, ⟨isNew, rfl⟩, _, fed, mirrored, _,
    reading, alsoMirrored, removed, _, ⟨isRemoved, rfl⟩, rfl, rfl⟩ := yields
  obtain ⟨member, sameId⟩ := Graph.mem_of_operator found
  simp only [Bool.or_eq_true, decide_eq_true_eq, not_or, not_not, ne_eq] at layout
  have addedWellFormed := wellFormed.add (change old.blueprint)
  have isAdded : graph.added (change old.blueprint) ∈
      (graph.add (change old.blueprint)).2.operators :=
    List.mem_append_right _ List.mem_cons_self
  have stillOld : old ∈ (graph.add (change old.blueprint)).2.operators :=
    List.mem_append_left _ member
  obtain ⟨isThere, newId⟩ := Graph.mem_of_operator isNew
  obtain rfl := addedWellFormed.operator_unique isThere isAdded newId
  have inputs : (graph.added (change old.blueprint)).inputs.length = old.inputs.length :=
    Graph.length_assignPorts.trans layout.1
  have outputs : (graph.added (change old.blueprint)).outputs.length = old.outputs.length :=
    Graph.length_assignPorts.trans layout.2
  have apart : ∀ port ∈ (graph.added (change old.blueprint)).ports.map Port.id,
      port ∉ old.ports.map Port.id :=
    fun port isNew isOld => wellFormed.ne_added member isOld isNew rfl
  obtain ⟨same, readingWellFormed, edges⟩ := yields_mirrors addedWellFormed stillOld inputs outputs apart
    (show ((old.inputs.zip _).forM (mirror .input)).Yields _ _ _ from mirrored)
    (show ((old.outputs.zip _).forM (mirror .output)).Yields _ _ _ from alsoMirrored)
  have operators : reading.operators = graph.operators ++ [graph.added (change old.blueprint)] :=
    same.operators
  obtain ⟨isOld, removedId⟩ := Graph.mem_of_operator isRemoved
  obtain rfl := readingWellFormed.operator_unique isOld
    (operators ▸ List.mem_append_left _ member) (removedId.trans sameId.symm)
  refine ⟨removed, sameId, resultWellFormed, member, fun other => ?_, ?_, inputs, outputs, edges⟩
  · rw [Graph.mem_operators_without, operators, List.mem_append, List.mem_singleton]
    exact wellFormed.mem_exchanged_iff member (Graph.fresh_added wellFormed _) other
  · exact fun isThere => Graph.fresh_added wellFormed (change removed.blueprint)
      (Graph.mem_operatorIds.2 ⟨_, isThere, rfl⟩)

end Edit

end StagePlanner
