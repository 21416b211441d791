import StagePlanner.Proofs.Arena.Copying
import StagePlanner.Proofs.Arena.Simulation
import StagePlanner.Proofs.Graph.Growth

/-!
# Histories of arenas

An arena is made empty or as a copy of a part of another one, and then gets calls. Whatever these are
and whether they are answered or refused, its tables fit together, no identifier comes back after its
operator or port is gone, and the serial numbers that it gives out are new (`Arena.sound_of_history`).
-/

namespace StagePlanner

open Std (ExtTreeMap)

namespace Arena

/-- The tables fit together. -/
structure WellFormed (arena : Arena) : Prop where
  /-- The two indexes are mirror images. -/
  mirrored : ∀ source target, target ∈ arena.targets source ↔ source ∈ arena.sources target
  /-- Every edge runs from an output that is there to an input that is there. -/
  joined : ∀ source target, target ∈ arena.targets source →
    (∃ output, arena.ports[source]? = some output ∧ output.side = .output) ∧
      ∃ input, arena.ports[target]? = some input ∧ input.side = .input
  /-- Every port is listed by its owner, on its side. -/
  owned : ∀ (id : PortId) port, arena.ports[id]? = some port →
    port.id = id ∧ ∃ owner, arena.operators[port.owner]? = some owner ∧ id ∈ owner.portsOn port.side
  /-- Every port that is listed is there, and the list is one of its owner on its side. -/
  listed : ∀ (id : OperatorId) operator side, arena.operators[id]? = some operator →
    ∀ listed ∈ operator.portsOn side,
      ∃ port, arena.ports[listed]? = some port ∧ port.owner = id ∧ port.side = side
  /-- No operator lists a port twice. -/
  once : ∀ (id : OperatorId) operator, arena.operators[id]? = some operator →
    operator.id = id ∧ operator.ports.Nodup

/-- No serial number is the last of 64 bits. -/
def InRange (arena : Arena) : Prop :=
  ∀ entry ∈ arena.operators.toList, entry.2.serial.index < Nat.pow 2 64 - 1

instance (arena : Arena) : Decidable arena.InRange :=
  inferInstanceAs (Decidable (∀ entry ∈ arena.operators.toList, entry.2.serial.index < Nat.pow 2 64 - 1))

/-- An arena with the states that it was in before, the latest first. -/
inductive History : Arena → List Arena → Prop
  | empty : History {} []
  /-- A call may be answered or refused. -/
  | call {arena : Arena} {past : List Arena} (history : History arena past) (call : EditCall)
      (inRange : (call.onArena.apply arena).2.InRange) :
      History (call.onArena.apply arena).2 (arena :: past)
  /-- A copy starts anew. -/
  | copy {arena : Arena} {past : List Arena} (history : History arena past)
      {members : OrderedSet OperatorId} {keep : OperatorId → OperatorId → Bool} {copied : ArenaCopy}
      (copies : arena.copyOf members keep = .ok copied) : History copied.arena []

/-- What holds of an arena with a past, and of every call that it gets next. -/
structure Sound (arena : Arena) (past : List Arena) : Prop where
  wellFormed : arena.WellFormed
  /-- An operator that comes up has an identifier that no operator had before. -/
  operatorsFresh : ∀ (call : EditCall) (id : OperatorId),
    id ∈ (call.onArena.apply arena).2.operators → id ∉ arena.operators →
      ∀ earlier ∈ past, id ∉ earlier.operators
  portsFresh : ∀ (call : EditCall) (id : PortId),
    id ∈ (call.onArena.apply arena).2.ports → id ∉ arena.ports →
      ∀ earlier ∈ past, id ∉ earlier.ports
  /-- A serial number that a call does not bring is new. -/
  serialsFresh : ∀ (call : EditCall) (blueprint : Blueprint),
    call.blueprint? (fun id => (arena.blueprint id).toOption) = some blueprint →
      blueprint.serial = none → ∀ (id : OperatorId) new,
        (call.onArena.apply arena).2.operators[id]? = some new → id ∉ arena.operators →
          ∀ (other : OperatorId) old, arena.operators[other]? = some old → old.serial ≠ new.serial
  /-- Calls and copies do the same to the graph in the arena. -/
  represents : ∃ graph, arena.Represents graph ∧
    (∀ call : EditCall, (call.onArena.apply arena).1 = (call.edit.apply graph).1 ∧
      (call.onArena.apply arena).2.Represents (call.edit.apply graph).2) ∧
    ∀ (members : OrderedSet OperatorId) (keep : OperatorId → OperatorId → Bool),
      (∃ cause, graph.copyOf members keep = .error cause ∧ arena.copyOf members keep = .error cause) ∨
      ∃ plain copied, graph.copyOf members keep = .ok plain ∧
        arena.copyOf members keep = .ok copied ∧ copied.Represents plain

namespace Represents

variable {arena : Arena} {graph : Graph} (represents : arena.Represents graph)

include represents

theorem port_iff {id : PortId} {record : PortRecord} :
    arena.ports[id]? = some record ↔ ∃ operator ∈ graph.operators, ∃ side, ∃ port ∈ operator.portsOn side,
      port.id = id ∧ PortPlace.record { port, owner := operator, side } = record := by
  rw [represents.ports, Option.map_eq_some_iff]
  simp only [represents.wellFormed.place?_eq_some_iff]
  constructor
  · rintro ⟨⟨port, owner, side⟩, ⟨isOwner, listed, same⟩, isRecord⟩
    exact ⟨owner, isOwner, side, port, listed, same, isRecord⟩
  · rintro ⟨owner, isOwner, side, port, listed, same, isRecord⟩
    exact ⟨⟨port, owner, side⟩, ⟨isOwner, listed, same⟩, isRecord⟩

theorem wellFormed_arena : arena.WellFormed where
  mirrored source target := by rw [represents.indexes.targets, represents.indexes.sources]
  joined source target isTarget := by
    have isEdge := (represents.indexes.targets source target).1 isTarget
    exact ⟨Option.map_eq_some_iff.1 (represents.indexes.areOutputs _ isEdge),
      Option.map_eq_some_iff.1 (represents.indexes.areInputs _ isEdge)⟩
  owned id record isThere := by
    obtain ⟨operator, member, side, port, listed, rfl, rfl⟩ := represents.port_iff.1 isThere
    refine ⟨rfl, operator.record, represents.operator_iff.2 ⟨operator, member, rfl, rfl⟩, ?_⟩
    show port.id ∈ operator.record.portsOn side
    rw [operator.portsOn_record]
    exact List.mem_map_of_mem listed
  listed id record side isThere port listed := by
    obtain ⟨operator, member, rfl, rfl⟩ := represents.operator_iff.1 isThere
    rw [operator.portsOn_record] at listed
    obtain ⟨port, isListed, rfl⟩ := List.mem_map.1 listed
    exact ⟨_, represents.port_iff.2 ⟨operator, member, side, port, isListed, rfl, rfl⟩, rfl, rfl⟩
  once id record isThere := by
    obtain ⟨operator, member, rfl, rfl⟩ := represents.operator_iff.1 isThere
    refine ⟨rfl, ?_⟩
    rw [operator.ports_record]
    exact represents.wellFormed.nodup_ports member

theorem mem_ports_iff {id : PortId} :
    id ∈ arena.ports ↔ ∃ operator ∈ graph.operators, ∃ port ∈ operator.ports, port.id = id := by
  simp only [ExtTreeMap.mem_iff_isSome_getElem?, Option.isSome_iff_exists, represents.port_iff,
    Operator.mem_ports_iff]
  constructor
  · rintro ⟨_, operator, member, side, port, listed, same, -⟩
    exact ⟨operator, member, port, ⟨side, listed⟩, same⟩
  · rintro ⟨operator, member, port, ⟨side, listed⟩, same⟩
    exact ⟨_, operator, member, side, port, listed, same, rfl⟩

theorem inRange_iff : arena.InRange ↔
    ∀ operator ∈ graph.operators, operator.serial.index < Nat.pow 2 64 - 1 := by
  constructor
  · intro inRange operator member
    exact inRange ⟨operator.id, operator.record⟩ (ExtTreeMap.mem_toList_iff_getElem?_eq_some.2
      (represents.operator_iff.2 ⟨operator, member, rfl, rfl⟩))
  · rintro inRange ⟨id, record⟩ isEntry
    obtain ⟨operator, member, -, rfl⟩ :=
      represents.operator_iff.1 (ExtTreeMap.mem_toList_iff_getElem?_eq_some.1 isEntry)
    exact inRange operator member

end Represents

/-! ### Along a history -/

/-- An arena holds a graph whose next identifiers are beyond all that its past has seen. -/
def Carries (arena : Arena) (past : List Arena) (graph : Graph) : Prop :=
  arena.Represents graph ∧ graph.SerialsBelow ∧ ∀ earlier ∈ past, ∃ before : Graph,
    earlier.Represents before ∧ before.nextOperator.index ≤ graph.nextOperator.index ∧
      before.nextPort.index ≤ graph.nextPort.index

theorem Carries.call {arena : Arena} {past : List Arena} {graph : Graph}
    (carries : arena.Carries past graph) (call : EditCall)
    (inRange : (call.onArena.apply arena).2.InRange) :
    (call.onArena.apply arena).2.Carries (arena :: past) (call.edit.apply graph).2 := by
  obtain ⟨represents, below, before⟩ := carries
  have after := (call.tracks represents).2
  have grows := call.grows represents.wellFormed
  refine ⟨after, call.serialsBelow represents.wellFormed below (after.inRange_iff.1 inRange),
    List.forall_mem_cons.2 ⟨⟨graph, represents, grows.nextOperator, grows.nextPort⟩, ?_⟩⟩
  intro earlier isEarlier
  obtain ⟨first, firstRepresents, operators, ports⟩ := before earlier isEarlier
  exact ⟨first, firstRepresents, operators.trans grows.nextOperator, ports.trans grows.nextPort⟩

theorem History.exists_carries {arena : Arena} {past : List Arena} (history : arena.History past) :
    ∃ graph, arena.Carries past graph := by
  induction history with
  | empty =>
    exact ⟨{}, represents_empty ⟨0⟩, Graph.serialsBelow_of_no_operators rfl, List.forall_mem_nil _⟩
  | call _ call inRange ih =>
    obtain ⟨graph, carries⟩ := ih
    exact ⟨_, carries.call call inRange⟩
  | copy _ copies ih =>
    obtain ⟨graph, represents, below, -⟩ := ih
    rcases copyOf_represents represents _ _ with ⟨cause, -, failed⟩ | ⟨plain, copied, isPlain, isCopy, holds⟩
    · rw [copies] at failed
      cases failed
    · rw [copies] at isCopy
      cases isCopy
      exact ⟨plain.graph, holds.arena, below.copyOf isPlain, nofun⟩

section Next

variable {arena : Arena} {past : List Arena} {graph : Graph} (carries : arena.Carries past graph)
  (call : EditCall)

include carries

theorem Carries.operator_fresh {id : OperatorId}
    (isThere : id ∈ (call.onArena.apply arena).2.operators) (isNew : id ∉ arena.operators) :
    ∀ earlier ∈ past, id ∉ earlier.operators := by
  obtain ⟨represents, -, before⟩ := carries
  intro earlier isEarlier wasThere
  obtain ⟨first, firstRepresents, lower, -⟩ := before earlier isEarlier
  obtain ⟨old, isOld, rfl⟩ := firstRepresents.mem_operators_iff.1 wasThere
  obtain ⟨new, member, same⟩ := (call.tracks represents).2.mem_operators_iff.1 isThere
  have above := ((call.grows represents.wellFormed).operators new member).resolve_left fun wasOld =>
    isNew (represents.mem_operators_iff.2 ⟨new, wasOld, same⟩)
  have beneath := firstRepresents.wellFormed.operatorsBelow old isOld
  have index : new.id.index = old.id.index := congrArg Id.index same
  omega

theorem Carries.port_fresh {id : PortId}
    (isThere : id ∈ (call.onArena.apply arena).2.ports) (isNew : id ∉ arena.ports) :
    ∀ earlier ∈ past, id ∉ earlier.ports := by
  obtain ⟨represents, -, before⟩ := carries
  intro earlier isEarlier wasThere
  obtain ⟨first, firstRepresents, -, lower⟩ := before earlier isEarlier
  obtain ⟨oldOwner, isOldOwner, old, isOld, rfl⟩ := firstRepresents.mem_ports_iff.1 wasThere
  obtain ⟨owner, isOwner, new, listed, same⟩ := (call.tracks represents).2.mem_ports_iff.1 isThere
  have above := ((call.grows represents.wellFormed).operators owner isOwner).resolve_left fun wasOld =>
    isNew (represents.mem_ports_iff.2 ⟨owner, wasOld, new, listed, same⟩)
  have lowest := above.2 new listed
  have beneath := firstRepresents.wellFormed.portsBelow oldOwner isOldOwner old isOld
  have index : new.id.index = old.id.index := congrArg Id.index same
  omega

theorem Carries.serial_fresh {blueprint : Blueprint}
    (brings : call.blueprint? (fun id => (arena.blueprint id).toOption) = some blueprint)
    (unnumbered : blueprint.serial = none) {id : OperatorId} {new : OperatorRecord}
    (isThere : (call.onArena.apply arena).2.operators[id]? = some new) (isNew : id ∉ arena.operators)
    {other : OperatorId} {old : OperatorRecord} (isOld : arena.operators[other]? = some old) :
    old.serial ≠ new.serial := by
  obtain ⟨represents, below, -⟩ := carries
  have blueprints : (fun id => (arena.blueprint id).toOption) =
      fun id => (graph.operator? id).map Operator.blueprint := by
    funext id
    rw [represents.blueprint_eq, Graph.operator]
    cases graph.operator? id <;> rfl
  rw [blueprints] at brings
  obtain ⟨created, member, same, rfl⟩ := (call.tracks represents).2.operator_iff.1 isThere
  obtain ⟨operator, isOperator, -, rfl⟩ := represents.operator_iff.1 isOld
  exact call.serial_fresh represents.wellFormed below brings unnumbered member (fun wasThere =>
    isNew (represents.mem_operators_iff.2 ⟨created, wasThere, same⟩)) operator isOperator

omit call in
theorem Carries.sound : arena.Sound past where
  wellFormed := carries.1.wellFormed_arena
  operatorsFresh call _ := carries.operator_fresh call
  portsFresh call _ := carries.port_fresh call
  serialsFresh call _ brings unnumbered _ _ isThere isNew _ _ :=
    carries.serial_fresh call brings unnumbered isThere isNew
  represents := by
    have represents := carries.1
    refine ⟨graph, represents, fun call => ?_, copyOf_represents represents⟩
    obtain ⟨answers, after⟩ := call.tracks represents
    rw [Except.map_id] at answers
    exact ⟨answers, after⟩

end Next

/-- Whatever calls it got, the tables of an arena fit together, what it gives out next is new, and it
behaves as the graph that it holds. -/
theorem sound_of_history {arena : Arena} {past : List Arena} (history : arena.History past) :
    arena.Sound past := by
  obtain ⟨graph, carries⟩ := history.exists_carries
  exact carries.sound

/-- A projection that feeds itself, in front of which a numbered one is put; once the first is bypassed,
the second feeds itself, and its bypass is refused when it is already gone. -/
theorem sound_of_history_loopSample : ∃ (arena : Arena) (past : List Arena), arena.History past ∧
    past.map (fun earlier => earlier.operators.size) = [1, 2, 1, 1, 0] ∧ arena.operators.size = 0 ∧
    arena.nextOperator = ⟨2⟩ ∧ arena.nextSerial = ⟨6⟩ ∧ arena.Sound past := by
  have added := History.empty.call (.add (.core .project (.named "t"))) (by decide +kernel)
  have joined := added.call (.connect ⟨1⟩ ⟨0⟩) (by decide +kernel)
  have doubled := joined.call
    (.insertBefore ⟨0⟩ ((Blueprint.core .project (.named "t")).withSerial ⟨5⟩)) (by decide +kernel)
  have bypassed := doubled.call (.bypass ⟨0⟩) (by decide +kernel)
  have refused := bypassed.call (.bypass ⟨1⟩) (by decide +kernel)
  exact ⟨_, _, refused, by decide +kernel, by decide +kernel, by decide +kernel, by decide +kernel,
    sound_of_history refused⟩

end Arena

end StagePlanner
