import StagePlanner.Graph.Copy
import StagePlanner.Proofs.Fallible
import StagePlanner.Proofs.Graph.Ancestry
import StagePlanner.Proofs.Graph.Editing

/-!
# What a copy of a part of a graph is

`Graph.copyOf` first adds a fresh operator for every member and then the accepted edges, port by
port. `CopiesPart` says what comes out in terms of the source graph: the copies in the order of
the members, each like its original up to identifiers, and wires exactly where the originals have
accepted ones. `exists_copyOf` proves it for every part of a well-formed graph.
-/

namespace StagePlanner

namespace Graph

variable {graph : Graph}

theorem PortAt.congr {other : Graph} (same : graph.operators = other.operators) {side : PortSide}
    {terminal : Terminal} {port : PortId} :
    graph.PortAt side terminal port ↔ other.PortAt side terminal port := by
  rw [PortAt, same, PortAt]

/-- A port lies on one side. -/
theorem WellFormed.portAt_side (wellFormed : graph.WellFormed) {side other : PortSide}
    {left right : Terminal} {port : PortId} (leftAt : graph.PortAt side left port)
    (rightAt : graph.PortAt other right port) : side = other := by
  obtain ⟨owner, ownerMember, -, leftFound⟩ := leftAt
  obtain ⟨second, secondMember, -, rightFound⟩ := rightAt
  have onLeft := List.mem_of_getElem? leftFound
  have onRight := List.mem_of_getElem? rightFound
  obtain rfl := wellFormed.owner_unique ownerMember secondMember
    (Operator.mem_ports_of_mem_portsOn side onLeft) (Operator.mem_ports_of_mem_portsOn other onRight)
  exact wellFormed.side_unique ownerMember onLeft onRight

end Graph

/-- Operators that are alike have equally many ports on each side. -/
theorem Operator.length_portsOn {left right : Operator} (alike : left.blueprint = right.blueprint)
    (side : PortSide) : (left.portsOn side).length = (right.portsOn side).length := by
  cases side with
  | input =>
    have shapes := congrArg (fun blueprint => blueprint.inputs.length) alike
    simpa [Operator.blueprint, Operator.portsOn] using shapes
  | output =>
    have shapes := congrArg (fun blueprint => blueprint.outputs.length) alike
    simpa [Operator.blueprint, Operator.portsOn] using shapes

namespace GraphCopy

/-- A copied operator together with its original. -/
structure OperatorPair where
  copy : Operator
  original : Operator

/-- The identifiers of a copied operator and its original. -/
def OperatorPair.ids (pair : OperatorPair) : CopiedPair .operator :=
  ⟨pair.copy.id, pair.original.id⟩

/-- The correspondence of the ports of a copied operator with those of its original. -/
def OperatorPair.ports (pair : OperatorPair) : List (CopiedPair .port) :=
  List.zipWith (fun (new old : Port) => ⟨new.id, old.id⟩) pair.copy.ports pair.original.ports

/-- Ports correspond when they have the same position on the same side. -/
theorem OperatorPair.mem_ports {pair : OperatorPair}
    (alike : pair.copy.blueprint = pair.original.blueprint) {new old : PortId} :
    ⟨new, old⟩ ∈ pair.ports ↔ ∃ side, ∃ index : Nat,
      ((pair.copy.portsOn side).map Port.id)[index]? = some new ∧
        ((pair.original.portsOn side).map Port.id)[index]? = some old := by
  have inputs : pair.copy.inputs.length = pair.original.inputs.length :=
    Operator.length_portsOn alike .input
  have mem_zip : ∀ {news olds : List Port},
      (⟨new, old⟩ : CopiedPair .port) ∈
          List.zipWith (fun (new old : Port) => ⟨new.id, old.id⟩) news olds ↔
        ∃ index : Nat, (news.map Port.id)[index]? = some new ∧
          (olds.map Port.id)[index]? = some old := by
    intro news olds
    simp only [List.mem_iff_getElem?, List.getElem?_zipWith_eq_some, List.getElem?_map,
      Option.map_eq_some_iff, CopiedPair.mk.injEq]
    constructor
    · rintro ⟨index, first, second, isFirst, isSecond, rfl, rfl⟩
      exact ⟨index, ⟨first, isFirst, rfl⟩, second, isSecond, rfl⟩
    · rintro ⟨index, ⟨first, isFirst, rfl⟩, second, isSecond, rfl⟩
      exact ⟨index, first, second, isFirst, isSecond, rfl, rfl⟩
  rw [ports, Operator.ports, Operator.ports, List.zipWith_append inputs, List.mem_append, mem_zip,
    mem_zip]
  constructor
  · rintro (⟨index, both⟩ | ⟨index, both⟩)
    · exact ⟨.input, index, both⟩
    · exact ⟨.output, index, both⟩
  · rintro ⟨side, index, both⟩
    cases side with
    | input => exact .inl ⟨index, both⟩
    | output => exact .inr ⟨index, both⟩

/-- What holds after some operators have been copied and before any edge has. -/
structure CopiesOperators (copied : GraphCopy) (pairs : List OperatorPair) : Prop where
  wellFormed : copied.graph.WellFormed
  noEdges : copied.graph.edges = ∅
  operators : copied.graph.operators = pairs.map OperatorPair.copy
  origins : copied.origins = pairs.map OperatorPair.ids
  ports : copied.ports = pairs.flatMap OperatorPair.ports
  alike : ∀ pair ∈ pairs, pair.copy.blueprint = pair.original.blueprint

theorem CopiesOperators.start (serial : SerialNumber) :
    CopiesOperators { graph := { nextSerial := serial } } [] where
  wellFormed := Graph.wellFormed_of_no_operators rfl rfl
  noEdges := rfl
  operators := rfl
  origins := rfl
  ports := rfl
  alike := by simp

theorem blueprint_added (graph : Graph) (operator : Operator) :
    (graph.added operator.blueprint).blueprint = operator.blueprint := by
  simp only [Graph.added, Operator.blueprint, Graph.map_toPortShape_assignPorts, Option.getD_some]

theorem ports_addOperator {copied : GraphCopy} (wellFormed : copied.graph.WellFormed)
    (operator : Operator) : (copied.addOperator operator).ports = copied.ports ++
      List.zipWith (fun (new old : Port) => ⟨new.id, old.id⟩)
        (copied.graph.added operator.blueprint).ports operator.ports := by
  have created : (copied.graph.add operator.blueprint).2.operator?
      (copied.graph.add operator.blueprint).1 = some (copied.graph.added operator.blueprint) := by
    refine (wellFormed.add operator.blueprint).operator?_eq_some_iff.2 ⟨?_, rfl⟩
    rw [Graph.operators_add]
    exact List.mem_append_right _ (List.mem_singleton_self _)
  have ports : (copied.addOperator operator).ports = copied.ports ++
      List.zipWith (fun (new old : Port) => ⟨new.id, old.id⟩)
        ((((copied.graph.add operator.blueprint).2.operator?
          (copied.graph.add operator.blueprint).1).map Operator.ports).getD []) operator.ports := rfl
  rw [ports, created]
  rfl

theorem CopiesOperators.addOperator {copied : GraphCopy} {pairs : List OperatorPair}
    (copies : copied.CopiesOperators pairs) (operator : Operator) :
    (copied.addOperator operator).CopiesOperators
      (pairs ++ [⟨copied.graph.added operator.blueprint, operator⟩]) := by
  refine ⟨copies.wellFormed.add operator.blueprint, copies.noEdges, ?_, ?_, ?_, ?_⟩
  · rw [List.map_append, ← copies.operators]
    rfl
  · rw [List.map_append, ← copies.origins]
    rfl
  · rw [ports_addOperator copies.wellFormed, List.flatMap_append, ← copies.ports,
      List.flatMap_singleton]
    rfl
  · intro pair member
    rcases List.mem_append.1 member with old | new
    · exact copies.alike pair old
    · rw [List.mem_singleton.1 new]
      exact blueprint_added _ _

/-- Copying operators one by one pairs each of them with a copy. -/
theorem CopiesOperators.foldl {copied : GraphCopy} {pairs : List OperatorPair}
    (copies : copied.CopiesOperators pairs) (operators : List Operator) :
    ∃ all, (operators.foldl GraphCopy.addOperator copied).CopiesOperators all ∧
      all.map OperatorPair.original = pairs.map OperatorPair.original ++ operators := by
  induction operators generalizing copied pairs with
  | nil => exact ⟨pairs, copies, (List.append_nil _).symm⟩
  | cons operator rest ih =>
    obtain ⟨all, allCopies, originals⟩ := ih (copies.addOperator operator)
    refine ⟨all, allCopies, ?_⟩
    rw [originals, List.map_append, List.append_assoc]
    rfl

/-! ### Corresponding ports -/

variable {graph : Graph} {copied middle : GraphCopy} {pairs : List OperatorPair}

theorem CopiesOperators.mem_ports (copies : copied.CopiesOperators pairs) {new old : PortId} :
    ⟨new, old⟩ ∈ copied.ports ↔ ∃ pair ∈ pairs, ⟨new, old⟩ ∈ pair.ports := by
  rw [copies.ports, List.mem_flatMap]

/-- A port has one copy. -/
theorem CopiesOperators.port_unique (copies : copied.CopiesOperators pairs)
    (wellFormed : graph.WellFormed) (originals : ∀ pair ∈ pairs, pair.original ∈ graph.operators)
    (distinct : (pairs.map OperatorPair.original).Nodup) {left right old : PortId}
    (isLeft : ⟨left, old⟩ ∈ copied.ports) (isRight : ⟨right, old⟩ ∈ copied.ports) : left = right := by
  obtain ⟨first, firstMember, inFirst⟩ := copies.mem_ports.1 isLeft
  obtain ⟨second, secondMember, inSecond⟩ := copies.mem_ports.1 isRight
  obtain ⟨side, index, newLeft, oldLeft⟩ :=
    (OperatorPair.mem_ports (copies.alike first firstMember)).1 inFirst
  obtain ⟨other, position, newRight, oldRight⟩ :=
    (OperatorPair.mem_ports (copies.alike second secondMember)).1 inSecond
  have leftAt : graph.PortAt side ⟨first.original.id, index⟩ old :=
    ⟨_, originals first firstMember, rfl, oldLeft⟩
  have rightAt : graph.PortAt other ⟨second.original.id, position⟩ old :=
    ⟨_, originals second secondMember, rfl, oldRight⟩
  obtain rfl := wellFormed.portAt_side leftAt rightAt
  obtain ⟨owners, rfl⟩ := Terminal.mk.inj (wellFormed.portAt_unique leftAt rightAt)
  have sameOriginal := wellFormed.operator_unique (originals first firstMember)
    (originals second secondMember) owners
  obtain rfl := List.inj_on_of_nodup_map distinct firstMember secondMember sameOriginal
  exact Option.some.inj (newLeft.symm.trans newRight)

/-- Looking the copy of a port up finds its correspondent. -/
theorem portCopy?_eq_some_iff_mem {new old : PortId}
    (unique : ∀ {left right}, ⟨left, old⟩ ∈ copied.ports → ⟨right, old⟩ ∈ copied.ports →
      left = right) : copied.portCopy? old = some new ↔ ⟨new, old⟩ ∈ copied.ports := by
  rw [portCopy?, Option.map_eq_some_iff]
  constructor
  · rintro ⟨⟨copy, source⟩, isFound, rfl⟩
    obtain rfl : source = old := by simpa using List.find?_some isFound
    exact List.mem_of_find?_eq_some isFound
  · intro member
    cases isFound : copied.ports.find? fun pair => pair.source = old with
    | none => simpa using List.find?_eq_none.1 isFound _ member
    | some pair =>
      obtain ⟨copy, source⟩ := pair
      obtain rfl : source = old := by simpa using List.find?_some isFound
      exact ⟨_, rfl, unique (List.mem_of_find?_eq_some isFound) member⟩

/-- The copy of a port is the port at the same terminal of the copied owner. -/
def CopiesPorts (copied : GraphCopy) (graph : Graph) : Prop :=
  ∀ new old, copied.portCopy? old = some new ↔ ∃ pair ∈ copied.origins, ∃ side index,
    copied.graph.PortAt side ⟨pair.copy, index⟩ new ∧ graph.PortAt side ⟨pair.source, index⟩ old

theorem CopiesOperators.copiesPorts (copies : copied.CopiesOperators pairs)
    (wellFormed : graph.WellFormed) (originals : ∀ pair ∈ pairs, pair.original ∈ graph.operators)
    (distinct : (pairs.map OperatorPair.original).Nodup) : copied.CopiesPorts graph := by
  intro new old
  have copyMember : ∀ pair ∈ pairs, pair.copy ∈ copied.graph.operators := fun pair member =>
    copies.operators ▸ List.mem_map_of_mem member
  rw [portCopy?_eq_some_iff_mem (copies.port_unique wellFormed originals distinct), copies.mem_ports,
    copies.origins]
  constructor
  · rintro ⟨pair, member, inPair⟩
    obtain ⟨side, index, isNew, isOld⟩ := (OperatorPair.mem_ports (copies.alike pair member)).1 inPair
    exact ⟨pair.ids, List.mem_map_of_mem member, side, index,
      ⟨pair.copy, copyMember pair member, rfl, isNew⟩,
      ⟨pair.original, originals pair member, rfl, isOld⟩⟩
  · rintro ⟨_, isOrigin, side, index, ⟨copy, isCopy, copyId, isNew⟩,
      ⟨original, originalMember, originalId, isOld⟩⟩
    obtain ⟨pair, member, rfl⟩ := List.mem_map.1 isOrigin
    obtain rfl := copies.wellFormed.operator_unique isCopy (copyMember pair member) copyId
    obtain rfl := wellFormed.operator_unique originalMember (originals pair member) originalId
    exact ⟨pair, member, (OperatorPair.mem_ports (copies.alike pair member)).2
      ⟨side, index, isNew, isOld⟩⟩

/-! ### Copying edges -/

/-- Copying an edge links the copies of its ends. -/
theorem mem_edges_addEdge {edge new : Edge} :
    new ∈ (copied.addEdge edge).graph.edges ↔ new ∈ copied.graph.edges ∨
      (copied.portCopy? edge.source = some new.source ∧
        copied.portCopy? edge.target = some new.target) := by
  rw [addEdge]
  split
  · next source target sourceFound targetFound =>
    rw [sourceFound, targetFound]
    simp only [Graph.link, OrderedSet.mem_insert, Option.some.injEq]
    constructor
    · rintro (rfl | old)
      · exact .inr ⟨rfl, rfl⟩
      · exact .inl old
    · rintro (old | ⟨rfl, rfl⟩)
      · exact .inr old
      · exact .inl rfl
  · next missing =>
    refine ⟨.inl, ?_⟩
    rintro (old | ⟨sourceFound, targetFound⟩)
    · exact old
    · exact absurd targetFound (missing _ _ sourceFound)

/-- Copying edges leaves operators and correspondences alone and links the copies of their ends. -/
theorem foldl_addEdge (edges : List Edge) (copied : GraphCopy) :
    let done := edges.foldl addEdge copied
    done.origins = copied.origins ∧ done.ports = copied.ports ∧
      done.graph.operators = copied.graph.operators ∧
      done.graph.nextOperator = copied.graph.nextOperator ∧
      done.graph.nextPort = copied.graph.nextPort ∧
      ∀ new, new ∈ done.graph.edges ↔ new ∈ copied.graph.edges ∨ ∃ edge ∈ edges,
        copied.portCopy? edge.source = some new.source ∧
          copied.portCopy? edge.target = some new.target := by
  induction edges generalizing copied with
  | nil => simp
  | cons edge rest ih =>
    obtain ⟨origins, ports, operators, nextOperator, nextPort, edges⟩ := ih (copied.addEdge edge)
    have samePorts : (copied.addEdge edge).ports = copied.ports := by
      rw [addEdge]; split <;> rfl
    have sameCopy : ∀ old, (copied.addEdge edge).portCopy? old = copied.portCopy? old := by
      intro old
      rw [portCopy?, samePorts, portCopy?]
    refine ⟨origins.trans ?_, ports.trans samePorts, operators.trans ?_, nextOperator.trans ?_,
      nextPort.trans ?_, fun new => ?_⟩
    · rw [addEdge]; split <;> rfl
    · rw [addEdge]; split <;> rfl
    · rw [addEdge]; split <;> rfl
    · rw [addEdge]; split <;> rfl
    · simp only [List.foldl_cons, edges new, mem_edges_addEdge, sameCopy, List.exists_mem_cons_iff,
        or_assoc]

end GraphCopy

namespace Graph

/-- A copy of some operators of a graph with the accepted wires between them. -/
structure CopiesPart (graph : Graph) (members : List OperatorId)
    (keep : OperatorId → OperatorId → Bool) (copied : GraphCopy) : Prop where
  wellFormed : copied.graph.WellFormed
  copies : copied.origins.map CopiedPair.copy = copied.graph.operatorIds
  sources : copied.origins.map CopiedPair.source = members
  /-- A copy differs from its original in identifiers only. -/
  alike : ∀ pair ∈ copied.origins, ∃ copy ∈ copied.graph.operators, ∃ original ∈ graph.operators,
    copy.id = pair.copy ∧ original.id = pair.source ∧ copy.blueprint = original.blueprint
  wired : ∀ left ∈ copied.origins, ∀ right ∈ copied.origins, ∀ output input,
    copied.graph.Wired ⟨left.copy, output⟩ ⟨right.copy, input⟩ ↔
      graph.Wired ⟨left.source, output⟩ ⟨right.source, input⟩ ∧
        keep left.source right.source = true

variable {graph : Graph}

theorem acceptsEdge_iff (wellFormed : graph.WellFormed) {keep : OperatorId → OperatorId → Bool}
    {edge : Edge} {source target : Terminal} (sourceAt : graph.PortAt .output source edge.source)
    (targetAt : graph.PortAt .input target edge.target) :
    graph.acceptsEdge keep edge = true ↔ keep source.operator target.operator = true := by
  obtain ⟨producer, producerFound, isProducer⟩ := wellFormed.owner?_of_portAt sourceAt
  obtain ⟨consumer, consumerFound, isConsumer⟩ := wellFormed.owner?_of_portAt targetAt
  simp only [acceptsEdge, producerFound, consumerFound, isProducer, isConsumer]

/-- The members of a part are operators of the graph. -/
theorem exists_originals (wellFormed : graph.WellFormed) {members : OrderedSet OperatorId}
    (inside : ∀ id ∈ members, id ∈ graph.operatorIds) :
    ∃ originals, members.toList.mapM graph.operator = .ok originals ∧
      (∀ original ∈ originals, original ∈ graph.operators) ∧
      originals.map Operator.id = members.toList := by
  have lookups : ∃ originals, members.toList.mapM graph.operator = .ok originals ∧
      List.Forall₂ (fun id operator => operator ∈ graph.operators ∧ operator.id = id)
        members.toList originals := by
    refine exists_mapM fun id member => ?_
    obtain ⟨operator, isOperator, rfl⟩ := mem_operatorIds.1 (inside id member)
    exact ⟨operator, wellFormed.operator_eq_ok isOperator, isOperator, rfl⟩
  obtain ⟨originals, lookedUp, found⟩ := lookups
  refine ⟨originals, lookedUp, fun original member => ?_, ?_⟩
  · obtain ⟨_, -, both⟩ := exists_partner found member
    exact both.1
  · have same : List.Forall₂ (· = ·) members.toList (originals.map Operator.id) :=
      List.forall₂_map_right_iff.2 (found.imp fun _ _ both => both.2.symm)
    exact (List.forall₂_eq_eq_eq ▸ same).symm

/-- The first copy is the second one with the accepted edges. -/
structure CopiesEdges (graph : Graph) (keep : OperatorId → OperatorId → Bool)
    (copied middle : GraphCopy) : Prop where
  origins : copied.origins = middle.origins
  operators : copied.graph.operators = middle.graph.operators
  nextOperator : copied.graph.nextOperator = middle.graph.nextOperator
  nextPort : copied.graph.nextPort = middle.graph.nextPort
  edges : ∀ new, new ∈ copied.graph.edges ↔ ∃ edge ∈ graph.edges,
    graph.acceptsEdge keep edge = true ∧ middle.portCopy? edge.source = some new.source ∧
      middle.portCopy? edge.target = some new.target

section Edges

variable {keep : OperatorId → OperatorId → Bool} {copied middle : GraphCopy}
  (wellFormed : graph.WellFormed) (middleWellFormed : middle.graph.WellFormed)
  (ports : middle.CopiesPorts graph) (links : graph.CopiesEdges keep copied middle)

include wellFormed ports

/-- The copy of a port lies on the same side as its original. -/
theorem exists_owner_of_portCopy {side : PortSide} {terminal : Terminal} {old new : PortId}
    (oldAt : graph.PortAt side terminal old) (isCopy : middle.portCopy? old = some new) :
    ∃ owner ∈ middle.graph.operators, new ∈ (owner.portsOn side).map Port.id := by
  obtain ⟨pair, -, other, index, newAt, sameAt⟩ := (ports new old).1 isCopy
  obtain rfl := wellFormed.portAt_side oldAt sameAt
  obtain ⟨owner, member, -, position⟩ := newAt
  exact ⟨owner, member, List.mem_of_getElem? position⟩

include middleWellFormed links

theorem CopiesEdges.copyWellFormed : copied.graph.WellFormed where
  ascending := links.operators ▸ middleWellFormed.ascending
  operatorsBelow := by
    rw [links.operators, links.nextOperator]
    exact middleWellFormed.operatorsBelow
  ports := links.operators ▸ middleWellFormed.ports
  portsBelow := by
    rw [links.operators, links.nextPort]
    exact middleWellFormed.portsBelow
  sources new member := by
    obtain ⟨edge, old, -, sourceCopy, -⟩ := (links.edges new).1 member
    obtain ⟨source, target, sourceAt, -, -⟩ := wellFormed.exists_wired old
    rw [links.operators]
    exact exists_owner_of_portCopy wellFormed ports sourceAt sourceCopy
  targets new member := by
    obtain ⟨edge, old, -, -, targetCopy⟩ := (links.edges new).1 member
    obtain ⟨source, target, -, targetAt, -⟩ := wellFormed.exists_wired old
    rw [links.operators]
    exact exists_owner_of_portCopy wellFormed ports targetAt targetCopy

variable (copyIds : copied.origins.map CopiedPair.copy = copied.graph.operatorIds)

include copyIds

/-- The original of a port of a copy is at the same terminal of the original operator. -/
theorem CopiesEdges.portAt_original {pair : CopiedPair .operator} (member : pair ∈ copied.origins)
    {side : PortSide} {index : Nat} {new old : PortId}
    (newAt : copied.graph.PortAt side ⟨pair.copy, index⟩ new)
    (isCopy : middle.portCopy? old = some new) : graph.PortAt side ⟨pair.source, index⟩ old := by
  have copiedWellFormed := links.copyWellFormed wellFormed middleWellFormed ports
  obtain ⟨other, otherMember, otherSide, position, inMiddle, oldAt⟩ := (ports new old).1 isCopy
  have otherAt := (PortAt.congr links.operators).2 inMiddle
  obtain rfl := copiedWellFormed.portAt_side newAt otherAt
  obtain ⟨sameCopy, rfl⟩ := Terminal.mk.inj (copiedWellFormed.portAt_unique newAt otherAt)
  have distinct : (copied.origins.map CopiedPair.copy).Nodup :=
    copyIds ▸ copiedWellFormed.nodup_operatorIds
  obtain rfl := List.inj_on_of_nodup_map distinct member (links.origins ▸ otherMember) sameCopy
  exact oldAt

variable (alike : ∀ pair ∈ copied.origins, ∃ copy ∈ copied.graph.operators,
  ∃ original ∈ graph.operators,
    copy.id = pair.copy ∧ original.id = pair.source ∧ copy.blueprint = original.blueprint)

include alike

omit copyIds middleWellFormed in
/-- A port of the original has a copy at the same terminal of the copied operator. -/
theorem CopiesEdges.exists_portCopy {pair : CopiedPair .operator} (member : pair ∈ copied.origins)
    {side : PortSide} {index : Nat} {old : PortId} (oldAt : graph.PortAt side ⟨pair.source, index⟩ old) :
    ∃ new, middle.portCopy? old = some new ∧ copied.graph.PortAt side ⟨pair.copy, index⟩ new := by
  obtain ⟨copy, copyMember, source, sourceMember, copyId, sourceId, same⟩ := alike pair member
  obtain ⟨owner, ownerMember, ownerId, position⟩ := id oldAt
  obtain rfl := wellFormed.operator_unique ownerMember sourceMember (ownerId.trans sourceId.symm)
  obtain ⟨bound, -⟩ := List.getElem?_eq_some_iff.1 position
  have copyBound : index < ((copy.portsOn side).map Port.id).length := by
    rw [List.length_map, Operator.length_portsOn same side]
    rwa [List.length_map] at bound
  have newAt : copied.graph.PortAt side ⟨pair.copy, index⟩
      (((copy.portsOn side).map Port.id)[index]) :=
    ⟨copy, copyMember, copyId, List.getElem?_eq_getElem copyBound⟩
  exact ⟨_, (ports _ _).2 ⟨pair, links.origins ▸ member, side, index,
    (PortAt.congr links.operators).1 newAt, oldAt⟩, newAt⟩

/-- Wires of the copy are the accepted ones of the originals. -/
theorem CopiesEdges.wired_iff {left right : CopiedPair .operator} (isLeft : left ∈ copied.origins)
    (isRight : right ∈ copied.origins) {output input : Nat} :
    copied.graph.Wired ⟨left.copy, output⟩ ⟨right.copy, input⟩ ↔
      graph.Wired ⟨left.source, output⟩ ⟨right.source, input⟩ ∧
        keep left.source right.source = true := by
  constructor
  · rintro ⟨new, newInput, newAt, newInputAt, edge⟩
    obtain ⟨old, member, accepted, sourceCopy, targetCopy⟩ := (links.edges _).1 edge
    have sourceAt := links.portAt_original wellFormed middleWellFormed ports copyIds isLeft newAt
      sourceCopy
    have targetAt := links.portAt_original wellFormed middleWellFormed ports copyIds isRight newInputAt
      targetCopy
    exact ⟨⟨_, _, sourceAt, targetAt, member⟩,
      (acceptsEdge_iff wellFormed sourceAt targetAt).1 accepted⟩
  · rintro ⟨⟨old, oldInput, oldAt, oldInputAt, edge⟩, kept⟩
    obtain ⟨new, sourceCopy, newAt⟩ := links.exists_portCopy wellFormed ports alike isLeft oldAt
    obtain ⟨newInput, targetCopy, newInputAt⟩ :=
      links.exists_portCopy wellFormed ports alike isRight oldInputAt
    exact ⟨new, newInput, newAt, newInputAt, (links.edges _).2 ⟨_, edge,
      (acceptsEdge_iff wellFormed oldAt oldInputAt).2 kept, sourceCopy, targetCopy⟩⟩

end Edges

/-- Only operators of the graph are copied. -/
theorem mem_operatorIds_of_copyOf {members : OrderedSet OperatorId}
    {keep : OperatorId → OperatorId → Bool} {copied : GraphCopy}
    (isCopy : graph.copyOf members keep = .ok copied) {id : OperatorId} (member : id ∈ members) :
    id ∈ graph.operatorIds := by
  obtain ⟨originals, lookedUp, -⟩ := bind_eq_ok_iff.1 isCopy
  obtain ⟨operator, -, found⟩ :=
    exists_partner_of_mem (mapM_eq_ok_iff.1 lookedUp) (OrderedSet.mem_toList.2 member)
  exact mem_operatorIds.2 ⟨operator, mem_of_operator found⟩

/-- A part is refused because of one of its members, which is no operator of the graph. -/
theorem exists_unknown_of_copyOf (wellFormed : graph.WellFormed) {members : OrderedSet OperatorId}
    {keep : OperatorId → OperatorId → Bool} {cause : GraphFault}
    (failed : graph.copyOf members keep = .error cause) :
    ∃ id ∈ members, id ∉ graph.operatorIds ∧ cause = .unknownOperator id := by
  rcases bind_eq_error_iff.1 failed with notFound | ⟨_, -, wrong⟩
  · obtain ⟨id, listed, refused⟩ := exists_of_mapM_error notFound
    refine ⟨id, OrderedSet.mem_toList.1 listed, fun known => ?_, ?_⟩
    · obtain ⟨operator, member, rfl⟩ := mem_operatorIds.1 known
      cases (wellFormed.operator_eq_ok member).symm.trans refused
    · rw [Graph.operator] at refused
      split at refused
      · cases refused
      · exact (Except.error.inj refused).symm
  · cases wrong

/-- Any part of a well-formed graph can be copied. -/
theorem exists_copyOf (wellFormed : graph.WellFormed) {members : OrderedSet OperatorId}
    (inside : ∀ id ∈ members, id ∈ graph.operatorIds) (keep : OperatorId → OperatorId → Bool) :
    ∃ copied, graph.copyOf members keep = .ok copied ∧
      graph.CopiesPart members.toList keep copied := by
  obtain ⟨originals, lookedUp, isOriginal, ids⟩ := exists_originals wellFormed inside
  have distinctIds : (originals.map Operator.id).Nodup := ids ▸ members.nodup
  obtain ⟨pairs, copies, pairOriginals⟩ :=
    (GraphCopy.CopiesOperators.start graph.nextSerial).foldl originals
  rw [List.map_nil, List.nil_append] at pairOriginals
  have inGraph : ∀ pair ∈ pairs, pair.original ∈ graph.operators := fun pair member =>
    isOriginal _ (pairOriginals ▸ List.mem_map_of_mem member)
  have ports := copies.copiesPorts wellFormed inGraph (pairOriginals ▸ distinctIds.of_map)
  refine ⟨_, by rw [copyOf, lookedUp]; rfl, ?_⟩
  -- The edges are copied into whatever graph the copies of operators are in.
  generalize originals.foldl GraphCopy.addOperator { graph := { nextSerial := graph.nextSerial } } =
    middle at copies ports
  obtain ⟨origins, -, operators, nextOperator, nextPort, edges⟩ :=
    GraphCopy.foldl_addEdge (graph.edges.toList.filter (graph.acceptsEdge keep)) middle
  generalize (graph.edges.toList.filter (graph.acceptsEdge keep)).foldl GraphCopy.addEdge middle =
    copied at origins operators nextOperator nextPort edges
  have links : graph.CopiesEdges keep copied middle := by
    refine ⟨origins, operators, nextOperator, nextPort, fun new => ?_⟩
    rw [edges, copies.noEdges]
    simp [and_assoc]
  have copyIds : copied.origins.map CopiedPair.copy = copied.graph.operatorIds := by
    rw [origins, copies.origins, operatorIds, operators, copies.operators, List.map_map,
      List.map_map]
    rfl
  have alike : ∀ pair ∈ copied.origins, ∃ copy ∈ copied.graph.operators,
      ∃ original ∈ graph.operators,
        copy.id = pair.copy ∧ original.id = pair.source ∧ copy.blueprint = original.blueprint := by
    intro pair member
    rw [origins, copies.origins] at member
    obtain ⟨both, bothMember, rfl⟩ := List.mem_map.1 member
    refine ⟨both.copy, ?_, both.original, inGraph both bothMember, rfl, rfl,
      copies.alike both bothMember⟩
    rw [operators, copies.operators]
    exact List.mem_map_of_mem bothMember
  refine ⟨links.copyWellFormed wellFormed copies.wellFormed ports, copyIds, ?_, alike,
    fun left isLeft right isRight output input => ?_⟩
  · rw [origins, copies.origins, List.map_map, ← ids, ← pairOriginals, List.map_map]
    rfl
  · exact links.wired_iff wellFormed copies.wellFormed ports copyIds alike isLeft isRight

end Graph

end StagePlanner
