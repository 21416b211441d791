import StagePlanner.Proofs.Arena.Representation
import StagePlanner.Proofs.Graph.Copying

/-!
# Copies of parts of an arena

Copying a part of an arena goes together with copying the part of the graph in it, operator by operator
and then edge by edge (`Arena.copyOf_represents`): the one fails for the same cause as the other, or
both copies hold the same graph and name the same originals. So a part with known members is copied
(`Arena.exists_copyOf`), and any other one is refused (`Arena.copyOf_eq_error`).
-/

namespace StagePlanner

open Std (ExtTreeMap)

/-- The copied tables hold the copied graph, with the same originals. -/
structure ArenaCopy.Represents (copied : ArenaCopy) (plain : GraphCopy) : Prop where
  arena : copied.arena.Represents plain.graph
  origins : ∀ copy original : OperatorId,
    copied.origins[copy]? = some original ↔ ⟨copy, original⟩ ∈ plain.origins
  ports : ∀ new old : PortId, copied.ports[old]? = some new ↔ ⟨new, old⟩ ∈ plain.ports

namespace ArenaCopy

variable {arena : Arena} {graph : Graph} {copied : ArenaCopy} {plain : GraphCopy}

theorem represents_start (serial : SerialNumber) :
    ({ arena := { nextSerial := serial } } : ArenaCopy).Represents
      { graph := { nextSerial := serial } } where
  arena := Arena.represents_empty serial
  origins _ _ := by simp
  ports _ _ := by simp

/-- The copy of a port is looked up alike. -/
theorem Represents.port_eq (represents : copied.Represents plain) (old : PortId) :
    copied.ports[old]? = plain.portCopy? old := by
  refine Option.ext fun new => ?_
  rw [represents.ports, GraphCopy.portCopy?_eq_some_iff_mem fun isLeft isRight => ?_]
  exact Option.some.inj (((represents.ports _ _).2 isLeft).symm.trans ((represents.ports _ _).2 isRight))

/-! ### Operators -/

/-- Entries with distinct keys that are made one after the other. -/
theorem getElem?_foldl_insert {kind : IdKind} {table : ExtTreeMap (Id kind) (Id kind)}
    {entries : List (Id kind × Id kind)} (distinct : (entries.map Prod.fst).Nodup) {old new : Id kind} :
    (entries.foldl (fun table (old, new) => table.insert old new) table)[old]? = some new ↔
      (old, new) ∈ entries ∨ old ∉ entries.map Prod.fst ∧ table[old]? = some new := by
  induction entries generalizing table with
  | nil => simp
  | cons entry rest ih =>
    obtain ⟨key, value⟩ := entry
    obtain ⟨first, distinctRest⟩ := List.nodup_cons.1 distinct
    rw [List.foldl_cons, ih distinctRest]
    simp only [ExtTreeMap.getElem?_insert, Std.compare_eq_iff_eq]
    by_cases same : key = old
    · subst same
      have notRest : (key, new) ∉ rest := fun member =>
        first (List.mem_map.2 ⟨_, member, rfl⟩)
      simp [first, notRest, eq_comm]
    · have apart : ¬ old = key := fun equal => same equal.symm
      simp [same, apart]

/-- Ports correspond in the order in which both operators list them. -/
theorem mem_zipWith_ports {created operator : Operator} {old new : PortId} :
    ⟨new, old⟩ ∈ List.zipWith (fun (new old : Port) => (⟨new.id, old.id⟩ : CopiedPair .port))
        created.ports operator.ports ↔
      (old, new) ∈ operator.record.ports.zip created.record.ports := by
  have swapped : List.zipWith (fun (new old : Port) => (⟨new.id, old.id⟩ : CopiedPair .port))
      created.ports operator.ports = (operator.record.ports.zip created.record.ports).map
        fun pair => ⟨pair.2, pair.1⟩ := by
    rw [operator.ports_record, created.ports_record, List.zip_eq_zipWith, List.map_zipWith,
      List.zipWith_map, List.zipWith_comm]
  rw [swapped, List.mem_map]
  constructor
  · rintro ⟨⟨_, _⟩, member, same⟩
    cases same
    exact member
  · exact fun member => ⟨_, member, rfl⟩

/-- The copy of an operator lists as many ports as the operator. -/
theorem map_fst_zip_ports (graph : Graph) (operator : Operator) :
    (operator.record.ports.zip (graph.added operator.blueprint).record.ports).map Prod.fst =
      operator.ports.map Port.id := by
  have alike := GraphCopy.blueprint_added graph operator
  rw [List.map_fst_zip, operator.ports_record]
  simp only [Operator.ports_record, List.length_map, Operator.ports, List.length_append]
  exact Nat.le_of_eq (congrArg₂ (· + ·) (Operator.length_portsOn alike .input).symm
    (Operator.length_portsOn alike .output).symm)

variable {pairs : List GraphCopy.OperatorPair}

theorem Represents.origins_insert (represents : copied.Represents plain)
    (copies : plain.CopiesOperators pairs) {operator : Operator} {copy source : OperatorId} :
    (copied.origins.insert copied.arena.nextOperator operator.id)[copy]? = some source ↔
      ⟨copy, source⟩ ∈ (plain.addOperator operator).origins := by
  have origins : (plain.addOperator operator).origins =
      plain.origins ++ [⟨plain.graph.nextOperator, operator.id⟩] := rfl
  rw [represents.arena.nextOperator, origins, List.mem_append, List.mem_singleton, CopiedPair.mk.injEq]
  simp only [ExtTreeMap.getElem?_insert, Std.compare_eq_iff_eq]
  by_cases same : plain.graph.nextOperator = copy
  · have unused : ⟨copy, source⟩ ∉ plain.origins := by
      rw [copies.origins]
      intro isThere
      obtain ⟨pair, isPair, equal⟩ := List.mem_map.1 isThere
      have copyId : pair.copy.id = copy := congrArg CopiedPair.copy equal
      have below := copies.wellFormed.operatorsBelow pair.copy
        (copies.operators ▸ List.mem_map_of_mem isPair)
      rw [copyId, ← same] at below
      exact Nat.lt_irrefl _ below
    simp [same, unused, eq_comm]
  · have apart : ¬ copy = plain.graph.nextOperator := fun equal => same equal.symm
    simp [same, apart, represents.origins]

/-- The ports of an operator that is not copied yet are looked up after those that are. -/
theorem Represents.ports_insert (represents : copied.Represents plain) (wellFormed : graph.WellFormed)
    (copies : plain.CopiesOperators pairs) {operator : Operator} (member : operator ∈ graph.operators)
    (apart : ∀ pair ∈ pairs, pair.original ∈ graph.operators ∧ pair.original ≠ operator)
    {old new : PortId} :
    ((operator.record.ports.zip (plain.graph.added operator.blueprint).record.ports).foldl
      (fun ports (old, new) => ports.insert old new) copied.ports)[old]? = some new ↔
        ⟨new, old⟩ ∈ (plain.addOperator operator).ports := by
  have listed := map_fst_zip_ports plain.graph operator
  have distinct := wellFormed.nodup_ports member
  rw [← listed] at distinct
  rw [GraphCopy.ports_addOperator copies.wellFormed, List.mem_append, mem_zipWith_ports,
    getElem?_foldl_insert distinct, represents.ports, listed, or_comm]
  refine or_congr_left (and_iff_right_of_imp fun isThere owned => ?_)
  obtain ⟨pair, isPair, inPair⟩ := copies.mem_ports.1 isThere
  obtain ⟨side, index, -, position⟩ :=
    (GraphCopy.OperatorPair.mem_ports (copies.alike pair isPair)).1 inPair
  obtain ⟨isOriginal, different⟩ := apart pair isPair
  exact different (wellFormed.owner_unique isOriginal member
    (Operator.mem_ports_of_mem_portsOn side (List.mem_of_getElem? position)) owned)

/-- An operator that is not copied yet is copied in both. -/
theorem Represents.exists_copyOperator (represents : copied.Represents plain)
    (original : arena.Represents graph) (copies : plain.CopiesOperators pairs) {operator : Operator}
    (member : operator ∈ graph.operators)
    (apart : ∀ pair ∈ pairs, pair.original ∈ graph.operators ∧ pair.original ≠ operator) :
    ∃ next, arena.copyOperator copied operator.id = .ok next ∧
      next.Represents (plain.addOperator operator) := by
  have found := original.wellFormed.operator_eq_ok member
  have grown := represents.arena.add operator.blueprint
  have created : (copied.arena.add operator.blueprint).2.operator
      (copied.arena.add operator.blueprint).1 = .ok (plain.graph.added operator.blueprint).record := by
    rw [grown.operator_eq, represents.arena.add_fst]
    exact congrArg _ (grown.wellFormed.operator_eq_ok (List.mem_append_right _
      (List.mem_singleton_self (plain.graph.added operator.blueprint))))
  refine ⟨{
    arena := (copied.arena.add operator.blueprint).2
    origins := copied.origins.insert copied.arena.nextOperator operator.id
    ports := (operator.record.ports.zip (plain.graph.added operator.blueprint).record.ports).foldl
      (fun ports (old, new) => ports.insert old new) copied.ports }, ?_, {
        arena := grown
        origins := fun _ _ => represents.origins_insert copies
        ports := fun _ _ => represents.ports_insert original.wellFormed copies member apart }⟩
  rw [Arena.copyOperator, original.operator_eq, original.blueprint_eq, found]
  show ((copied.arena.add operator.blueprint).2.operator (copied.arena.add operator.blueprint).1 >>=
    fun created => _) = _
  rw [created]
  rfl

/-- Copying operators one after the other fails in both for the same cause, or succeeds in both. -/
theorem Represents.foldlM_copyOperator (original : arena.Represents graph) {ids : List OperatorId}
    (distinct : ids.Nodup) (represents : copied.Represents plain) (copies : plain.CopiesOperators pairs)
    (apart : ∀ pair ∈ pairs, pair.original ∈ graph.operators ∧ pair.original.id ∉ ids) :
    (∃ cause, ids.mapM graph.operator = .error cause ∧
      ids.foldlM arena.copyOperator copied = .error cause) ∨
    ∃ operators next, ids.mapM graph.operator = .ok operators ∧
      ids.foldlM arena.copyOperator copied = .ok next ∧
        next.Represents (operators.foldl GraphCopy.addOperator plain) := by
  induction ids generalizing copied plain pairs with
  | nil => exact .inr ⟨[], copied, rfl, rfl, represents⟩
  | cons id rest ih =>
    obtain ⟨notRest, distinctRest⟩ := List.nodup_cons.1 distinct
    rw [List.mapM_cons, List.foldlM_cons]
    cases found : graph.operator id with
    | error cause =>
      refine .inl ⟨cause, rfl, ?_⟩
      rw [Arena.copyOperator, original.operator_eq, found]
      rfl
    | ok operator =>
      obtain ⟨member, rfl⟩ := Graph.mem_of_operator found
      obtain ⟨next, isNext, nextRepresents⟩ := represents.exists_copyOperator original copies member
        fun pair isPair => ⟨(apart pair isPair).1, fun same =>
          (apart pair isPair).2 (same ▸ List.mem_cons_self)⟩
      have apartRest : ∀ pair ∈ pairs ++ [⟨plain.graph.added operator.blueprint, operator⟩],
          pair.original ∈ graph.operators ∧ pair.original.id ∉ rest := by
        intro pair isPair
        rcases List.mem_append.1 isPair with old | new
        · exact ⟨(apart pair old).1, fun isRest => (apart pair old).2 (List.mem_cons_of_mem _ isRest)⟩
        · rw [List.mem_singleton.1 new]
          exact ⟨member, notRest⟩
      rw [isNext]
      rcases ih distinctRest nextRepresents (copies.addOperator operator) apartRest with
        ⟨cause, failed, alsoFailed⟩ | ⟨operators, last, succeeded, alsoSucceeded, lastRepresents⟩
      · exact .inl ⟨cause, by rw [failed]; rfl, alsoFailed⟩
      · exact .inr ⟨operator :: operators, last, by rw [succeeded]; rfl, alsoSucceeded, lastRepresents⟩

/-! ### Edges -/

theorem copiesPorts_addEdge (ports : plain.CopiesPorts graph) (edge : Edge) :
    (plain.addEdge edge).CopiesPorts graph := by
  rw [GraphCopy.addEdge]
  split <;> exact ports

variable (keep : OperatorId → OperatorId → Bool)

/-- An edge of the graph is copied in both, or in none. -/
theorem Represents.exists_copyEdge (represents : copied.Represents plain)
    (original : arena.Represents graph) (ports : plain.CopiesPorts graph) {edge : Edge}
    (isEdge : edge ∈ graph.edges) : ∃ next, arena.copyEdge keep copied edge = .ok next ∧
      next.Represents (if graph.acceptsEdge keep edge then plain.addEdge edge else plain) := by
  obtain ⟨producer, isProducer, gives⟩ := original.wellFormed.sources edge isEdge
  obtain ⟨consumer, isConsumer, takes⟩ := original.wellFormed.targets edge isEdge
  obtain ⟨start, starts, startOwner, -⟩ := original.wellFormed.exists_place? isProducer .output gives
  obtain ⟨finish, finishes, finishOwner, -⟩ :=
    original.wellFormed.exists_place? isConsumer .input takes
  have accepts : graph.acceptsEdge keep edge = keep start.owner.id finish.owner.id := by
    rw [Graph.acceptsEdge, Graph.owner?, Graph.owner?, starts, finishes]
    rfl
  rw [Arena.copyEdge, GraphCopy.addEdge, represents.port_eq, represents.port_eq]
  cases newSource : plain.portCopy? edge.source with
  | none =>
    refine ⟨copied, rfl, ?_⟩
    split <;> exact represents
  | some source =>
    cases newTarget : plain.portCopy? edge.target with
    | none =>
      refine ⟨copied, rfl, ?_⟩
      split <;> exact represents
    | some target =>
      -- Copies of ports belong to copies of operators, so they can be connected.
      have owned : ∀ (side : PortSide) {owner : Operator} {old new : PortId},
          owner ∈ graph.operators → old ∈ (owner.portsOn side).map Port.id →
            plain.portCopy? old = some new →
              ∃ copy ∈ plain.graph.operators, new ∈ (copy.portsOn side).map Port.id := by
        intro side owner old new isOwner isOwned isCopy
        obtain ⟨index, position⟩ := List.mem_iff_getElem?.1 isOwned
        have oldAt : graph.PortAt side ⟨owner.id, index⟩ old := ⟨owner, isOwner, rfl, position⟩
        exact Graph.exists_owner_of_portCopy original.wellFormed ports oldAt isCopy
      have isOutput := owned .output isProducer gives newSource
      have isInput := owned .input isConsumer takes newTarget
      rw [original.port_eq, original.port_eq, Graph.place_eq_ok.2 starts, Graph.place_eq_ok.2 finishes]
      show ∃ next : ArenaCopy, (if keep start.owner.id finish.owner.id then
          copied.arena.connected source target >>= fun linked => pure { copied with arena := linked }
        else pure copied) = _ ∧ next.Represents (if graph.acceptsEdge keep edge then
          { plain with graph := plain.graph.link source target } else plain)
      rw [represents.arena.connected_eq isOutput isInput, accepts]
      split
      · exact ⟨_, rfl, { represents with arena := represents.arena.link isOutput isInput }⟩
      · exact ⟨_, rfl, represents⟩

theorem Represents.foldlM_copyEdge (original : arena.Represents graph) (edges : List Edge)
    (areEdges : ∀ edge ∈ edges, edge ∈ graph.edges) (represents : copied.Represents plain)
    (ports : plain.CopiesPorts graph) : ∃ next, edges.foldlM (arena.copyEdge keep) copied = .ok next ∧
      next.Represents ((edges.filter (graph.acceptsEdge keep)).foldl GraphCopy.addEdge plain) := by
  induction edges generalizing copied plain with
  | nil => exact ⟨copied, rfl, represents⟩
  | cons edge rest ih =>
    obtain ⟨isEdge, areRest⟩ := List.forall_mem_cons.1 areEdges
    obtain ⟨next, isNext, nextRepresents⟩ := represents.exists_copyEdge keep original ports isEdge
    rw [List.foldlM_cons, isNext, List.filter_cons]
    split at nextRepresents
    · next accepted =>
      rw [if_pos accepted]
      exact ih areRest nextRepresents (copiesPorts_addEdge ports edge)
    · next refused =>
      rw [if_neg refused]
      exact ih areRest nextRepresents ports

end ArenaCopy

/-- A copy of a part of an arena holds the copy of that part of the graph; both fail when there is no
such part. -/
theorem Arena.copyOf_represents {arena : Arena} {graph : Graph} (represents : arena.Represents graph)
    (members : OrderedSet OperatorId) (keep : OperatorId → OperatorId → Bool) :
    (∃ cause, graph.copyOf members keep = .error cause ∧ arena.copyOf members keep = .error cause) ∨
    ∃ plain copied, graph.copyOf members keep = .ok plain ∧ arena.copyOf members keep = .ok copied ∧
      copied.Represents plain := by
  have start := ArenaCopy.represents_start graph.nextSerial
  have started := start.foldlM_copyOperator represents members.nodup
    (GraphCopy.CopiesOperators.start graph.nextSerial) (by simp)
  rw [Graph.copyOf, Arena.copyOf, represents.nextSerial, represents.edges_eq]
  rcases started with ⟨cause, failed, alsoFailed⟩ | ⟨operators, middle, found, isMiddle, middleRepresents⟩
  · rw [failed, alsoFailed]
    exact .inl ⟨cause, rfl, rfl⟩
  · obtain ⟨pairs, copies, originals⟩ :=
      (GraphCopy.CopiesOperators.start graph.nextSerial).foldl operators
    rw [List.map_nil, List.nil_append] at originals
    have lookups := mapM_eq_ok_iff.1 found
    have ids : operators.map Operator.id = members.toList := by
      have same : List.Forall₂ (· = ·) members.toList (operators.map Operator.id) :=
        List.forall₂_map_right_iff.2 (lookups.imp fun _ _ isFound =>
          (Graph.mem_of_operator isFound).2.symm)
      exact (List.forall₂_eq_eq_eq ▸ same).symm
    have inGraph : ∀ pair ∈ pairs, pair.original ∈ graph.operators := by
      intro pair isPair
      obtain ⟨_, -, isFound⟩ := exists_partner lookups (originals ▸ List.mem_map_of_mem isPair)
      exact (Graph.mem_of_operator isFound).1
    have distinct : (operators.map Operator.id).Nodup := ids ▸ members.nodup
    have ports := copies.copiesPorts represents.wellFormed inGraph (originals ▸ distinct.of_map)
    obtain ⟨last, isLast, lastRepresents⟩ := middleRepresents.foldlM_copyEdge keep represents
      graph.edges.toList (fun _ isEdge => isEdge) ports
    rw [found, isMiddle]
    exact .inr ⟨_, last, rfl, isLast, lastRepresents⟩

/-- The copy of some members: operators like them, with wires where theirs are accepted, and a table of
origins that names every member for one copy. -/
structure ArenaCopy.CopiesMembers (copied : ArenaCopy) (graph : Graph) (members : OrderedSet OperatorId)
    (keep : OperatorId → OperatorId → Bool) : Prop where
  part : ∃ plain, copied.Represents plain ∧ graph.CopiesPart members.toList keep plain
  copies : ∀ copy : OperatorId,
    (∃ original, copied.origins[copy]? = some original) ↔ copy ∈ copied.arena.operators
  originals : ∀ original,
    (∃ copy : OperatorId, copied.origins[copy]? = some original) ↔ original ∈ members
  injective : ∀ {left right original : OperatorId}, copied.origins[left]? = some original →
    copied.origins[right]? = some original → left = right

namespace Arena

variable {arena : Arena} {graph : Graph} (represents : arena.Represents graph)
  {members : OrderedSet OperatorId} (keep : OperatorId → OperatorId → Bool)

include represents

/-- A part with known members is copied in the arena as in the graph. -/
theorem exists_copyOf_represents (known : ∀ id ∈ members, id ∈ graph.operatorIds) :
    ∃ plain copied, graph.copyOf members keep = .ok plain ∧ arena.copyOf members keep = .ok copied ∧
      copied.Represents plain ∧ graph.CopiesPart members.toList keep plain := by
  obtain ⟨plain, isPlain, part⟩ := Graph.exists_copyOf represents.wellFormed known keep
  rcases copyOf_represents represents members keep with
    ⟨cause, failed, -⟩ | ⟨other, copied, isOther, isCopied, holds⟩
  · cases failed.symm.trans isPlain
  · obtain rfl := Except.ok.inj (isOther.symm.trans isPlain)
    exact ⟨other, copied, isPlain, isCopied, holds, part⟩

theorem exists_copyOf (known : ∀ id ∈ members, id ∈ graph.operatorIds) :
    ∃ copied, arena.copyOf members keep = .ok copied ∧ copied.CopiesMembers graph members keep := by
  obtain ⟨plain, copied, -, isCopied, holds, part⟩ := exists_copyOf_represents represents keep known
  have distinct : (plain.origins.map CopiedPair.source).Nodup := part.sources ▸ members.nodup
  refine ⟨copied, isCopied, ⟨plain, holds, part⟩, fun copy => ?_, fun original => ?_, ?_⟩
  · simp only [holds.origins, holds.arena.mem_operators_iff, ← Graph.mem_operatorIds, ← part.copies]
    constructor
    · rintro ⟨original, isOrigin⟩
      exact List.mem_map.2 ⟨_, isOrigin, rfl⟩
    · intro listed
      obtain ⟨pair, isOrigin, rfl⟩ := List.mem_map.1 listed
      exact ⟨pair.source, isOrigin⟩
  · simp only [holds.origins]
    rw [← OrderedSet.mem_toList, ← part.sources]
    constructor
    · rintro ⟨copy, isOrigin⟩
      exact List.mem_map.2 ⟨_, isOrigin, rfl⟩
    · intro listed
      obtain ⟨pair, isOrigin, rfl⟩ := List.mem_map.1 listed
      exact ⟨pair.copy, isOrigin⟩
  · intro left right original isLeft isRight
    rw [holds.origins] at isLeft isRight
    exact congrArg CopiedPair.copy (List.inj_on_of_nodup_map distinct isLeft isRight rfl)

/-- A member that is no operator of the graph is named when it is met. -/
theorem copyOf_eq_error {unknown : OperatorId} (member : unknown ∈ members)
    (isUnknown : unknown ∉ graph.operatorIds) : ∃ id ∈ members, id ∉ graph.operatorIds ∧
      arena.copyOf members keep = .error (.unknownOperator id) := by
  rcases copyOf_represents represents members keep with
    ⟨cause, failed, alsoFailed⟩ | ⟨plain, -, isPlain, -⟩
  · obtain ⟨id, isMember, notThere, rfl⟩ := Graph.exists_unknown_of_copyOf represents.wellFormed failed
    exact ⟨id, isMember, notThere, alsoFailed⟩
  · exact absurd (Graph.mem_operatorIds_of_copyOf isPlain member) isUnknown

end Arena

end StagePlanner
