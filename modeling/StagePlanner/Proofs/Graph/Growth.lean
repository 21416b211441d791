import StagePlanner.Graph.Edit
import StagePlanner.Graph.Copy
import StagePlanner.Proofs.Fallible
import StagePlanner.Proofs.Graph.Completion

/-!
# What calls add to a graph

Whether it is answered or refused, a call adds at most one operator, and what it adds gets the next
identifiers (`EditCall.leaves`). Therefore no identifier is used again, and a serial number that is given
out is higher than all others as long as none is the last of 64 bits.
-/

namespace StagePlanner

variable {graph result : Graph}

namespace Graph

/-- No operators come up, and the same identifiers come next. -/
structure Sheds (graph result : Graph) : Prop where
  operators : ∀ operator ∈ result.operators, operator ∈ graph.operators
  nextOperator : result.nextOperator = graph.nextOperator
  nextPort : result.nextPort = graph.nextPort
  nextSerial : result.nextSerial = graph.nextSerial

theorem Sheds.refl (graph : Graph) : graph.Sheds graph := ⟨fun _ member => member, rfl, rfl, rfl⟩

theorem Sheds.trans {middle : Graph} (first : graph.Sheds middle) (second : middle.Sheds result) :
    graph.Sheds result where
  operators operator member := first.operators operator (second.operators operator member)
  nextOperator := second.nextOperator.trans first.nextOperator
  nextPort := second.nextPort.trans first.nextPort
  nextSerial := second.nextSerial.trans first.nextSerial

instance : IsPreorder Graph Sheds where
  refl := .refl
  trans _ _ _ := .trans

theorem SameButEdges.sheds (same : graph.SameButEdges result) : graph.Sheds result where
  operators _ member := same.operators ▸ member
  nextOperator := same.nextOperator
  nextPort := same.nextPort
  nextSerial := same.nextSerial

theorem sheds_without (graph : Graph) (operator : Operator) : graph.Sheds (graph.without operator) where
  operators _ member := (mem_operators_without.1 member).1
  nextOperator := rfl
  nextPort := rfl
  nextSerial := rfl

/-- An operator is added, and nothing else comes up. -/
structure Adds (graph : Graph) (blueprint : Blueprint) (result : Graph) : Prop where
  sheds : (graph.add blueprint).2.Sheds result
  isThere : graph.added blueprint ∈ result.operators

theorem SameButEdges.adds {blueprint : Blueprint} (same : (graph.add blueprint).2.SameButEdges result) :
    graph.Adds blueprint result :=
  ⟨same.sheds, same.operators ▸ List.mem_append_right _ (List.mem_singleton_self _)⟩

end Graph

namespace Edit

variable {α β : Type} {property : Graph → Prop}

/-- Whether it gives a result or fails, the edit leaves a graph with a property. -/
abbrev Leaves (edit : Edit α) (graph : Graph) (property : Graph → Prop) : Prop :=
  edit.Ends graph (fun _ => property) fun _ => property

theorem Leaves.apply {edit : Edit α} (leaves : edit.Leaves graph property) :
    property (edit.apply graph).2 := by
  rw [Leaves, Ends] at leaves
  split at leaves
  · next ended => rwa [ended]
  · next ended => rwa [ended]

theorem Leaves.imp {edit : Edit α} {other : Graph → Prop} (leaves : edit.Leaves graph property)
    (implies : ∀ result, property result → other result) : edit.Leaves graph other :=
  (Ends.mono leaves fun _ result _ => implies result).weaken fun _ => implies

/-- An answer is made of the result. -/
theorem Leaves.answer {edit : Edit α} (leaves : edit.Leaves graph property) {answer : α → β} :
    (edit >>= fun value => pure (answer value)).Leaves graph property :=
  Ends.bind leaves fun _ _ holds => Ends.pure holds

theorem leaves_connect (same : graph.SameButEdges result) (source target : PortId) :
    (connect source target).Leaves result graph.SameButEdges :=
  Ends.look_bind_or (fun _ _ => same) fun _ _ => Ends.look_bind_or (fun _ _ => same) fun _ _ =>
    Ends.check_or (fun _ => same) fun _ =>
      Ends.of_yields rfl (same.trans (Graph.sameButEdges_link _ source target))

theorem leaves_disconnect (same : graph.SameButEdges result) (source target : PortId) :
    (disconnect source target).Leaves result graph.SameButEdges :=
  Ends.of_yields rfl (same.trans (Graph.sameButEdges_unlink _ source target))

/-- What a removal leaves is without an operator, unless there was none. -/
theorem ends_remove (removed : OperatorId) :
    (remove removed).Ends graph
      (fun _ result => ∃ operator, operator.id = removed ∧ result = graph.without operator)
      fun _ result => result = graph :=
  Ends.look_bind_or (fun _ _ => rfl) fun operator found =>
    Ends.of_yields rfl ⟨operator, (Graph.mem_of_operator found).2, rfl⟩

theorem leaves_remove (removed : OperatorId) : (remove removed).Leaves graph graph.Sheds := by
  refine ((ends_remove removed).mono fun _ result _ outcome => ?_).weaken fun _ result same => ?_
  · obtain ⟨operator, -, rfl⟩ := outcome
    exact graph.sheds_without operator
  · exact same ▸ .refl graph

/-- The operator that is put on an edge is added, and what follows only moves edges. -/
theorem leaves_placed {blueprint : Blueprint} {port : PortId}
    {move : PortId → PortId → PortId → Edit PUnit} {finish : OperatorId → PortId → PortId → Edit β}
    (moves : ∀ newInput newOutput other middle, (graph.add blueprint).2.SameButEdges middle →
      (move newInput newOutput other).Leaves middle (graph.add blueprint).2.SameButEdges)
    (finishes : ∀ id newInput newOutput middle, (graph.add blueprint).2.SameButEdges middle →
      (finish id newInput newOutput).Leaves middle (graph.add blueprint).2.SameButEdges) :
    Leaves (do
      let id ← add blueprint
      let newInput ← look fun graph => graph.inputAt id 0
      let newOutput ← look fun graph => graph.outputAt id 0
      ((← get).opposites port).forM (move newInput newOutput)
      finish id newInput newOutput) graph (graph.Adds blueprint) := by
  refine Ends.add_bind ?_
  have start := Graph.SameButEdges.refl (graph.add blueprint).2
  refine Leaves.imp ?_ fun _ (same : (graph.add blueprint).2.SameButEdges _) => same.adds
  refine Ends.look_bind_or (fun _ _ => start) fun newInput _ => Ends.look_bind_or (fun _ _ => start)
    fun newOutput _ => Ends.get_bind ?_
  exact (Ends.forM_of start fun other _ _ same => moves newInput newOutput other _ same).bind
    fun _ _ same => finishes _ newInput newOutput _ same

theorem leaves_insertBefore (input : PortId) (blueprint : Blueprint) :
    (insertBefore input blueprint).Leaves graph fun result =>
      result = graph ∨ graph.Adds blueprint result := by
  rw [insertBefore, requirePassThrough]
  split
  · refine Ends.look_bind_or (fun _ _ => .inl rfl) fun _ _ => Ends.check_or (fun _ => .inl rfl)
      fun _ => ?_
    refine Leaves.imp (leaves_placed ?_ ?_) fun _ => .inr
    · exact fun _ _ _ _ same => (leaves_disconnect same _ _).bind fun _ _ same => leaves_connect same _ _
    · exact fun _ _ _ _ same => (leaves_connect same _ _).answer
  · exact Ends.fail (.inl rfl)

theorem leaves_insertAfter (output : PortId) (blueprint : Blueprint) :
    (insertAfter output blueprint).Leaves graph fun result =>
      result = graph ∨ graph.Adds blueprint result := by
  rw [insertAfter, requirePassThrough]
  split
  · refine Ends.look_bind_or (fun _ _ => .inl rfl) fun _ _ => Ends.check_or (fun _ => .inl rfl)
      fun _ => ?_
    refine Leaves.imp (leaves_placed ?_ ?_) fun _ => .inr
    · exact fun _ _ _ _ same => (leaves_disconnect same _ _).bind fun _ _ same => leaves_connect same _ _
    · exact fun _ _ _ _ same => (leaves_connect same _ _).answer
  · exact Ends.fail (.inl rfl)

theorem leaves_bypass (bypassed : OperatorId) : (bypass bypassed).Leaves graph graph.Sheds := by
  refine Ends.look_bind_or (fun _ _ => .refl graph) fun operator found => ?_
  split
  · refine Ends.get_bind (Ends.get_bind ?_)
    refine ((ends_remove bypassed).weaken fun _ _ same => same ▸ .refl graph).bind fun _ _ outcome => ?_
    obtain ⟨removed, -, rfl⟩ := outcome
    refine Leaves.imp ?_ fun _ (same : (graph.without removed).SameButEdges _) =>
      (graph.sheds_without removed).trans same.sheds
    exact Ends.forM_of (.refl _) fun producer _ _ same =>
      Ends.forM_of same fun consumer _ _ same => leaves_connect same _ _
  · exact Ends.fail (.refl graph)

theorem leaves_rebuild (wellFormed : graph.WellFormed) (rebuilt : OperatorId)
    (change : Blueprint → Blueprint) :
    (rebuild rebuilt change).Leaves graph fun result => result = graph ∨
      ∃ old, graph.operator rebuilt = .ok old ∧ graph.Adds (change old.blueprint) result := by
  refine Ends.look_bind_or (fun _ _ => .inl rfl) fun old found => Ends.check_or (fun _ => .inl rfl)
    fun _ => Ends.add_bind ?_
  have start := Graph.SameButEdges.refl (graph.add (change old.blueprint)).2
  have adds : ∀ result, (graph.add (change old.blueprint)).2.SameButEdges result → result = graph ∨
      ∃ old, graph.operator rebuilt = .ok old ∧ graph.Adds (change old.blueprint) result :=
    fun _ same => .inr ⟨old, found, same.adds⟩
  refine Ends.look_bind_or (fun _ _ => adds _ start) fun new _ => ?_
  refine (((Ends.forM_of start fun ports _ _ same => Ends.get_bind (Ends.forM_of same
    fun producer _ _ same => leaves_connect same _ _)).weaken fun _ => adds).bind fun _ _ same => ?_)
  refine (((Ends.forM_of same fun ports _ _ same => Ends.get_bind (Ends.forM_of same
    fun consumer _ _ same => leaves_connect same _ _)).weaken fun _ => adds).bind fun _ middle same => ?_)
  refine ((ends_remove rebuilt).weaken fun _ _ unchanged => unchanged ▸ adds _ same).bind
    fun _ _ outcome => Ends.pure ?_
  obtain ⟨removed, rfl, rfl⟩ := outcome
  obtain ⟨isOld, sameId⟩ := Graph.mem_of_operator found
  refine .inr ⟨old, found, same.adds.sheds.trans (middle.sheds_without removed),
    Graph.mem_operators_without.2 ⟨same.adds.isThere, fun equal => ?_⟩⟩
  have below := wellFormed.operatorsBelow old isOld
  rw [sameId, ← equal] at below
  exact Nat.lt_irrefl _ below

end Edit

/-- The blueprint of the operator that a call may add, given the blueprints of the operators that are
there. -/
def EditCall.blueprint? (blueprintOf : OperatorId → Option Blueprint) : EditCall → Option Blueprint
  | .add blueprint => some blueprint
  | .insertBefore _ blueprint => some blueprint
  | .insertAfter _ blueprint => some blueprint
  | .rebuild id change => (blueprintOf id).map change
  | _ => none

/-- A call adds no operator, or one from the blueprint that it brings. -/
theorem EditCall.leaves (wellFormed : graph.WellFormed) (call : EditCall) :
    call.edit.Leaves graph fun result => graph.Sheds result ∨ ∃ blueprint,
      call.blueprint? (fun id => (graph.operator? id).map Operator.blueprint) = some blueprint ∧
        graph.Adds blueprint result := by
  have kept : ∀ {result blueprint}, call.blueprint?
      (fun id => (graph.operator? id).map Operator.blueprint) = some blueprint →
      result = graph ∨ graph.Adds blueprint result → graph.Sheds result ∨ ∃ blueprint,
        call.blueprint? (fun id => (graph.operator? id).map Operator.blueprint) = some blueprint ∧
          graph.Adds blueprint result := by
    rintro result blueprint brings (rfl | adds)
    · exact .inl (.refl _)
    · exact .inr ⟨blueprint, brings, adds⟩
  have start := Graph.SameButEdges.refl graph
  cases call with
  | add blueprint => exact Edit.Ends.of_yields rfl (kept rfl (.inr (Graph.SameButEdges.refl _).adds))
  | remove id => exact Edit.Leaves.imp (Edit.leaves_remove id).answer fun _ => .inl
  | connect source target =>
    exact Edit.Leaves.imp (Edit.leaves_connect start source target).answer fun _ same => .inl same.sheds
  | disconnect source target =>
    exact Edit.Leaves.imp (Edit.leaves_disconnect start source target).answer fun _ same =>
      .inl same.sheds
  | disconnectAll port =>
    exact Edit.Ends.of_yields rfl (.inl ⟨fun _ member => member, rfl, rfl, rfl⟩)
  | insertBefore input blueprint =>
    exact Edit.Leaves.imp (Edit.leaves_insertBefore input blueprint).answer fun _ => kept rfl
  | insertAfter output blueprint =>
    exact Edit.Leaves.imp (Edit.leaves_insertAfter output blueprint).answer fun _ => kept rfl
  | bypass id => exact Edit.Leaves.imp (Edit.leaves_bypass id).answer fun _ => .inl
  | rebuild id change =>
    refine Edit.Leaves.imp (Edit.leaves_rebuild wellFormed id change).answer ?_
    rintro result (rfl | ⟨old, found, adds⟩)
    · exact .inl (.refl _)
    · obtain ⟨member, rfl⟩ := Graph.mem_of_operator found
      refine .inr ⟨_, ?_, adds⟩
      rw [blueprint?, wellFormed.operator?_eq_some_iff.2 ⟨member, rfl⟩]
      rfl

/-! ### Identifiers and serial numbers -/

namespace Graph

/-- Identifiers are given out in ascending order, and only what is new gets one. -/
structure Grows (graph result : Graph) : Prop where
  nextOperator : graph.nextOperator.index ≤ result.nextOperator.index
  nextPort : graph.nextPort.index ≤ result.nextPort.index
  operators : ∀ operator ∈ result.operators, operator ∈ graph.operators ∨
    graph.nextOperator.index ≤ operator.id.index ∧
      ∀ port ∈ operator.ports, graph.nextPort.index ≤ port.id.index

theorem Sheds.grows (sheds : graph.Sheds result) : graph.Grows result where
  nextOperator := Nat.le_of_eq (congrArg Id.index sheds.nextOperator.symm)
  nextPort := Nat.le_of_eq (congrArg Id.index sheds.nextPort.symm)
  operators operator member := .inl (sheds.operators operator member)

variable {blueprint : Blueprint}

/-- What is there after an operator was added was there before, or is the operator. -/
theorem Adds.old_or_new (adds : graph.Adds blueprint result) {operator : Operator}
    (member : operator ∈ result.operators) :
    operator ∈ graph.operators ∨ operator = graph.added blueprint :=
  (List.mem_append.1 (adds.sheds.operators operator member)).imp_right List.mem_singleton.1

theorem Adds.grows (adds : graph.Adds blueprint result) : graph.Grows result where
  nextOperator := by
    rw [adds.sheds.nextOperator]
    exact Nat.le_succ _
  nextPort := by
    rw [adds.sheds.nextPort]
    exact (Nat.le_add_right _ _).trans (Nat.le_add_right _ _)
  operators operator member := by
    refine (adds.old_or_new member).imp_right ?_
    rintro rfl
    refine ⟨Nat.le_refl _, fun port isPort => ?_⟩
    have listed := List.mem_map_of_mem (f := Port.id) isPort
    rw [map_id_ports_added] at listed
    exact (Id.bounds_of_mem_run listed).1

/-- The next serial number is higher than all that are there. -/
def SerialsBelow (graph : Graph) : Prop :=
  ∀ operator ∈ graph.operators, operator.serial.index < graph.nextSerial.index

theorem serialsBelow_of_no_operators (none : graph.operators = []) : graph.SerialsBelow := by
  intro operator member
  rw [none] at member
  exact absurd member List.not_mem_nil

theorem Sheds.serialsBelow (sheds : graph.Sheds result) (below : graph.SerialsBelow) :
    result.SerialsBelow := by
  intro operator member
  rw [sheds.nextSerial]
  exact below operator (sheds.operators operator member)

theorem Adds.serialsBelow (adds : graph.Adds blueprint result) (below : graph.SerialsBelow)
    (small : ∀ operator ∈ result.operators, operator.serial.index < Nat.pow 2 64 - 1) :
    result.SerialsBelow := by
  have next : result.nextSerial =
      blueprint.serial.elim graph.nextSerial.next graph.serialAfter := adds.sheds.nextSerial
  intro operator member
  rw [next]
  cases chosen : blueprint.serial with
  | none =>
    rw [Option.elim_none]
    rcases adds.old_or_new member with old | rfl
    · exact Nat.lt_succ_of_lt (below operator old)
    · rw [added, chosen]
      exact Nat.lt_succ_self _
  | some serial =>
    have new : (blueprint.serial.getD graph.nextSerial).index < Nat.pow 2 64 - 1 := small _ adds.isThere
    rw [chosen, Option.getD_some] at new
    have inRange : serial.next.index % Nat.pow 2 64 = serial.index + 1 :=
      Nat.mod_eq_of_lt (show serial.index + 1 < Nat.pow 2 64 by omega)
    rw [Option.elim_some, serialAfter, inRange]
    rcases adds.old_or_new member with old | rfl
    · have old := below operator old
      split
      · dsimp only; omega
      · exact old
    · rw [added, chosen, Option.getD_some]
      split
      · exact Nat.lt_succ_self _
      · next higher => exact Nat.lt_of_not_le higher

end Graph

theorem EditCall.grows (wellFormed : graph.WellFormed) (call : EditCall) :
    graph.Grows (call.edit.apply graph).2 := by
  rcases (call.leaves wellFormed).apply with sheds | ⟨blueprint, -, adds⟩
  · exact sheds.grows
  · exact adds.grows

theorem EditCall.serialsBelow (wellFormed : graph.WellFormed) (call : EditCall)
    (below : graph.SerialsBelow)
    (small : ∀ operator ∈ (call.edit.apply graph).2.operators,
      operator.serial.index < Nat.pow 2 64 - 1) :
    (call.edit.apply graph).2.SerialsBelow := by
  rcases (call.leaves wellFormed).apply with sheds | ⟨blueprint, -, adds⟩
  · exact sheds.serialsBelow below
  · exact adds.serialsBelow below small

/-- A serial number that the graph gives out is new. -/
theorem EditCall.serial_fresh (wellFormed : graph.WellFormed) (call : EditCall)
    (below : graph.SerialsBelow) {blueprint : Blueprint}
    (brings : call.blueprint? (fun id => (graph.operator? id).map Operator.blueprint) = some blueprint)
    (unnumbered : blueprint.serial = none) {new : Operator}
    (isThere : new ∈ (call.edit.apply graph).2.operators) (isNew : new ∉ graph.operators) :
    ∀ old ∈ graph.operators, old.serial ≠ new.serial := by
  intro old isOld same
  rcases (call.leaves wellFormed).apply with sheds | ⟨other, alsoBrings, adds⟩
  · exact isNew (sheds.operators new isThere)
  · obtain rfl := Option.some.inj (brings.symm.trans alsoBrings)
    obtain rfl := (adds.old_or_new isThere).resolve_left isNew
    have lower := below old isOld
    rw [same, Graph.added, unnumbered, Option.getD_none] at lower
    exact Nat.lt_irrefl _ lower

/-! ### Copies -/

namespace GraphCopy

variable {copied : GraphCopy}

/-- A copy has the serial number of its original, and the one to give out next stays. -/
theorem serialsBelow_foldl_addOperator {operators : List Operator} (below : copied.graph.SerialsBelow)
    (lower : ∀ operator ∈ operators, operator.serial.index < copied.graph.nextSerial.index) :
    (operators.foldl addOperator copied).graph.SerialsBelow := by
  induction operators generalizing copied with
  | nil => exact below
  | cons operator rest ih =>
    obtain ⟨lowerFirst, lowerRest⟩ := List.forall_mem_cons.1 lower
    have next : (copied.addOperator operator).graph.nextSerial = copied.graph.nextSerial := by
      show copied.graph.serialAfter operator.serial = _
      rw [Graph.serialAfter, if_neg (Nat.not_le_of_lt lowerFirst)]
    refine ih (fun other member => ?_) (next ▸ lowerRest)
    rw [next]
    rcases List.mem_append.1 member with old | new
    · exact below other old
    · rw [List.mem_singleton.1 new]
      exact lowerFirst

theorem serialsBelow_foldl_addEdge {edges : List Edge} (below : copied.graph.SerialsBelow) :
    (edges.foldl addEdge copied).graph.SerialsBelow := by
  induction edges generalizing copied with
  | nil => exact below
  | cons edge rest ih =>
    refine ih ?_
    rw [addEdge]
    split <;> exact below

end GraphCopy

theorem Graph.SerialsBelow.copyOf (below : graph.SerialsBelow) {members : OrderedSet OperatorId}
    {keep : OperatorId → OperatorId → Bool} {copied : GraphCopy}
    (copies : graph.copyOf members keep = .ok copied) : copied.graph.SerialsBelow := by
  obtain ⟨operators, found, copies⟩ := bind_eq_ok_iff.1 copies
  cases copies
  refine GraphCopy.serialsBelow_foldl_addEdge (GraphCopy.serialsBelow_foldl_addOperator
    (serialsBelow_of_no_operators rfl) ?_)
  intro operator member
  obtain ⟨_, -, isFound⟩ := exists_partner (mapM_eq_ok_iff.1 found) member
  exact below operator (mem_of_operator isFound).1

end StagePlanner
