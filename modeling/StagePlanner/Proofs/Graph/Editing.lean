import StagePlanner.Graph.Edit
import StagePlanner.Proofs.Fallible
import StagePlanner.Proofs.Graph.Wiring

/-!
# Edits keep graphs well formed

Every edit leaves a well-formed graph, whether it gives a result or fails: each of the changes
that edits are made of keeps a graph well formed, and `Edit.Keeps` carries this through sequences
of edits. Everything that is proved about well-formed graphs therefore holds for every graph that
edits build from the empty one.
-/

namespace StagePlanner

/-! ### New identifiers -/

/-- Consecutive identifiers from a first one on. -/
def Id.run {kind : IdKind} (first : Id kind) (count : Nat) : List (Id kind) :=
  (List.range' 0 count).map fun offset => ⟨first.index + offset⟩

theorem Id.nodup_run {kind : IdKind} (first : Id kind) (count : Nat) : (first.run count).Nodup := by
  have distinct : (List.range' 0 count).Nodup := List.nodup_range'
  refine distinct.map fun left right same => ?_
  simpa using congrArg Id.index same

theorem Id.bounds_of_mem_run {kind : IdKind} {first id : Id kind} {count : Nat}
    (member : id ∈ first.run count) :
    first.index ≤ id.index ∧ id.index < first.index + count := by
  obtain ⟨offset, inRange, rfl⟩ := List.mem_map.1 member
  have bound := List.mem_range'_1.1 inRange
  dsimp only
  omega

theorem Id.run_append {kind : IdKind} (first : Id kind) (left right : Nat) :
    first.run left ++ Id.run ⟨first.index + left⟩ right = first.run (left + right) := by
  have split : List.range' 0 (left + right) = List.range' 0 left ++ List.range' left right := by
    have pieces : List.range' 0 left 1 ++ List.range' (0 + 1 * left) right 1 =
        List.range' 0 (left + right) 1 := List.range'_append
    simpa using pieces.symm
  have shifted : List.range' left right = (List.range' 0 right).map (left + ·) := by
    rw [List.map_add_range', Nat.add_zero]
  rw [run, run, run, split, List.map_append, shifted, List.map_map]
  refine congrArg _ (List.map_congr_left fun offset _ => ?_)
  exact congrArg Id.mk (Nat.add_assoc _ _ _)

namespace Graph

theorem assignPorts_cons (first : PortId) (shape : PortShape) (rest : List PortShape) :
    assignPorts first (shape :: rest) =
      { shape with id := first } :: assignPorts first.next rest := by
  rw [assignPorts, List.zipIdx_cons, List.map_cons, List.zipIdx_succ, List.map_map, assignPorts]
  refine congrArg _ (List.map_congr_left fun _ _ => ?_)
  simp [Id.next, Nat.add_assoc, Nat.add_comm 1]

theorem map_id_assignPorts {first : PortId} {shapes : List PortShape} :
    (assignPorts first shapes).map Port.id = first.run shapes.length := by
  rw [assignPorts, List.map_map, Id.run, ← List.zipIdx_map_snd, List.map_map]
  rfl

theorem map_toPortShape_assignPorts {first : PortId} {shapes : List PortShape} :
    (assignPorts first shapes).map (·.toPortShape) = shapes := by
  rw [assignPorts, List.map_map]
  exact List.zipIdx_map_fst 0 shapes

/-! ### Changes that keep a graph well formed -/

variable {graph : Graph}

/-- A graph without operators and edges is well formed, whatever identifiers come next. -/
theorem wellFormed_of_no_operators (noOperators : graph.operators = []) (noEdges : graph.edges = ∅) :
    graph.WellFormed where
  ascending := by rw [noOperators]; exact .nil
  operatorsBelow := by simp [noOperators]
  ports := by simp [noOperators]
  portsBelow := by simp [noOperators]
  sources := by simp [noEdges]
  targets := by simp [noEdges]

/-- The operator that `Graph.add` appends. -/
def added (graph : Graph) (blueprint : Blueprint) : Operator where
  id := graph.nextOperator
  serial := blueprint.serial.getD graph.nextSerial
  kind := blueprint.kind
  inputs := assignPorts graph.nextPort blueprint.inputs
  outputs := assignPorts ⟨graph.nextPort.index + blueprint.inputs.length⟩ blueprint.outputs
  arguments := blueprint.arguments
  traits := blueprint.traits

theorem operators_add {blueprint : Blueprint} :
    (graph.add blueprint).2.operators = graph.operators ++ [graph.added blueprint] := rfl

theorem map_id_ports_added {blueprint : Blueprint} :
    (graph.added blueprint).ports.map Port.id =
      graph.nextPort.run (blueprint.inputs.length + blueprint.outputs.length) := by
  rw [Operator.ports, List.map_append, ← Id.run_append, ← map_id_assignPorts, ← map_id_assignPorts]
  rfl

theorem WellFormed.add (wellFormed : graph.WellFormed) (blueprint : Blueprint) :
    (graph.add blueprint).2.WellFormed where
  ascending := by
    refine List.pairwise_append.2 ⟨wellFormed.ascending, List.pairwise_singleton _ _, ?_⟩
    intro before member after isLast
    rw [List.mem_singleton.1 isLast]
    exact wellFormed.operatorsBelow before member
  operatorsBelow := by
    intro operator member
    rcases List.mem_append.1 member with old | new
    · exact Nat.lt_succ_of_lt (wellFormed.operatorsBelow operator old)
    · rw [List.mem_singleton.1 new]
      exact Nat.lt_succ_self _
  ports := by
    rw [operators_add, List.flatMap_append, List.flatMap_singleton]
    rw [map_id_ports_added]
    refine List.nodup_append.2 ⟨wellFormed.ports, Id.nodup_run _ _, ?_⟩
    rintro port isOld other isNew rfl
    obtain ⟨operator, member, owns⟩ := List.mem_flatMap.1 isOld
    obtain ⟨owned, isOwned, rfl⟩ := List.mem_map.1 owns
    have below := wellFormed.portsBelow operator member owned isOwned
    have bounds := Id.bounds_of_mem_run isNew
    omega
  portsBelow := by
    intro operator member port isPort
    have next : (graph.add blueprint).2.nextPort.index =
        graph.nextPort.index + blueprint.inputs.length + blueprint.outputs.length := rfl
    rcases List.mem_append.1 member with old | new
    · have below := wellFormed.portsBelow operator old port isPort
      omega
    · rw [List.mem_singleton.1 new] at isPort
      have bounds := Id.bounds_of_mem_run (map_id_ports_added ▸ List.mem_map_of_mem isPort)
      omega
  sources := by
    intro edge member
    obtain ⟨operator, old, owns⟩ := wellFormed.sources edge member
    exact ⟨operator, List.mem_append_left _ old, owns⟩
  targets := by
    intro edge member
    obtain ⟨operator, old, owns⟩ := wellFormed.targets edge member
    exact ⟨operator, List.mem_append_left _ old, owns⟩

theorem WellFormed.link (wellFormed : graph.WellFormed) {source target : PortId}
    (isOutput : ∃ operator ∈ graph.operators, source ∈ operator.outputs.map Port.id)
    (isInput : ∃ operator ∈ graph.operators, target ∈ operator.inputs.map Port.id) :
    (graph.link source target).WellFormed :=
  { wellFormed with
    sources := by
      intro edge member
      rcases OrderedSet.mem_insert.1 member with rfl | old
      · exact isOutput
      · exact wellFormed.sources edge old
    targets := by
      intro edge member
      rcases OrderedSet.mem_insert.1 member with rfl | old
      · exact isInput
      · exact wellFormed.targets edge old }

/-- Edges may be removed from a graph. -/
theorem WellFormed.filter_edges (wellFormed : graph.WellFormed) (test : Edge → Bool) :
    { graph with edges := graph.edges.filter test }.WellFormed :=
  { wellFormed with
    sources := fun edge member => wellFormed.sources edge (OrderedSet.mem_filter.1 member).1
    targets := fun edge member => wellFormed.targets edge (OrderedSet.mem_filter.1 member).1 }

theorem WellFormed.unlink (wellFormed : graph.WellFormed) (source target : PortId) :
    (graph.unlink source target).WellFormed :=
  wellFormed.filter_edges _

theorem WellFormed.detach (wellFormed : graph.WellFormed) (ports : List PortId) :
    (graph.detach ports).WellFormed :=
  wellFormed.filter_edges _

theorem mem_operators_without {operator other : Operator} :
    other ∈ (graph.without operator).operators ↔
      other ∈ graph.operators ∧ other.id ≠ operator.id := by
  simp [without, detach]

theorem WellFormed.nodup_operators (wellFormed : graph.WellFormed) : graph.operators.Nodup :=
  .of_map Operator.id wellFormed.nodup_operatorIds

/-- Well-formed graphs with the same operators list them in the same order. -/
theorem WellFormed.operators_ext {other : Graph} (wellFormed : graph.WellFormed) (otherWellFormed : other.WellFormed)
    (same : ∀ operator, operator ∈ graph.operators ↔ operator ∈ other.operators) :
    graph.operators = other.operators := by
  refine List.Perm.eq_of_pairwise (fun left right _ _ below above => ?_) wellFormed.ascending
    otherWellFormed.ascending ((List.perm_ext_iff_of_nodup wellFormed.nodup_operators
      otherWellFormed.nodup_operators).2 same)
  exact absurd (Nat.lt_trans below above) (Nat.lt_irrefl _)

/-- The removal of an operator takes away one operator. -/
theorem WellFormed.operators_without (wellFormed : graph.WellFormed) {operator : Operator}
    (member : operator ∈ graph.operators) :
    (graph.without operator).operators = graph.operators.erase operator := by
  rw [wellFormed.nodup_operators.erase_eq_filter]
  refine List.filter_congr fun other isOther => ?_
  rw [bne, beq_eq_decide, ← decide_not, decide_eq_decide]
  exact not_congr ⟨wellFormed.operator_unique isOther member, congrArg Operator.id⟩

theorem mem_edges_without {operator : Operator} {edge : Edge} :
    edge ∈ (graph.without operator).edges ↔
      edge ∈ graph.edges ∧ edge.source ∉ operator.ports.map Port.id ∧
        edge.target ∉ operator.ports.map Port.id := by
  simp only [without, detach, OrderedSet.mem_filter, Bool.not_eq_true', List.any_eq_false,
    Edge.touches, Bool.or_eq_true, decide_eq_true_eq, not_or]
  constructor
  · rintro ⟨member, untouched⟩
    exact ⟨member, fun owns => (untouched _ owns).1 rfl, fun owns => (untouched _ owns).2 rfl⟩
  · rintro ⟨member, notSource, notTarget⟩
    exact ⟨member, fun port owns =>
      ⟨fun same => notSource (same ▸ owns), fun same => notTarget (same ▸ owns)⟩⟩

theorem WellFormed.without (wellFormed : graph.WellFormed) {operator : Operator}
    (member : operator ∈ graph.operators) : (graph.without operator).WellFormed where
  ascending := wellFormed.ascending.filter _
  operatorsBelow other otherMember :=
    wellFormed.operatorsBelow other (mem_operators_without.1 otherMember).1
  ports := wellFormed.ports.sublist (List.filter_sublist.flatMap _)
  portsBelow other otherMember :=
    wellFormed.portsBelow other (mem_operators_without.1 otherMember).1
  sources edge edgeMember := by
    obtain ⟨old, notSource, -⟩ := mem_edges_without.1 edgeMember
    obtain ⟨producer, producerMember, owns⟩ := wellFormed.sources edge old
    refine ⟨producer, mem_operators_without.2 ⟨producerMember, fun same => notSource ?_⟩, owns⟩
    rw [← wellFormed.operator_unique producerMember member same]
    exact Operator.mem_ports_of_mem_portsOn .output owns
  targets edge edgeMember := by
    obtain ⟨old, -, notTarget⟩ := mem_edges_without.1 edgeMember
    obtain ⟨consumer, consumerMember, owns⟩ := wellFormed.targets edge old
    refine ⟨consumer, mem_operators_without.2 ⟨consumerMember, fun same => notTarget ?_⟩, owns⟩
    rw [← wellFormed.operator_unique consumerMember member same]
    exact Operator.mem_ports_of_mem_portsOn .input owns

/-! ### Places of ports -/

/-- No port lies on both sides of an operator. -/
theorem WellFormed.side_unique (wellFormed : graph.WellFormed) {operator : Operator}
    (member : operator ∈ graph.operators) {port : PortId} {side other : PortSide}
    (onSide : port ∈ (operator.portsOn side).map Port.id)
    (onOther : port ∈ (operator.portsOn other).map Port.id) : side = other := by
  have nodup := wellFormed.nodup_ports member
  rw [Operator.ports, List.map_append] at nodup
  have apart := (List.nodup_append.1 nodup).2.2
  cases side <;> cases other
  · rfl
  · exact absurd rfl (apart port onSide port onOther)
  · exact absurd rfl (apart port onOther port onSide)
  · rfl

/-- A port that an operator has on one side is found there. -/
theorem WellFormed.exists_place? (wellFormed : graph.WellFormed) {operator : Operator}
    (member : operator ∈ graph.operators) (side : PortSide) {port : PortId}
    (owned : port ∈ (operator.portsOn side).map Port.id) :
    ∃ place, graph.place? port = some place ∧ place.owner = operator ∧ place.side = side := by
  have owner := wellFormed.owner?_eq_some_iff.2
    ⟨member, Operator.mem_ports_of_mem_portsOn side owned⟩
  obtain ⟨place, found, rfl⟩ := Option.map_eq_some_iff.1 owner
  have onSide := (mem_portsOn_of_place? found).2
  exact ⟨place, found, rfl, wellFormed.side_unique member onSide owned⟩

theorem WellFormed.opposites_input (wellFormed : graph.WellFormed) {operator : Operator}
    (member : operator ∈ graph.operators) {port : PortId}
    (owned : port ∈ operator.inputs.map Port.id) :
    graph.opposites port = graph.producers port := by
  obtain ⟨place, found, -, side⟩ := wellFormed.exists_place? member .input owned
  rw [opposites, found, Option.map_some, side]

theorem WellFormed.opposites_output (wellFormed : graph.WellFormed) {operator : Operator}
    (member : operator ∈ graph.operators) {port : PortId}
    (owned : port ∈ operator.outputs.map Port.id) :
    graph.opposites port = graph.consumers port := by
  obtain ⟨place, found, -, side⟩ := wellFormed.exists_place? member .output owned
  rw [opposites, found, Option.map_some, side]

theorem mem_of_operator {id : OperatorId} {operator : Operator}
    (found : graph.operator id = .ok operator) :
    operator ∈ graph.operators ∧ operator.id = id := by
  rw [Graph.operator] at found
  split at found
  · next other isThere =>
    cases found
    exact ⟨List.mem_of_find?_eq_some isThere, by simpa using List.find?_some isThere⟩
  · cases found

/-- An operator is found by its identifier. -/
theorem WellFormed.operator_eq_ok (wellFormed : graph.WellFormed) {operator : Operator}
    (member : operator ∈ graph.operators) : graph.operator operator.id = .ok operator := by
  rw [Graph.operator, wellFormed.operator?_eq_some_iff.2 ⟨member, rfl⟩]

theorem place_eq_ok {port : PortId} {place : PortPlace} :
    graph.place port = .ok place ↔ graph.place? port = some place := by
  rw [Graph.place]
  split
  · next found => simp [found]
  · next found => simp [found]

theorem inputAt_of_portAt (wellFormed : graph.WellFormed) {id : OperatorId} {index : Nat}
    {port : PortId} (isAt : graph.PortAt .input ⟨id, index⟩ port) :
    graph.inputAt id index = .ok port := by
  obtain ⟨operator, member, same, position⟩ := isAt
  rw [List.getElem?_map, Option.map_eq_some_iff] at position
  obtain ⟨found, isFound, rfl⟩ := position
  have listed : operator.inputs[index]? = some found := isFound
  rw [inputAt, Graph.operator, wellFormed.operator?_eq_some_iff.2 ⟨member, same⟩]
  simp only [bind, Except.bind, listed]
  rfl

theorem outputAt_of_portAt (wellFormed : graph.WellFormed) {id : OperatorId} {index : Nat}
    {port : PortId} (isAt : graph.PortAt .output ⟨id, index⟩ port) :
    graph.outputAt id index = .ok port := by
  obtain ⟨operator, member, same, position⟩ := isAt
  rw [List.getElem?_map, Option.map_eq_some_iff] at position
  obtain ⟨found, isFound, rfl⟩ := position
  have listed : operator.outputs[index]? = some found := isFound
  rw [outputAt, Graph.operator, wellFormed.operator?_eq_some_iff.2 ⟨member, same⟩]
  simp only [bind, Except.bind, listed]
  rfl

/-- What is found at a position of an operator is there. -/
theorem portAt_of_operator (side : PortSide) {id : OperatorId} {index : Nat} {operator : Operator}
    (isOperator : graph.operator id = .ok operator) {port : Port}
    (isPort : (operator.portsOn side)[index]? = some port) :
    graph.PortAt side ⟨id, index⟩ port.id := by
  obtain ⟨member, same⟩ := mem_of_operator isOperator
  exact ⟨operator, member, same, by rw [List.getElem?_map, isPort, Option.map_some]⟩

theorem portAt_of_inputAt {id : OperatorId} {index : Nat} {input : PortId}
    (found : graph.inputAt id index = .ok input) : graph.PortAt .input ⟨id, index⟩ input := by
  rw [inputAt] at found
  cases isOperator : graph.operator id with
  | error cause => rw [isOperator] at found; cases found
  | ok operator =>
    rw [isOperator] at found
    simp only [bind, Except.bind] at found
    cases isPort : operator.inputs[index]? with
    | none => rw [isPort] at found; cases found
    | some port =>
      rw [isPort] at found
      obtain rfl := Except.ok.inj found
      exact portAt_of_operator .input isOperator isPort

theorem portAt_of_outputAt {id : OperatorId} {index : Nat} {output : PortId}
    (found : graph.outputAt id index = .ok output) : graph.PortAt .output ⟨id, index⟩ output := by
  rw [outputAt] at found
  cases isOperator : graph.operator id with
  | error cause => rw [isOperator] at found; cases found
  | ok operator =>
    rw [isOperator] at found
    simp only [bind, Except.bind] at found
    cases isPort : operator.outputs[index]? with
    | none => rw [isPort] at found; cases found
    | some port =>
      rw [isPort] at found
      obtain rfl := Except.ok.inj found
      exact portAt_of_operator .output isOperator isPort

end Graph

/-! ### Edits -/

namespace Edit

/-- Whether it gives a result or fails, the edit leaves a well-formed graph behind a well-formed
one. -/
def Keeps {α : Type} (edit : Edit α) : Prop :=
  ∀ graph : Graph, graph.WellFormed → (edit.apply graph).2.WellFormed

variable {α β : Type}

theorem apply_bind {edit : Edit α} {next : α → Edit β} {graph : Graph} :
    (edit >>= next).apply graph =
      match edit.apply graph with
      | (.ok value, changed) => (next value).apply changed
      | (.error fault, changed) => (.error fault, changed) := by
  rcases ends : edit.apply graph with ⟨_ | _, _⟩
  · exact run_run_bind_of_error ends
  · exact run_run_bind_of_ok ends

theorem apply_look {question : Graph → Except GraphFault α} {graph : Graph} :
    (look question).apply graph =
      match question graph with
      | .ok answer => (.ok answer, graph)
      | .error cause => (.error (.graph cause), graph) := by
  rw [look, apply_bind]
  change (match question graph with
    | .ok answer => (Pure.pure answer : Edit α)
    | .error cause => refuse cause).apply graph = _
  cases question graph <;> rfl

theorem Keeps.pure (value : α) : Keeps (Pure.pure value : Edit α) := fun _ wellFormed => wellFormed

theorem Keeps.refuse (cause : GraphFault) : Keeps (Edit.refuse cause : Edit α) :=
  fun _ wellFormed => wellFormed

theorem Keeps.get : Keeps (MonadState.get : Edit Graph) := fun _ wellFormed => wellFormed

theorem Keeps.modify {change : Graph → Graph}
    (keeps : ∀ graph : Graph, graph.WellFormed → (change graph).WellFormed) :
    Keeps (modify change : Edit Unit) := keeps

theorem Keeps.bind {edit : Edit α} {next : α → Edit β} (first : Keeps edit)
    (later : ∀ value, Keeps (next value)) : Keeps (edit >>= next) := by
  intro graph wellFormed
  have middle := first graph wellFormed
  rw [apply_bind]
  split
  · next value changed result =>
    rw [result] at middle
    exact later value changed middle
  · next fault changed result =>
    rw [result] at middle
    exact middle

/-- What follows a look at a graph may use what was seen. -/
theorem Keeps.look_bind {question : Graph → Except GraphFault α} {next : α → Edit β}
    (later : ∀ graph answer, question graph = .ok answer → graph.WellFormed →
      ((next answer).apply graph).2.WellFormed) : Keeps (look question >>= next) := by
  intro graph wellFormed
  rw [apply_bind, apply_look]
  cases answered : question graph with
  | ok answer => exact later graph answer answered wellFormed
  | error cause => exact wellFormed

/-- A check that may fail stands before the rest of an edit. -/
theorem Keeps.check {condition : Prop} [Decidable condition] {failure : Edit Unit}
    {next : Unit → Edit α} (fails : Keeps failure) (later : Keeps (next ())) :
    Keeps (if condition then failure >>= next else next ()) := by
  split
  · exact fails.bind fun _ => later
  · exact later

theorem Keeps.look (question : Graph → Except GraphFault α) : Keeps (Edit.look question) := by
  intro graph wellFormed
  rw [apply_look]
  cases question graph <;> exact wellFormed

theorem Keeps.forM {items : List α} {edit : α → Edit Unit} (each : ∀ item, Keeps (edit item)) :
    Keeps (items.forM edit) := by
  induction items with
  | nil => exact Keeps.pure ()
  | cons item rest ih => exact (each item).bind fun _ => ih

theorem keeps_add (blueprint : Blueprint) : Keeps (add blueprint) :=
  fun _ wellFormed => wellFormed.add blueprint

theorem keeps_remove (id : OperatorId) : Keeps (remove id) :=
  Keeps.look_bind fun _ _ found wellFormed => wellFormed.without (Graph.mem_of_operator found).1

/-- Connecting an output with an input links them. -/
theorem apply_connect {graph : Graph} {source target : PortId} {start finish : PortPlace}
    (startFound : graph.place? source = some start) (startSide : start.side = .output)
    (finishFound : graph.place? target = some finish) (finishSide : finish.side = .input) :
    (connect source target).apply graph = (.ok (), graph.link source target) := by
  rw [connect, apply_bind, apply_look, Graph.place_eq_ok.2 startFound]
  dsimp only
  rw [apply_bind, apply_look, Graph.place_eq_ok.2 finishFound]
  simp only [startSide, finishSide]
  rfl

theorem keeps_connect (source target : PortId) : Keeps (connect source target) := by
  refine Keeps.look_bind fun graph start startFound wellFormed => ?_
  rw [apply_bind, apply_look]
  cases finishFound : graph.place target with
  | error cause => exact wellFormed
  | ok finish =>
    obtain ⟨startMember, startOwns⟩ := Graph.mem_portsOn_of_place? (Graph.place_eq_ok.1 startFound)
    obtain ⟨finishMember, finishOwns⟩ :=
      Graph.mem_portsOn_of_place? (Graph.place_eq_ok.1 finishFound)
    cases startSide : start.side with
    | input => exact wellFormed
    | output =>
      cases finishSide : finish.side with
      | output =>
        simp only [finishSide]
        exact wellFormed
      | input =>
        rw [startSide] at startOwns
        rw [finishSide] at finishOwns
        simp only [finishSide]
        exact wellFormed.link ⟨_, startMember, startOwns⟩ ⟨_, finishMember, finishOwns⟩

theorem keeps_disconnect (source target : PortId) : Keeps (disconnect source target) :=
  fun _ wellFormed => wellFormed.unlink source target

theorem keeps_disconnectAll (port : PortId) : Keeps (disconnectAll port) :=
  Keeps.modify fun _ wellFormed => wellFormed.detach _

theorem keeps_requirePassThrough (blueprint : Blueprint) : Keeps (requirePassThrough blueprint) := by
  rw [requirePassThrough]
  split
  · exact Keeps.pure ()
  · exact Keeps.refuse _

theorem keeps_insertBefore (input : PortId) (blueprint : Blueprint) :
    Keeps (insertBefore input blueprint) := by
  refine (keeps_requirePassThrough blueprint).bind fun _ => (Keeps.look _).bind fun place => ?_
  refine Keeps.check (Keeps.refuse _) ?_
  refine (keeps_add blueprint).bind fun id => (Keeps.look _).bind fun newInput =>
    (Keeps.look _).bind fun newOutput => Keeps.get.bind fun graph => ?_
  refine Keeps.bind (Keeps.forM fun producer => ?_) fun _ =>
    (keeps_connect _ _).bind fun _ => Keeps.pure id
  exact (keeps_disconnect _ _).bind fun _ => keeps_connect _ _

theorem keeps_insertAfter (output : PortId) (blueprint : Blueprint) :
    Keeps (insertAfter output blueprint) := by
  refine (keeps_requirePassThrough blueprint).bind fun _ => (Keeps.look _).bind fun place => ?_
  refine Keeps.check (Keeps.refuse _) ?_
  refine (keeps_add blueprint).bind fun id => (Keeps.look _).bind fun newInput =>
    (Keeps.look _).bind fun newOutput => Keeps.get.bind fun graph => ?_
  refine Keeps.bind (Keeps.forM fun consumer => ?_) fun _ =>
    (keeps_connect _ _).bind fun _ => Keeps.pure id
  exact (keeps_disconnect _ _).bind fun _ => keeps_connect _ _

theorem keeps_bypass (id : OperatorId) : Keeps (bypass id) := by
  refine (Keeps.look _).bind fun operator => ?_
  split
  · refine Keeps.get.bind fun _ => Keeps.get.bind fun _ => (keeps_remove id).bind fun _ => ?_
    exact Keeps.forM fun producer => Keeps.forM fun consumer => keeps_connect producer consumer
  · exact Keeps.refuse _

theorem keeps_rebuild (id : OperatorId) (change : Blueprint → Blueprint) :
    Keeps (rebuild id change) := by
  refine (Keeps.look _).bind fun old => Keeps.check (Keeps.refuse _) ?_
  refine (keeps_add _).bind fun copy => (Keeps.look _).bind fun new => ?_
  refine Keeps.bind (Keeps.forM fun ports => ?_) fun _ =>
    Keeps.bind (Keeps.forM fun ports => ?_) fun _ => (keeps_remove id).bind fun _ => Keeps.pure copy
  · exact Keeps.get.bind fun _ => Keeps.forM fun producer => keeps_connect producer _
  · exact Keeps.get.bind fun _ => Keeps.forM fun consumer => keeps_connect _ consumer

end Edit

end StagePlanner
