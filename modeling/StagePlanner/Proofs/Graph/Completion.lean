import StagePlanner.Proofs.Graph.Lookup
import StagePlanner.Proofs.Graph.Renaming

/-!
# How edits end

An edit gives a result or fails. `Edit.Ends` says of an edit and a graph what holds after a result
and for which causes the edit may fail; it is carried through sequences and loops. Building blocks
give a result where the operators and ports that they are told about exist, and so do the edits that
put operators between ports or replace them.
-/

namespace StagePlanner

namespace Edit

variable {α β : Type} {graph result : Graph} {after other : α → Graph → Prop}
  {because : Fault → Graph → Prop}

/-- The edit gives a result after which something holds, or fails for a cause of some kind, at the
graph that it leaves. -/
def Ends (edit : Edit α) (graph : Graph) (after : α → Graph → Prop)
    (because : Fault → Graph → Prop) : Prop :=
  match edit.apply graph with
  | (.ok value, result) => after value result
  | (.error fault, result) => because fault result

namespace Ends

theorem mono {edit : Edit α} (ends : edit.Ends graph after because)
    (implies : ∀ value result, edit.Yields graph value result → after value result →
      other value result) : edit.Ends graph other because := by
  rw [Ends] at ends ⊢
  split at ends
  · next value result yields => exact implies value result yields ends
  · exact ends

/-- More causes may be named. -/
theorem weaken {edit : Edit α} {cause : Fault → Graph → Prop} (ends : edit.Ends graph after because)
    (implies : ∀ fault result, because fault result → cause fault result) :
    edit.Ends graph after cause := by
  rw [Ends] at ends ⊢
  split at ends
  · exact ends
  · next fault result _ => exact implies fault result ends

theorem of_yields {edit : Edit α} {value : α} (yields : edit.Yields graph value result)
    (holds : after value result) : edit.Ends graph after because := by
  rw [Ends, yields]
  exact holds

theorem pure {value : α} (holds : after value graph) :
    (Pure.pure value : Edit α).Ends graph after because := holds

theorem fail {fault : Fault} (is : because fault graph) : (throw fault : Edit α).Ends graph after because := is

theorem bind {edit : Edit α} {next : α → Edit β} {last : β → Graph → Prop}
    (first : edit.Ends graph after because)
    (later : ∀ value changed, after value changed → (next value).Ends changed last because) :
    (edit >>= next).Ends graph last because := by
  rw [Ends] at first ⊢
  rw [apply_bind]
  cases ran : edit.apply graph with
  | mk outcome changed =>
    rw [ran] at first
    cases outcome with
    | ok value => exact later value changed first
    | error fault => exact first

/-- What an edit gives may be left aside. -/
theorem discard {edit : Edit α} {holds : Graph → Prop} (ends : edit.Ends graph (fun _ => holds) because) :
    (edit >>= fun _ => Pure.pure PUnit.unit : Edit PUnit).Ends graph (fun _ => holds) because :=
  ends.bind fun _ _ kept => pure kept

theorem get_bind {next : Graph → Edit α} (later : (next graph).Ends graph after because) :
    ((get : Edit Graph) >>= next).Ends graph after because := later

theorem look_bind {question : Graph → Except GraphFault β} {next : β → Edit α} {answer : β}
    (found : question graph = .ok answer) (later : (next answer).Ends graph after because) :
    (look question >>= next).Ends graph after because := by
  have looks : (look question).Ends graph (fun value changed => value = answer ∧ changed = graph)
      because := of_yields (yields_look.2 ⟨found, rfl⟩) ⟨rfl, rfl⟩
  refine looks.bind ?_
  rintro _ _ ⟨rfl, rfl⟩
  exact later

/-- What is looked up is there, or the edit fails at the graph where it was looked up. -/
theorem look_bind_or {question : Graph → Except GraphFault β} {next : β → Edit α}
    (absent : ∀ cause, question graph = .error cause → because (.graph cause) graph)
    (later : ∀ answer, question graph = .ok answer → (next answer).Ends graph after because) :
    (look question >>= next).Ends graph after because := by
  cases found : question graph with
  | ok answer => exact look_bind found (later answer found)
  | error cause =>
    have fails : (look question).Ends graph (fun _ _ => False) because := by
      rw [Ends, apply_look, found]
      exact absent cause found
    exact fails.bind fun _ _ => False.elim

theorem add_bind {blueprint : Blueprint} {next : OperatorId → Edit α}
    (later : (next graph.nextOperator).Ends (graph.add blueprint).2 after because) :
    (add blueprint >>= next).Ends graph after because := later

theorem remove_bind {next : Operator → Edit α} {operator : Operator} (wellFormed : graph.WellFormed)
    (member : operator ∈ graph.operators)
    (later : (next operator).Ends (graph.without operator) after because) :
    (remove operator.id >>= next).Ends graph after because := by
  have found := wellFormed.operator_eq_ok member
  have removes : (remove operator.id).Ends graph
      (fun removed changed => removed = operator ∧ changed = graph.without operator) because :=
    of_yields (yields_remove.2 ⟨found, rfl⟩) ⟨rfl, rfl⟩
  refine removes.bind ?_
  rintro _ _ ⟨rfl, rfl⟩
  exact later

/-- A check that passes stands before the rest of an edit. -/
theorem check {condition : Prop} [Decidable condition] {cause : GraphFault} {next : PUnit → Edit α}
    (passes : ¬ condition) (later : (next ()).Ends graph after because) :
    (if condition then refuse cause >>= next else next ()).Ends graph after because := by
  rwa [if_neg passes]

/-- A check that may not pass stands before the rest of an edit. -/
theorem check_or {condition : Prop} [Decidable condition] {cause : GraphFault}
    {next : PUnit → Edit α} (refused : condition → because (.graph cause) graph)
    (later : ¬ condition → (next ()).Ends graph after because) :
    (if condition then refuse cause >>= next else next ()).Ends graph after because := by
  split
  · next holds =>
    have fails : (refuse cause : Edit PUnit).Ends graph (fun _ _ => False) because := refused holds
    exact fails.bind fun _ _ => False.elim
  · next passes => exact later passes

/-- An edit that may be left out stands before the rest of an edit. -/
theorem optional {condition : Prop} [Decidable condition] {holds : Graph → Prop} {edit : Edit PUnit}
    {next : Edit α} (ends : edit.Ends graph (fun _ => holds) because) (start : holds graph)
    (later : ∀ changed, holds changed → next.Ends changed after because) :
    (if condition then (do edit; next) else next).Ends graph after because := by
  split
  · exact ends.bind fun _ changed kept => later changed kept
  · exact later graph start

/-- What holds of the items that are left and of the graph is kept by every item. -/
theorem forM {items : List α} {edit : α → Edit PUnit} (holds : List α → Graph → Prop)
    (start : holds items graph)
    (each : ∀ item rest graph, holds (item :: rest) graph →
      (edit item).Ends graph (fun _ => holds rest) because) :
    (items.forM edit).Ends graph (fun _ => holds []) because := by
  induction items generalizing graph with
  | nil => exact start
  | cons item rest ih => exact (each item rest graph start).bind fun _ changed kept => ih kept

/-- What holds of the graph is kept by every item. -/
theorem forM_of {items : List α} {edit : α → Edit PUnit} {holds : Graph → Prop} (start : holds graph)
    (each : ∀ item ∈ items, ∀ graph, holds graph → (edit item).Ends graph (fun _ => holds) because) :
    (items.forM edit).Ends graph (fun _ => holds) because := by
  refine (forM (fun rest graph => (∀ item ∈ rest, item ∈ items) ∧ holds graph)
    ⟨fun _ => id, start⟩ fun item rest graph kept => ?_).mono fun _ _ _ => And.right
  obtain ⟨listed, also⟩ := List.forall_mem_cons.1 kept.1
  exact (each item listed graph kept.2).mono fun _ _ _ => And.intro also

/-- A loop fails when one item does so whenever it is reached. -/
theorem forM_fails {items : List α} {edit : α → Edit PUnit} (holds : Graph → Prop)
    (start : holds graph)
    (each : ∀ item ∈ items, ∀ graph, holds graph → (edit item).Ends graph (fun _ => holds) because)
    (fails : ∃ item ∈ items, ∀ graph, holds graph → (edit item).Ends graph (fun _ _ => False) because) :
    (items.forM edit).Ends graph (fun _ _ => False) because := by
  induction items generalizing graph with
  | nil =>
    obtain ⟨item, listed, -⟩ := fails
    cases listed
  | cons first rest ih =>
    obtain ⟨atFirst, atRest⟩ := List.forall_mem_cons.1 each
    obtain ⟨item, listed, fails⟩ := fails
    rcases List.mem_cons.1 listed with rfl | later
    · exact (fails graph start).bind fun _ _ => False.elim
    · exact (atFirst graph start).bind fun _ changed kept => ih kept atRest ⟨item, later, fails⟩

/-- An edit that cannot give a result fails. -/
theorem fails {edit : Edit α} (ends : edit.Ends graph (fun _ _ => False) because) :
    ∃ fault result, edit.apply graph = (.error fault, result) ∧ because fault result := by
  rw [Ends] at ends
  split at ends
  · exact ends.elim
  · next fault result failed => exact ⟨fault, result, failed, ends⟩

theorem countChanges {items : List α} {edit : α → Edit Bool} (holds : List α → Graph → Prop)
    (start : holds items graph)
    (each : ∀ item rest graph, holds (item :: rest) graph →
      (edit item).Ends graph (fun _ => holds rest) because) :
    (countChanges edit items).Ends graph (fun _ => holds []) because := by
  induction items generalizing graph with
  | nil => exact start
  | cons item rest ih =>
    exact (each item rest graph start).bind fun _ changed kept =>
      (ih kept).bind fun _ _ finished => pure finished

end Ends

/-- Edits that change nothing count nothing. -/
theorem yields_countChanges_idle {edit : α → Edit Bool} {items : List α}
    (idle : ∀ item ∈ items, (edit item).Yields graph false graph) :
    (countChanges edit items).Yields graph 0 graph := by
  induction items with
  | nil => exact yields_pure.2 ⟨rfl, rfl⟩
  | cons item rest ih =>
    obtain ⟨atItem, atRest⟩ := List.forall_mem_cons.1 idle
    exact yields_bind.2 ⟨_, _, atItem, yields_bind.2 ⟨_, _, ih atRest, yields_pure.2 ⟨rfl, rfl⟩⟩⟩

/-- The edit gives a result. -/
def Succeeds (edit : Edit α) (graph : Graph) : Prop := ∃ value result, edit.Yields graph value result

theorem Ends.succeeds {edit : Edit α} (after : α → Graph → Prop)
    (ends : edit.Ends graph after fun _ _ => False) : edit.Succeeds graph := by
  rw [Ends] at ends
  split at ends
  · next value result yields => exact ⟨value, result, yields⟩
  · exact ends.elim

theorem Succeeds.ends {edit : Edit α} (succeeds : edit.Succeeds graph)
    (holds : ∀ value result, edit.Yields graph value result → after value result) :
    edit.Ends graph after because := by
  obtain ⟨value, result, yields⟩ := succeeds
  exact .of_yields yields (holds value result yields)

/-! ### Edges -/

theorem succeeds_connect (wellFormed : graph.WellFormed) {source target : PortId}
    (isOutput : ∃ operator ∈ graph.operators, source ∈ operator.outputs.map Port.id)
    (isInput : ∃ operator ∈ graph.operators, target ∈ operator.inputs.map Port.id) :
    (connect source target).Succeeds graph := by
  obtain ⟨producer, isProducer, gives⟩ := isOutput
  obtain ⟨consumer, isConsumer, takes⟩ := isInput
  obtain ⟨start, startFound, -, startSide⟩ := wellFormed.exists_place? isProducer .output gives
  obtain ⟨finish, finishFound, -, finishSide⟩ := wellFormed.exists_place? isConsumer .input takes
  exact ⟨_, _, apply_connect startFound startSide finishFound finishSide⟩

/-- Connecting an output with an input adds an edge. -/
theorem ends_connect (wellFormed : graph.WellFormed) {source target : PortId}
    (isOutput : ∃ operator ∈ graph.operators, source ∈ operator.outputs.map Port.id)
    (isInput : ∃ operator ∈ graph.operators, target ∈ operator.inputs.map Port.id) :
    (connect source target).Ends graph
      (fun _ result => graph.SameButEdges result ∧ result.WellFormed) because := by
  refine (succeeds_connect wellFormed isOutput isInput).ends fun _ result yields => ?_
  obtain ⟨-, -, rfl⟩ := yields_connect yields
  exact ⟨Graph.sameButEdges_link _ _ _, wellFormed.link isOutput isInput⟩

/-- The edges of some items are changed one after the other. -/
theorem ends_forM_edges {items : List α} {edit : α → Edit PUnit} (wellFormed : graph.WellFormed)
    (each : ∀ item ∈ items, ∀ changed : Graph, graph.SameButEdges changed → changed.WellFormed →
      (edit item).Ends changed
        (fun _ result => changed.SameButEdges result ∧ result.WellFormed) because) :
    (items.forM edit).Ends graph
      (fun _ result => graph.SameButEdges result ∧ result.WellFormed) because :=
  Ends.forM_of ⟨.refl graph, wellFormed⟩ fun item listed changed ⟨same, changedWellFormed⟩ =>
    (each item listed changed same changedWellFormed).mono fun _ _ _ ⟨also, stillWellFormed⟩ =>
      ⟨same.trans also, stillWellFormed⟩

theorem ends_disconnect (wellFormed : graph.WellFormed) (source target : PortId) :
    (disconnect source target).Ends graph
      (fun _ result => graph.SameButEdges result ∧ result.WellFormed) because :=
  show graph.SameButEdges (graph.unlink source target) ∧ (graph.unlink source target).WellFormed from
    ⟨Graph.sameButEdges_unlink _ _ _, wellFormed.unlink source target⟩

/-! ### Operators between ports -/

/-- Another graph has the same operators, so it has the same ports. -/
theorem exists_owner (side : PortSide) (same : graph.SameButEdges result) {port : PortId}
    (owned : ∃ operator ∈ graph.operators, port ∈ (operator.portsOn side).map Port.id) :
    ∃ operator ∈ result.operators, port ∈ (operator.portsOn side).map Port.id :=
  same.operators ▸ owned

/-- Edges can be moved from one port to another one. -/
theorem ends_forM_move (wellFormed : graph.WellFormed) {items : List PortId} (old new : PortId → Edge)
    (areOutputs : ∀ item ∈ items, ∃ operator ∈ graph.operators,
      (new item).source ∈ operator.outputs.map Port.id)
    (areInputs : ∀ item ∈ items, ∃ operator ∈ graph.operators,
      (new item).target ∈ operator.inputs.map Port.id) :
    (items.forM fun item => do
      let _ ← disconnect (old item).source (old item).target
      connect (new item).source (new item).target).Ends graph
        (fun _ result => graph.SameButEdges result ∧ result.WellFormed) because := by
  refine ends_forM_edges wellFormed fun item listed changed same changedWellFormed =>
    (ends_disconnect changedWellFormed _ _).bind fun _ cut ⟨also, cutWellFormed⟩ =>
      (ends_connect cutWellFormed ?_ ?_).mono fun _ _ _ ⟨connected, resultWellFormed⟩ =>
        ⟨also.trans connected, resultWellFormed⟩
  · exact exists_owner .output (same.trans also) (areOutputs item listed)
  · exact exists_owner .input (same.trans also) (areInputs item listed)

section Between

variable (graph) {blueprint : Blueprint} (passThrough : blueprint.isPassThrough = true)

include passThrough

/-- The operator that was added last has an input and an output. -/
theorem exists_owner_added :
    (∃ operator ∈ (graph.add blueprint).2.operators,
      graph.nextPort ∈ operator.inputs.map Port.id) ∧
    ∃ operator ∈ (graph.add blueprint).2.operators,
      ⟨graph.nextPort.index + 1⟩ ∈ operator.outputs.map Port.id := by
  obtain ⟨inputs, outputs⟩ := graph.exists_ports_added passThrough
  have isNew : graph.added blueprint ∈ (graph.add blueprint).2.operators :=
    List.mem_append_right _ List.mem_cons_self
  exact ⟨⟨_, isNew, inputs ▸ List.mem_cons_self⟩, _, isNew, outputs ▸ List.mem_cons_self⟩

variable {graph} (wellFormed : graph.WellFormed)

include wellFormed

theorem succeeds_insertBefore {input : PortId}
    (isInput : ∃ operator ∈ graph.operators, input ∈ operator.inputs.map Port.id) :
    (insertBefore input blueprint).Succeeds graph := by
  obtain ⟨owner, isOwner, owned⟩ := isInput
  obtain ⟨place, found, -, side⟩ := wellFormed.exists_place? isOwner .input owned
  obtain ⟨atEntry, atExit⟩ := ports_of_added wellFormed passThrough
  obtain ⟨isEntry, isExit⟩ := exists_owner_added graph passThrough
  have stillOwner : owner ∈ (graph.add blueprint).2.operators := List.mem_append_left _ isOwner
  have producers := (wellFormed.add blueprint).opposites_input stillOwner owned
  refine Ends.succeeds (fun _ _ => True) ?_
  rw [insertBefore, requirePassThrough, if_pos passThrough]
  refine Ends.look_bind (Graph.place_eq_ok.2 found) (Ends.check (not_not.2 side) ?_)
  refine Ends.add_bind (Ends.look_bind atEntry (Ends.look_bind atExit (Ends.get_bind ?_)))
  refine (ends_forM_move (wellFormed.add blueprint) (fun producer => ⟨producer, input⟩)
    (fun producer => ⟨producer, graph.nextPort⟩) (fun producer isProducer => ?_)
    fun _ _ => isEntry).bind fun _ rewired kept => ?_
  · rw [producers, Graph.mem_producers] at isProducer
    exact (wellFormed.add blueprint).sources ⟨producer, input⟩ isProducer
  · obtain ⟨same, rewiredWellFormed⟩ := kept
    exact (ends_connect rewiredWellFormed (exists_owner .output same isExit)
      (exists_owner .input same ⟨owner, stillOwner, owned⟩)).bind fun _ _ _ => trivial

theorem succeeds_insertAfter {output : PortId}
    (isOutput : ∃ operator ∈ graph.operators, output ∈ operator.outputs.map Port.id) :
    (insertAfter output blueprint).Succeeds graph := by
  obtain ⟨owner, isOwner, owned⟩ := isOutput
  obtain ⟨place, found, -, side⟩ := wellFormed.exists_place? isOwner .output owned
  obtain ⟨atEntry, atExit⟩ := ports_of_added wellFormed passThrough
  obtain ⟨isEntry, isExit⟩ := exists_owner_added graph passThrough
  have stillOwner : owner ∈ (graph.add blueprint).2.operators := List.mem_append_left _ isOwner
  have consumers := (wellFormed.add blueprint).opposites_output stillOwner owned
  refine Ends.succeeds (fun _ _ => True) ?_
  rw [insertAfter, requirePassThrough, if_pos passThrough]
  refine Ends.look_bind (Graph.place_eq_ok.2 found) (Ends.check (not_not.2 side) ?_)
  refine Ends.add_bind (Ends.look_bind atEntry (Ends.look_bind atExit (Ends.get_bind ?_)))
  refine (ends_forM_move (wellFormed.add blueprint) (fun consumer => ⟨output, consumer⟩)
    (fun consumer => ⟨⟨graph.nextPort.index + 1⟩, consumer⟩) (fun _ _ => isExit)
    fun consumer isConsumer => ?_).bind fun _ rewired kept => ?_
  · rw [consumers, Graph.mem_consumers] at isConsumer
    exact (wellFormed.add blueprint).targets ⟨output, consumer⟩ isConsumer
  · obtain ⟨same, rewiredWellFormed⟩ := kept
    exact (ends_connect rewiredWellFormed
      (exists_owner .output same ⟨owner, stillOwner, owned⟩)
      (exists_owner .input same isEntry)).bind fun _ _ _ => trivial

end Between

/-! ### Bypassing -/

/-- A port that no operator has is unknown. -/
theorem place_of_unowned {port : PortId}
    (unowned : ∀ operator ∈ graph.operators, port ∉ operator.ports.map Port.id) :
    graph.place port = .error (.unknownPort port) := by
  rw [Graph.place]
  cases found : graph.place? port with
  | none => rfl
  | some place =>
    obtain ⟨isOwner, owned⟩ := Graph.mem_portsOn_of_place? found
    exact absurd (Operator.mem_ports_of_mem_portsOn place.side owned) (unowned _ isOwner)

/-- The edit failed because a port is unknown. -/
def IsUnknownPort (fault : Fault) : Prop := ∃ port, fault = .graph (.unknownPort port)

theorem fails_look {question : Graph → Except GraphFault α} {next : α → Edit β}
    {last : β → Graph → Prop} {cause : GraphFault} (failed : question graph = .error cause)
    (is : because (.graph cause) graph) : (look question >>= next).Ends graph last because := by
  refine Ends.look_bind_or (fun other found => ?_) fun _ found => ?_
  · rw [failed] at found
    exact Except.error.inj found ▸ is
  · rw [failed] at found
    cases found

theorem fails_connect {source target : PortId}
    (unowned : ∀ operator ∈ graph.operators, source ∉ operator.ports.map Port.id)
    (is : ∀ fault, IsUnknownPort fault → because fault graph) {last : Unit → Graph → Prop} :
    (connect source target).Ends graph last because :=
  fails_look (place_of_unowned unowned) (is _ ⟨source, rfl⟩)

/-- An output is connected with an input unless no operator has the input. -/
theorem ends_connect_or (wellFormed : graph.WellFormed) {source target : PortId}
    (isOutput : ∃ operator ∈ graph.operators, source ∈ operator.outputs.map Port.id)
    (isInput : (∃ operator ∈ graph.operators, target ∈ operator.inputs.map Port.id) ∨
      ∀ operator ∈ graph.operators, target ∉ operator.ports.map Port.id)
    (is : ∀ fault, IsUnknownPort fault → because fault graph) :
    (connect source target).Ends graph
      (fun _ result => graph.SameButEdges result ∧ result.WellFormed) because := by
  rcases isInput with owned | unowned
  · exact ends_connect wellFormed isOutput owned
  · obtain ⟨producer, isProducer, gives⟩ := isOutput
    obtain ⟨start, found, -⟩ := wellFormed.exists_place? isProducer .output gives
    exact Ends.look_bind (Graph.place_eq_ok.2 found)
      (fails_look (place_of_unowned unowned) (is _ ⟨target, rfl⟩))

section Bypass

variable (wellFormed : graph.WellFormed) {operator : Operator} {entry exit : PortId}
  (threads : graph.Threads operator entry exit)

include wellFormed threads

/-- Bypassing an operator connects all its producers with all its consumers. -/
theorem ends_bypass_of {last : Unit → Graph → Prop}
    (connects : ((graph.producers entry).forM fun producer =>
      (graph.consumers exit).forM fun consumer => connect producer consumer).Ends
        (graph.without operator) (fun _ => last ()) because) :
    (bypass operator.id).Ends graph last because := by
  have entries := wellFormed.opposites_input threads.member threads.isEntry
  have exits := wellFormed.opposites_output threads.member threads.isExit
  obtain ⟨input, inputs, rfl⟩ := List.map_eq_singleton_iff.1 threads.inputs
  obtain ⟨output, outputs, rfl⟩ := List.map_eq_singleton_iff.1 threads.outputs
  refine Ends.look_bind (wellFormed.operator_eq_ok threads.member) ?_
  rw [inputs, outputs]
  refine Ends.get_bind (Ends.get_bind (Ends.remove_bind wellFormed threads.member ?_))
  rw [entries, exits]
  exact connects

/-- A port that is not removed with an operator is still there. -/
theorem owned_without (side : PortSide) {port : PortId}
    (owned : ∃ other ∈ graph.operators, port ∈ (other.portsOn side).map Port.id)
    (outside : port ∉ (operator.portsOn side).map Port.id) :
    ∃ other ∈ (graph.without operator).operators, port ∈ (other.portsOn side).map Port.id := by
  obtain ⟨other, isThere, owns⟩ := owned
  refine ⟨other, Graph.mem_operators_without.2 ⟨isThere, fun same => outside ?_⟩, owns⟩
  rwa [wellFormed.operator_unique isThere threads.member same] at owns

/-- An operator that does not feed itself can be bypassed. -/
theorem succeeds_bypass (loopless : ⟨exit, entry⟩ ∉ graph.edges) :
    (bypass operator.id).Succeeds graph := by
  refine Ends.succeeds (fun _ _ => True) (ends_bypass_of wellFormed threads ?_)
  refine (ends_forM_edges (wellFormed.without threads.member) fun producer isProducer middle same
    middleWellFormed => ends_forM_edges middleWellFormed fun consumer isConsumer changed also
      changedWellFormed => ends_connect changedWellFormed ?_ ?_).mono fun _ _ _ _ => trivial
  · rw [Graph.mem_producers] at isProducer
    refine exists_owner .output (same.trans also)
      (owned_without wellFormed threads .output (wellFormed.sources _ isProducer) ?_)
    rw [Operator.portsOn, threads.outputs, List.mem_singleton]
    rintro rfl
    exact loopless isProducer
  · rw [Graph.mem_consumers] at isConsumer
    refine exists_owner .input (same.trans also)
      (owned_without wellFormed threads .input (wellFormed.targets _ isConsumer) ?_)
    rw [Operator.portsOn, threads.inputs, List.mem_singleton]
    rintro rfl
    exact loopless isConsumer

/-- An operator that feeds itself cannot be bypassed: its own ports are gone when they are to be
connected. By then the operator is gone as well. -/
theorem fails_bypass (loop : ⟨exit, entry⟩ ∈ graph.edges) :
    (bypass operator.id).Ends graph (fun _ _ => False) fun fault result =>
      IsUnknownPort fault ∧ (graph.without operator).SameButEdges result := by
  have gone : ∀ port ∈ operator.ports.map Port.id, ∀ changed : Graph,
      (graph.without operator).SameButEdges changed →
        ∀ other ∈ changed.operators, port ∉ other.ports.map Port.id :=
    fun port owned changed same other isThere owns =>
      same.not_mem_ports wellFormed threads.member isThere owns owned
  have exitGone := gone exit (Operator.mem_ports_of_mem_portsOn .output threads.isExit)
  have entryGone := gone entry (Operator.mem_ports_of_mem_portsOn .input threads.isEntry)
  refine ends_bypass_of wellFormed threads (Ends.forM_fails
    (fun changed => (graph.without operator).SameButEdges changed ∧ changed.WellFormed)
    ⟨.refl _, wellFormed.without threads.member⟩ ?_ ⟨exit, Graph.mem_producers.2 loop, ?_⟩)
  · rintro producer isProducer middle ⟨same, middleWellFormed⟩
    refine Ends.forM_of ⟨same, middleWellFormed⟩
      fun consumer isConsumer changed ⟨also, changedWellFormed⟩ => ?_
    by_cases atExit : producer = exit
    · exact atExit ▸ fails_connect (exitGone changed also) fun _ unknown => ⟨unknown, also⟩
    · rw [Graph.mem_producers] at isProducer
      rw [Graph.mem_consumers] at isConsumer
      refine (ends_connect_or changedWellFormed ?_ ?_ fun _ unknown => ⟨unknown, also⟩).mono
        fun _ _ _ ⟨more, resultWellFormed⟩ => ⟨also.trans more, resultWellFormed⟩
      · refine exists_owner .output also
          (owned_without wellFormed threads .output (wellFormed.sources _ isProducer) ?_)
        rwa [Operator.portsOn, threads.outputs, List.mem_singleton]
      · by_cases atEntry : consumer = entry
        · exact .inr (atEntry ▸ entryGone changed also)
        · refine .inl (exists_owner .input also
            (owned_without wellFormed threads .input (wellFormed.targets _ isConsumer) ?_))
          rwa [Operator.portsOn, threads.inputs, List.mem_singleton]
  · rintro middle ⟨same, -⟩
    have first : ∃ consumer rest, graph.consumers exit = consumer :: rest :=
      List.exists_cons_of_ne_nil (List.ne_nil_of_mem (Graph.mem_consumers.2 loop))
    obtain ⟨consumer, rest, listed⟩ := first
    rw [listed]
    exact (fails_connect (exitGone middle same) fun _ unknown => ⟨unknown, same⟩).bind
      fun _ _ => False.elim

end Bypass

/-! ### Rebuilding -/

/-- Ports get the edges of other ports on the same side. -/
theorem ends_forM_mirror (wellFormed : graph.WellFormed) {side : PortSide} {pairs : List (Port × Port)}
    (olds : ∀ pair ∈ pairs, ∃ operator ∈ graph.operators,
      pair.1.id ∈ (operator.portsOn side).map Port.id)
    (news : ∀ pair ∈ pairs, ∃ operator ∈ graph.operators,
      pair.2.id ∈ (operator.portsOn side).map Port.id) :
    (pairs.forM (mirror side)).Ends graph
      (fun _ result => graph.SameButEdges result ∧ result.WellFormed) because := by
  refine ends_forM_edges wellFormed fun pair listed middle same middleWellFormed => Ends.get_bind ?_
  obtain ⟨owner, isOwner, owned⟩ := exists_owner _ same (olds pair listed)
  refine ends_forM_edges middleWellFormed fun opposite isOpposite changed also changedWellFormed => ?_
  rw [middleWellFormed.mem_opposites side isOwner owned] at isOpposite
  have isNew := exists_owner _ (same.trans also) (news pair listed)
  cases side with
  | input =>
    exact ends_connect changedWellFormed
      (exists_owner .output also (middleWellFormed.sources ⟨opposite, pair.1.id⟩ isOpposite)) isNew
  | output =>
    exact ends_connect changedWellFormed isNew
      (exists_owner .input also (middleWellFormed.targets ⟨pair.1.id, opposite⟩ isOpposite))

/-- A change that keeps the number of ports can be made. -/
theorem succeeds_rebuild (wellFormed : graph.WellFormed) {old : Operator} (member : old ∈ graph.operators)
    {change : Blueprint → Blueprint}
    (inputs : (change old.blueprint).inputs.length = old.inputs.length)
    (outputs : (change old.blueprint).outputs.length = old.outputs.length) :
    (rebuild old.id change).Succeeds graph := by
  have addedWellFormed := wellFormed.add (change old.blueprint)
  have stillOld : old ∈ (graph.add (change old.blueprint)).2.operators := List.mem_append_left _ member
  have isNew : graph.added (change old.blueprint) ∈ (graph.add (change old.blueprint)).2.operators :=
    List.mem_append_right _ List.mem_cons_self
  have mirrors : ∀ side : PortSide, ∀ middle : Graph,
      (graph.add (change old.blueprint)).2.SameButEdges middle → middle.WellFormed →
        (((old.portsOn side).zip ((graph.added (change old.blueprint)).portsOn side)).forM
          (mirror side)).Ends middle
            (fun _ result => middle.SameButEdges result ∧ result.WellFormed) fun _ _ => False := by
    intro side middle same middleWellFormed
    exact ends_forM_mirror middleWellFormed
      (fun pair listed => exists_owner _ same
        ⟨old, stillOld, List.mem_map_of_mem (List.of_mem_zip listed).1⟩)
      fun pair listed => exists_owner _ same
        ⟨_, isNew, List.mem_map_of_mem (List.of_mem_zip listed).2⟩
  refine Ends.succeeds (fun _ _ => True) ?_
  refine Ends.look_bind (wellFormed.operator_eq_ok member) (Ends.check ?_ ?_)
  · simp only [inputs, outputs, ne_eq, not_true_eq_false, decide_false, Bool.or_false,
      Bool.false_eq_true, not_false_eq_true]
  · refine Ends.add_bind (Ends.look_bind (addedWellFormed.operator_eq_ok isNew) ?_)
    refine (mirrors .input _ (.refl _) addedWellFormed).bind fun _ fed ⟨same, fedWellFormed⟩ =>
      (mirrors .output fed same fedWellFormed).bind fun _ reading ⟨also, readingWellFormed⟩ => ?_
    exact Ends.remove_bind readingWellFormed
      (by rw [also.operators, same.operators]; exact stillOld) trivial

end Edit

end StagePlanner
