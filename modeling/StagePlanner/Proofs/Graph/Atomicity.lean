import StagePlanner.Graph.Edit
import StagePlanner.Proofs.Graph.Completion

/-!
# What failed edits leave

An edit looks at its arguments before it changes anything, and once it has accepted them it gives a
result, so a call that fails leaves the graph as it was. There is one exception: a bypass accepts an
operator that feeds itself, removes it, and then fails to connect the ports that are gone.
-/

namespace StagePlanner

variable {graph : Graph}

namespace Edit

variable {α β : Type}

/-- Whenever the edit fails at the graph, the graph is as before. -/
abbrev Atomic (edit : Edit α) (graph : Graph) : Prop :=
  edit.Ends graph (fun _ _ => True) fun _ result => result = graph

theorem Atomic.unchanged {edit : Edit α} (atomic : edit.Atomic graph) {fault : Fault} {result : Graph}
    (failed : edit.apply graph = (.error fault, result)) : result = graph := by
  rwa [Atomic, Ends, failed] at atomic

/-- What is made of the result of an edit does not matter. -/
theorem Atomic.map {edit : Edit α} (atomic : edit.Atomic graph) (answer : α → β) :
    (edit >>= fun value => pure (answer value)).Atomic graph :=
  Ends.bind atomic fun _ _ _ => Ends.pure trivial

theorem Succeeds.atomic {edit : Edit α} (succeeds : edit.Succeeds graph) : edit.Atomic graph :=
  succeeds.ends fun _ _ _ => trivial

theorem atomic_remove (id : OperatorId) : (remove id).Atomic graph :=
  Ends.look_bind_or (fun _ _ => rfl) fun _ _ => Ends.of_yields rfl trivial

theorem atomic_connect (source target : PortId) : (connect source target).Atomic graph :=
  Ends.look_bind_or (fun _ _ => rfl) fun _ _ => Ends.look_bind_or (fun _ _ => rfl) fun _ _ =>
    Ends.check_or (fun _ => rfl) fun _ => Ends.of_yields rfl trivial

variable (wellFormed : graph.WellFormed)

include wellFormed

theorem atomic_insertBefore (input : PortId) (blueprint : Blueprint) :
    (insertBefore input blueprint).Atomic graph := by
  by_cases passThrough : blueprint.isPassThrough = true
  · by_cases isInput : ∃ operator ∈ graph.operators, input ∈ operator.inputs.map Port.id
    · exact (succeeds_insertBefore passThrough wellFormed isInput).atomic
    · rw [insertBefore, requirePassThrough, if_pos passThrough]
      refine Ends.look_bind_or (fun _ _ => rfl) fun place found =>
        Ends.check_or (fun _ => rfl) fun side => absurd ?_ isInput
      obtain ⟨member, owned⟩ := Graph.mem_portsOn_of_place? (Graph.place_eq_ok.1 found)
      exact ⟨place.owner, member, by rwa [not_not.1 side] at owned⟩
  · rw [insertBefore, requirePassThrough, if_neg passThrough]
    exact Ends.fail rfl

theorem atomic_insertAfter (output : PortId) (blueprint : Blueprint) :
    (insertAfter output blueprint).Atomic graph := by
  by_cases passThrough : blueprint.isPassThrough = true
  · by_cases isOutput : ∃ operator ∈ graph.operators, output ∈ operator.outputs.map Port.id
    · exact (succeeds_insertAfter passThrough wellFormed isOutput).atomic
    · rw [insertAfter, requirePassThrough, if_pos passThrough]
      refine Ends.look_bind_or (fun _ _ => rfl) fun place found =>
        Ends.check_or (fun _ => rfl) fun side => absurd ?_ isOutput
      obtain ⟨member, owned⟩ := Graph.mem_portsOn_of_place? (Graph.place_eq_ok.1 found)
      exact ⟨place.owner, member, by rwa [not_not.1 side] at owned⟩
  · rw [insertAfter, requirePassThrough, if_neg passThrough]
    exact Ends.fail rfl

theorem atomic_rebuild (id : OperatorId) (change : Blueprint → Blueprint) :
    (rebuild id change).Atomic graph := by
  cases found : graph.operator id with
  | error cause => exact fails_look found rfl
  | ok old =>
    obtain ⟨member, rfl⟩ := Graph.mem_of_operator found
    by_cases kept : (change old.blueprint).inputs.length = old.inputs.length ∧
        (change old.blueprint).outputs.length = old.outputs.length
    · exact (succeeds_rebuild wellFormed member kept.1 kept.2).atomic
    · refine Ends.look_bind found (Ends.check_or (fun _ => rfl) fun passes => absurd ?_ kept)
      simpa using passes

/-- A bypass may fail after it has begun only at an operator that feeds itself. -/
theorem atomic_bypass (id : OperatorId)
    (loopless : ∀ operator entry exit, operator.id = id → graph.Threads operator entry exit →
      ⟨exit, entry⟩ ∉ graph.edges) : (bypass id).Atomic graph := by
  cases found : graph.operator id with
  | error cause => exact fails_look found rfl
  | ok operator =>
    obtain ⟨member, rfl⟩ := Graph.mem_of_operator found
    by_cases slender : ∃ input output, operator.inputs = [input] ∧ operator.outputs = [output]
    · obtain ⟨input, output, inputs, outputs⟩ := slender
      have threads : graph.Threads operator input.id output.id :=
        ⟨member, by rw [inputs]; rfl, by rw [outputs]; rfl⟩
      exact (succeeds_bypass wellFormed threads (loopless operator _ _ rfl threads)).atomic
    · refine Ends.look_bind found ?_
      split
      · next input output inputs outputs => exact absurd ⟨input, output, inputs, outputs⟩ slender
      · exact Ends.fail rfl

end Edit

/-- The call asks to bypass an operator that feeds itself. -/
def EditCall.BypassesLoop (call : EditCall) (graph : Graph) : Prop :=
  ∃ operator entry exit, call = .bypass operator.id ∧ graph.Threads operator entry exit ∧
    ⟨exit, entry⟩ ∈ graph.edges

/-- Every call is answered or leaves the graph as it was, unless it bypasses an operator that feeds
itself. -/
theorem EditCall.atomic (wellFormed : graph.WellFormed) {call : EditCall}
    (loopless : ¬ call.BypassesLoop graph) : call.edit.Atomic graph := by
  cases call with
  | add blueprint => exact Edit.Ends.of_yields rfl trivial
  | remove id => exact (Edit.atomic_remove id).map _
  | connect source target => exact (Edit.atomic_connect source target).map _
  | disconnect source target => exact Edit.Ends.of_yields rfl trivial
  | disconnectAll port => exact Edit.Ends.of_yields rfl trivial
  | insertBefore input blueprint => exact (Edit.atomic_insertBefore wellFormed input blueprint).map _
  | insertAfter output blueprint => exact (Edit.atomic_insertAfter wellFormed output blueprint).map _
  | bypass id =>
    refine (Edit.atomic_bypass wellFormed id fun operator entry exit same threads loop => ?_).map _
    exact loopless ⟨operator, entry, exit, by rw [same], threads, loop⟩
  | rebuild id change => exact (Edit.atomic_rebuild wellFormed id change).map _

/-- A call that bypasses an operator that feeds itself fails, and the operator is gone. -/
theorem EditCall.fails_of_bypassesLoop (wellFormed : graph.WellFormed) {call : EditCall}
    (bypasses : call.BypassesLoop graph) :
    ∃ id port result, call = .bypass id ∧ graph.contains id = true ∧
      call.edit.apply graph = (.error (.graph (.unknownPort port)), result) ∧
      result.operators = graph.operators.filter fun operator => operator.id ≠ id := by
  obtain ⟨operator, entry, exit, rfl, threads, loop⟩ := bypasses
  have fails : (EditCall.edit (.bypass operator.id)).Ends graph (fun _ _ => False) fun fault result =>
      Edit.IsUnknownPort fault ∧ (graph.without operator).SameButEdges result :=
    (Edit.fails_bypass wellFormed threads loop).bind fun _ _ => False.elim
  obtain ⟨fault, result, failed, ⟨port, rfl⟩, same⟩ := fails.fails
  refine ⟨operator.id, port, result, rfl, ?_, failed, same.operators⟩
  rw [Graph.contains, wellFormed.operator?_eq_some_iff.2 ⟨threads.member, rfl⟩]
  rfl

/-- A call of an edit that fails leaves the whole graph as it was, operators, ports, edges and the
identifiers to come, except that a bypass of an operator that feeds itself fails at an unknown port
when the operator is already gone. -/
theorem EditCall.failure_leaves (wellFormed : graph.WellFormed) (call : EditCall) :
    (¬ call.BypassesLoop graph → ∀ fault result,
      call.edit.apply graph = (.error fault, result) → result = graph) ∧
    (call.BypassesLoop graph → ∃ id port result, call = .bypass id ∧ graph.contains id = true ∧
      call.edit.apply graph = (.error (.graph (.unknownPort port)), result) ∧
      result.operators = graph.operators.filter fun operator => operator.id ≠ id) :=
  ⟨fun loopless _ _ failed => (EditCall.atomic wellFormed loopless).unchanged failed,
    EditCall.fails_of_bypassesLoop wellFormed⟩

/-- A projection that passes rows to itself and nowhere else. -/
def Graph.loopSample : Graph :=
  ((Graph.empty.add (.core .project (.named "t"))).2).link ⟨1⟩ ⟨0⟩

theorem Graph.wellFormed_loopSample : Graph.loopSample.WellFormed :=
  ((Graph.wellFormed_of_no_operators rfl rfl : Graph.empty.WellFormed).add _).link
    (by decide) (by decide)

/-- The projection of the sample cannot be bypassed and is gone afterwards, while a bypass of an
operator that is not there changes nothing. -/
theorem EditCall.failure_leaves_loopSample :
    (∃ id port result, EditCall.bypass ⟨0⟩ = .bypass id ∧ Graph.loopSample.contains id = true ∧
      (EditCall.edit (.bypass ⟨0⟩)).apply Graph.loopSample =
        (.error (.graph (.unknownPort port)), result) ∧
      result.operators = Graph.loopSample.operators.filter fun operator => operator.id ≠ id) ∧
    ∀ fault result, (EditCall.edit (.bypass ⟨1⟩)).apply Graph.loopSample = (.error fault, result) →
      result = Graph.loopSample := by
  refine ⟨(failure_leaves Graph.wellFormed_loopSample _).2
    ⟨Graph.added .empty (.core .project (.named "t")), ⟨0⟩, ⟨1⟩, rfl, ⟨?_, rfl, rfl⟩, ?_⟩,
    (failure_leaves Graph.wellFormed_loopSample _).1 ?_⟩
  · exact List.mem_singleton_self _
  · decide
  · rintro ⟨operator, entry, exit, same, threads, -⟩
    rw [List.mem_singleton.1 threads.member] at same
    cases same

/-- A failed edit of a well-formed graph may change it. -/
theorem EditCall.not_failure_unchanged : ¬ ∀ (graph : Graph) (call : EditCall) (fault : Fault)
    (result : Graph), graph.WellFormed → call.edit.apply graph = (.error fault, result) →
      result = graph := by
  intro unchanged
  have failed : (EditCall.edit (.bypass ⟨0⟩)).apply Graph.loopSample =
      (.error (.graph (.unknownPort ⟨1⟩)), { nextOperator := ⟨1⟩, nextPort := ⟨2⟩, nextSerial := ⟨1⟩ }) :=
    rfl
  have same := unchanged _ _ _ _ Graph.wellFormed_loopSample failed
  have emptied : (0 : Nat) = 1 := congrArg Graph.size same
  cases emptied

end StagePlanner
