import StagePlanner.Proofs.Route.Shortening
import StagePlanner.Proofs.Simplification.Fixpoint

/-!
# Simplification shortens paths

Every pass of the standard simplifier takes the ports of the relays that it drops off the paths through
relays (`Graph.Distils`): a bypass joins what feeds the relay with what it feeds, and an operator with
a path to one that stays leads out and is not removed with dead flow. Since an edge that is already
there is not added again, two paths become one when they differ in dropped relays only
(`Edit.optimize_shortens_paths`).
-/

namespace StagePlanner

open Relation

/-- The operator is a relay. -/
abbrev Operator.Relays (operator : Operator) : Prop := operator.isRelay = true

/-- The operator is neither a relay nor attached to close a graph. -/
structure Operator.Stands (operator : Operator) : Prop where
  notRelay : operator.isRelay = false
  notTerminator : ¬ operator.IsTerminator

namespace Graph

variable {graph middle result : Graph}

/-- A way from a port to another one along edges and through relays. -/
abbrev RelayPath (graph : Graph) (source target : PortId) : Type :=
  Route (graph.Conducts Operator.Relays) (fun port => port = target) source

/-- The operator is no relay, and it is in both graphs. -/
def Spares (graph result : Graph) (operator : Operator) : Prop :=
  operator ∈ graph.operators ∧ operator ∈ result.operators ∧ operator.isRelay = false

instance (graph result : Graph) (operator : Operator) : Decidable (graph.Spares result operator) :=
  inferInstanceAs (Decidable (_ ∧ _ ∧ _))

/-- The port belongs to an operator that another graph has as well. -/
def keepsPort (graph result : Graph) (port : PortId) : Bool :=
  graph.operators.any fun operator =>
    decide (operator ∈ result.operators ∧ ∃ own ∈ operator.ports, own.id = port)

theorem WellFormed.keepsPort_eq (wellFormed : graph.WellFormed) {operator : Operator}
    (member : operator ∈ graph.operators) {port : PortId} (owns : port ∈ operator.ports.map Port.id) :
    graph.keepsPort result port = decide (operator ∈ result.operators) := by
  rw [Bool.eq_iff_iff, keepsPort, List.any_eq_true, decide_eq_true_iff]
  constructor
  · rintro ⟨other, isThere, stays⟩
    obtain ⟨stays, alsoOwns⟩ := of_decide_eq_true stays
    exact wellFormed.owner_unique isThere member (List.mem_map.2 alsoOwns) owns ▸ stays
  · exact fun stays => ⟨operator, member, decide_eq_true ⟨stays, List.mem_map.1 owns⟩⟩

section Owners

variable (wellFormed : graph.WellFormed) {producer consumer : Operator} {output input : PortId}

include wellFormed

/-- On a path there are the ports of relays, besides its ends. -/
theorem WellFormed.exists_owner_on_path (isProducer : producer ∈ graph.operators)
    (isConsumer : consumer ∈ graph.operators) (gives : output ∈ producer.outputs.map Port.id)
    (takes : input ∈ consumer.inputs.map Port.id) (path : graph.RelayPath output input) :
    ∀ port ∈ path.trace, ∃ operator ∈ graph.operators, port ∈ operator.ports.map Port.id ∧
      (operator.isRelay = true ∨ operator = producer ∨ operator = consumer) := by
  have start : ∃ operator ∈ graph.operators, output ∈ operator.ports.map Port.id ∧
      (operator.isRelay = true ∨ operator = producer ∨ operator = consumer) :=
    ⟨producer, isProducer, Operator.mem_ports_of_mem_portsOn .output gives, .inr (.inl rfl)⟩
  clear gives
  induction path with
  | stop => exact List.forall_mem_singleton.2 start
  | @go port next first rest ih =>
    refine List.forall_mem_cons.2 ⟨start, ih ?_⟩
    rcases first with isEdge | ⟨relay, member, isRelay, -, isOutput⟩
    · -- An edge ends at an input, so the path ends there or goes on through a relay.
      obtain ⟨operator, member, isInput⟩ := wellFormed.targets _ isEdge
      refine ⟨operator, member, Operator.mem_ports_of_mem_portsOn .input isInput, ?_⟩
      cases rest with
      | stop reached =>
        obtain rfl := reached
        exact .inr (.inr (wellFormed.owner_unique member isConsumer
          (Operator.mem_ports_of_mem_portsOn .input isInput)
          (Operator.mem_ports_of_mem_portsOn .input takes)))
      | go second _ =>
        rcases second with onward | ⟨relay, isThere, isRelay, owned, -⟩
        · obtain ⟨other, isOther, isOutput⟩ := wellFormed.sources _ onward
          exact absurd rfl (wellFormed.output_ne_input isOther member isOutput isInput)
        · rw [wellFormed.owner_unique member isThere (Operator.mem_ports_of_mem_portsOn .input isInput)
            (Operator.mem_ports_of_mem_portsOn .input owned)]
          exact .inl isRelay
    · exact ⟨relay, member, Operator.mem_ports_of_mem_portsOn .output isOutput, .inl isRelay⟩

/-- Between operators that stand there are no terminators. -/
theorem WellFormed.not_isTerminator_on_path (isProducer : producer ∈ graph.operators)
    (isConsumer : consumer ∈ graph.operators) (gives : output ∈ producer.outputs.map Port.id)
    (takes : input ∈ consumer.inputs.map Port.id) (stands : producer.Stands)
    (alsoStands : consumer.Stands) (path : graph.RelayPath output input) :
    ∀ port ∈ path.trace, ∃ operator ∈ graph.operators, port ∈ operator.ports.map Port.id ∧
      ¬ operator.IsTerminator := by
  intro port isThere
  obtain ⟨operator, member, owns, kind⟩ :=
    wellFormed.exists_owner_on_path isProducer isConsumer gives takes path port isThere
  refine ⟨operator, member, owns, fun isTerminator => ?_⟩
  rcases kind with isRelay | rfl | rfl
  · rw [Operator.not_isRelay_of_isTerminator isTerminator] at isRelay
    cases isRelay
  · exact stands.notTerminator isTerminator
  · exact alsoStands.notTerminator isTerminator

end Owners

/-! ### Dropping relays -/

/-- Paths between operators that stand are the ones from before without the ports that are gone, and
no operator is new but terminators. -/
structure Distils (graph result : Graph) : Prop where
  old : ∀ operator ∈ result.operators, operator ∈ graph.operators ∨ operator.IsTerminator
  paths : ∀ {producer consumer : Operator} {output input : PortId}, producer ∈ result.operators →
    consumer ∈ result.operators → output ∈ producer.outputs.map Port.id →
      input ∈ consumer.inputs.map Port.id → producer.Stands → consumer.Stands →
        Route.Shortens (graph.keepsPort result) (graph.Conducts Operator.Relays)
          (result.Conducts Operator.Relays) (fun port => port = input) output

namespace Distils

theorem mem_of_stands (distils : graph.Distils result) {operator : Operator}
    (member : operator ∈ result.operators) (stands : operator.Stands) : operator ∈ graph.operators :=
  (distils.old operator member).resolve_right stands.notTerminator

theorem refl (wellFormed : graph.WellFormed) : graph.Distils graph where
  old _ := .inl
  paths {_ _ _ _} isProducer isConsumer gives takes stands alsoStands :=
    (Route.shortens_of_shared (fun _ _ _ _ _ => id) fun _ _ _ _ _ => id).congr
      fun path port isThere => by
        obtain ⟨operator, member, owns, -⟩ := wellFormed.not_isTerminator_on_path isProducer isConsumer
          gives takes stands alsoStands path port isThere
        rw [wellFormed.keepsPort_eq member owns, decide_eq_true member]

theorem trans (first : graph.Distils middle) (second : middle.Distils result)
    (wellFormed : graph.WellFormed) (middleWellFormed : middle.WellFormed) : graph.Distils result where
  old operator member := (second.old operator member).elim (first.old operator) .inr
  paths {_ _ _ _} isProducer isConsumer gives takes stands alsoStands := by
    have producerBefore := second.mem_of_stands isProducer stands
    have consumerBefore := second.mem_of_stands isConsumer alsoStands
    refine ((first.paths producerBefore consumerBefore gives takes stands alsoStands).trans
      (second.paths isProducer isConsumer gives takes stands alsoStands)).congr fun path port isThere => ?_
    obtain ⟨operator, member, owns, notTerminator⟩ := wellFormed.not_isTerminator_on_path
      (first.mem_of_stands producerBefore stands) (first.mem_of_stands consumerBefore alsoStands)
      gives takes stands alsoStands path port isThere
    rw [wellFormed.keepsPort_eq member owns, wellFormed.keepsPort_eq member owns]
    by_cases stays : operator ∈ middle.operators
    · rw [middleWellFormed.keepsPort_eq stays owns, decide_eq_true stays, Bool.and_true]
    · have gone : operator ∉ result.operators := fun isThere =>
        (second.old operator isThere).elim stays notTerminator
      rw [decide_eq_false stays, decide_eq_false gone, Bool.and_false]

end Distils

/-! ### A bypass -/

section Bypass

variable {operator : Operator} {entry exit source target : PortId} (wellFormed : graph.WellFormed)
  (threads : graph.Threads operator entry exit)

include wellFormed threads

theorem Threads.eq_of_owns {other : Operator} (member : other ∈ graph.operators) {port : PortId}
    (owns : port ∈ other.ports.map Port.id) (own : port = entry ∨ port = exit) : other = operator := by
  refine wellFormed.owner_unique member threads.member owns ?_
  rw [threads.ports]
  exact List.mem_pair.2 own

theorem Threads.apart_of_owns {other : Operator} (member : other ∈ graph.operators)
    (differs : other.id ≠ operator.id) {port : PortId} (owns : port ∈ other.ports.map Port.id) :
    port ≠ entry ∧ port ≠ exit :=
  not_or.1 fun own => differs (congrArg Operator.id (threads.eq_of_owns wellFormed member owns own))

theorem Threads.conducts_to_entry :
    graph.Conducts Operator.Relays source entry ↔ ⟨source, entry⟩ ∈ graph.edges := by
  refine or_iff_left ?_
  rintro ⟨other, isThere, -, -, isOutput⟩
  exact wellFormed.output_ne_input isThere threads.member isOutput threads.isEntry rfl

theorem Threads.conducts_from_exit :
    graph.Conducts Operator.Relays exit target ↔ ⟨exit, target⟩ ∈ graph.edges := by
  refine or_iff_left ?_
  rintro ⟨other, isThere, -, isInput, -⟩
  exact wellFormed.output_ne_input threads.member isThere threads.isExit isInput rfl

variable (relays : operator.Relays)

include relays

theorem Threads.conducts_to_exit : graph.Conducts Operator.Relays source exit ↔ source = entry := by
  constructor
  · rintro (isEdge | ⟨other, isThere, -, isInput, isOutput⟩)
    · exact absurd rfl (threads.apart_of_edge wellFormed isEdge).2
    · obtain rfl := threads.eq_of_owns wellFormed isThere
        (Operator.mem_ports_of_mem_portsOn .output isOutput) (.inr rfl)
      rw [threads.inputs] at isInput
      exact List.mem_singleton.1 isInput
  · rintro rfl
    exact .inr ⟨operator, threads.member, relays, threads.isEntry, threads.isExit⟩

theorem Threads.conducts_from_entry : graph.Conducts Operator.Relays entry target ↔ target = exit := by
  constructor
  · rintro (isEdge | ⟨other, isThere, -, isInput, isOutput⟩)
    · exact absurd rfl (threads.apart_of_edge wellFormed isEdge).1
    · obtain rfl := threads.eq_of_owns wellFormed isThere
        (Operator.mem_ports_of_mem_portsOn .input isInput) (.inl rfl)
      rw [threads.outputs] at isOutput
      exact List.mem_singleton.1 isOutput
  · rintro rfl
    exact (threads.conducts_to_exit wellFormed relays).2 rfl

variable (loopless : ⟨exit, entry⟩ ∉ graph.edges)

include loopless

/-- What is conducted past a relay: what was, away from its ports, and what it passed on. -/
theorem Threads.past_iff : Past (Past (graph.Conducts Operator.Relays) entry) exit source target ↔
    (source ≠ entry ∧ source ≠ exit) ∧ (target ≠ entry ∧ target ≠ exit) ∧
      (graph.Conducts Operator.Relays source target ∨
        ⟨source, entry⟩ ∈ graph.edges ∧ ⟨exit, target⟩ ∈ graph.edges) := by
  have differ : exit ≠ entry :=
    wellFormed.output_ne_input threads.member threads.member threads.isExit threads.isEntry
  simp only [Past, threads.conducts_to_entry wellFormed, threads.conducts_from_exit wellFormed,
    threads.conducts_to_exit wellFormed relays, threads.conducts_from_entry wellFormed relays]
  tauto

/-- Past a relay that is bypassed data are conducted as they were through it. -/
theorem Threads.conducts_bypassed
    (operators : ∀ other, other ∈ result.operators ↔
      other ∈ graph.operators ∧ other.id ≠ operator.id)
    (edges : ∀ source target, ⟨source, target⟩ ∈ result.edges ↔
      ⟨source, target⟩ ∈ (graph.without operator).edges ∨
        ⟨source, entry⟩ ∈ graph.edges ∧ ⟨exit, target⟩ ∈ graph.edges) :
    result.Conducts Operator.Relays = Past (Past (graph.Conducts Operator.Relays) entry) exit := by
  have owned : ∀ {port}, port ∉ operator.ports.map Port.id ↔ port ≠ entry ∧ port ≠ exit := by
    intro port
    rw [threads.ports, List.mem_pair, not_or]
  funext source target
  rw [threads.past_iff wellFormed relays loopless]
  refine propext ⟨?_, ?_⟩
  · rintro (isEdge | ⟨other, isThere, alsoRelays, isInput, isOutput⟩)
    · rcases (edges source target).1 isEdge with kept | ⟨before, after⟩
      · obtain ⟨old, notSource, notTarget⟩ := mem_edges_without.1 kept
        exact ⟨owned.1 notSource, owned.1 notTarget, .inl (.inl old)⟩
      · refine ⟨⟨(threads.apart_of_edge wellFormed before).1, ?_⟩,
          ⟨?_, (threads.apart_of_edge wellFormed after).2⟩, .inr ⟨before, after⟩⟩
        · rintro rfl
          exact loopless before
        · rintro rfl
          exact loopless after
    · obtain ⟨member, differs⟩ := (operators other).1 isThere
      exact ⟨threads.apart_of_owns wellFormed member differs
          (Operator.mem_ports_of_mem_portsOn .input isInput),
        threads.apart_of_owns wellFormed member differs
          (Operator.mem_ports_of_mem_portsOn .output isOutput),
        .inl (.inr ⟨other, member, alsoRelays, isInput, isOutput⟩)⟩
  · rintro ⟨notSource, notTarget, (isEdge | ⟨other, isThere, alsoRelays, isInput, isOutput⟩) | joined⟩
    · exact .inl ((edges source target).2
        (.inl (mem_edges_without.2 ⟨isEdge, owned.2 notSource, owned.2 notTarget⟩)))
    · refine .inr ⟨other, (operators other).2 ⟨isThere, fun same => notSource.1 ?_⟩, alsoRelays, isInput,
        isOutput⟩
      rw [wellFormed.operator_unique isThere threads.member same, threads.inputs] at isInput
      exact List.mem_singleton.1 isInput
    · exact .inl ((edges source target).2 (.inr joined))

/-- Past a relay, that is past its input and then past its output, paths are shortened. -/
theorem Threads.shortens_past (notSource : source ≠ entry ∧ source ≠ exit)
    (notTarget : target ≠ entry ∧ target ≠ exit) :
    Route.Shortens (fun port => decide (port ≠ exit) && decide (port ≠ entry))
      (graph.Conducts Operator.Relays) (Past (Past (graph.Conducts Operator.Relays) entry) exit)
      (fun port => port = target) source := by
  have differ : exit ≠ entry :=
    wellFormed.output_ne_input threads.member threads.member threads.isExit threads.isEntry
  have pastEntry : Route.Shortens (fun port => decide (port ≠ entry)) (graph.Conducts Operator.Relays)
      (Past (graph.Conducts Operator.Relays) entry) (fun port => port = target) source :=
    Route.shortens_past (fun loop => differ ((threads.conducts_from_entry wellFormed relays).1 loop).symm)
      notTarget.1.symm notSource.1
  have pastExit : Route.Shortens (fun port => decide (port ≠ exit))
      (Past (graph.Conducts Operator.Relays) entry)
      (Past (Past (graph.Conducts Operator.Relays) entry) exit) (fun port => port = target) source := by
    refine Route.shortens_past ?_ notTarget.2.symm notSource.2
    rintro ⟨-, -, loop | ⟨loop, -⟩⟩
    · exact differ ((threads.conducts_to_exit wellFormed relays).1 loop)
    · exact loopless ((threads.conducts_from_exit wellFormed).1 loop)
  exact pastEntry.trans pastExit

end Bypass

/-- A bypass takes the ports of a relay off all paths. -/
theorem distils_bypass (reducible : graph.Reducible) {operator : Operator}
    (member : operator ∈ graph.operators) (relays : operator.Relays) {done : Unit}
    (bypassed : (Edit.bypass operator.id).Yields graph done result) : graph.Distils result := by
  have wellFormed := reducible.framed.wellFormed
  have left := mem_operators_of_bypass wellFormed bypassed
  obtain ⟨found, entry, exit, same, threads, -, edges⟩ := Edit.yields_bypass wellFormed bypassed
  obtain rfl := wellFormed.operator_unique threads.member member same
  have loopless := threads.loopless reducible.acyclic
  have conducts := threads.conducts_bypassed wellFormed relays loopless left edges
  refine ⟨fun other isThere => .inl ((left other).1 isThere).1, ?_⟩
  intro producer consumer output input isProducer isConsumer gives takes stands alsoStands
  obtain ⟨oldProducer, producerDiffers⟩ := (left producer).1 isProducer
  obtain ⟨oldConsumer, consumerDiffers⟩ := (left consumer).1 isConsumer
  have outputApart := threads.apart_of_owns wellFormed oldProducer producerDiffers
    (Operator.mem_ports_of_mem_portsOn .output gives)
  have inputApart := threads.apart_of_owns wellFormed oldConsumer consumerDiffers
    (Operator.mem_ports_of_mem_portsOn .input takes)
  rw [conducts]
  refine (threads.shortens_past wellFormed relays loopless outputApart inputApart).congr
    fun path port isThere => ?_
  obtain ⟨other, isOther, owns, -⟩ := wellFormed.exists_owner_on_path oldProducer oldConsumer gives takes
    path port isThere
  rw [wellFormed.keepsPort_eq isOther owns, ← Bool.decide_and, decide_eq_decide, left,
    and_iff_right isOther]
  constructor
  · rintro ⟨notExit, notEntry⟩ same
    rw [wellFormed.operator_unique isOther threads.member same, threads.ports, List.mem_pair] at owns
    exact owns.elim notEntry notExit
  · exact fun differs => (threads.apart_of_owns wellFormed isOther differs owns).symm

/-! ### Dead flow -/

/-- What is on a path to an operator that leads out does, too. -/
theorem leadsOut_on_path (wellFormed : graph.WellFormed) {consumer : Operator} {output input : PortId}
    (isConsumer : consumer ∈ graph.operators) (takes : input ∈ consumer.inputs.map Port.id)
    (leadsOut : graph.LeadsOut consumer.id) (path : graph.RelayPath output input) :
    ∀ port ∈ path.trace, ∃ operator ∈ graph.operators, port ∈ operator.ports.map Port.id ∧
      graph.LeadsOut operator.id := by
  refine path.forall_mem_trace ?_ ?_
  · rintro _ rfl
    exact ⟨consumer, isConsumer, Operator.mem_ports_of_mem_portsOn .input takes, leadsOut⟩
  · rintro port next (isEdge | ⟨relay, member, -, isInput, isOutput⟩) ⟨operator, isThere, owns, leads⟩
    · obtain ⟨producer, isProducer, isOutput⟩ := wellFormed.sources _ isEdge
      have isInput := wellFormed.mem_portsOn_of_edge .input isThere owns isEdge
      exact ⟨producer, isProducer, Operator.mem_ports_of_mem_portsOn .output isOutput,
        leads.of_way (.single (feeds_iff_exists_edge.2 ⟨port, next, isEdge,
          ⟨producer, isProducer, rfl, isOutput⟩, operator, isThere, rfl, isInput⟩))⟩
    · obtain rfl := wellFormed.owner_unique member isThere
        (Operator.mem_ports_of_mem_portsOn .output isOutput) owns
      exact ⟨relay, member, Operator.mem_ports_of_mem_portsOn .input isInput, leads⟩

/-- Between ports of operators that are in both graphs and have the same edges there, both conduct data
alike. -/
theorem Conducts.of_edges {passes : Operator → Prop} (wellFormed : graph.WellFormed)
    {port next : PortId} (conducts : graph.Conducts passes port next)
    {before behind : Operator} (isBefore : before ∈ graph.operators) (alsoBefore : before ∈ result.operators)
    (isBehind : behind ∈ graph.operators)
    (owns : port ∈ before.ports.map Port.id) (alsoOwns : next ∈ behind.ports.map Port.id)
    (edges : port ∈ before.outputs.map Port.id → next ∈ behind.inputs.map Port.id →
      ⟨port, next⟩ ∈ graph.edges → ⟨port, next⟩ ∈ result.edges) : result.Conducts passes port next := by
  rcases conducts with isEdge | ⟨operator, member, passing, isInput, isOutput⟩
  · exact .inl (edges (wellFormed.mem_portsOn_of_edge .output isBefore owns isEdge)
      (wellFormed.mem_portsOn_of_edge .input isBehind alsoOwns isEdge) isEdge)
  · obtain rfl := wellFormed.owner_unique member isBefore
      (Operator.mem_ports_of_mem_portsOn .input isInput) owns
    exact .inr ⟨operator, alsoBefore, passing, isInput, isOutput⟩

/-- Operators with paths to an operator that stands are not removed with dead flow. -/
theorem distils_removeDeadFlow (framed : graph.Framed) {count : Nat}
    (yields : Edit.removeDeadFlow.Yields graph count result) : graph.Distils result := by
  have wellFormed := framed.wellFormed
  obtain ⟨live, -, restricts, attaches⟩ := Edit.exists_live_of_removeDeadFlow framed yields
  have resultWellFormed := attaches.framed.wellFormed
  have stays : ∀ operator ∈ result.operators, ¬ operator.IsTerminator → operator ∈ live.operators :=
    fun operator member notTerminator => (attaches.new operator member).resolve_right fun attached =>
      notTerminator (attached.imp And.left And.left)
  refine ⟨fun operator member => (attaches.new operator member).imp
    (fun old => ((restricts.operators operator).1 old).1) (Or.imp And.left And.left), ?_⟩
  intro producer consumer output input isProducer isConsumer gives takes stands alsoStands
  obtain ⟨oldConsumer, notDead⟩ := (restricts.operators consumer).1
    (stays consumer isConsumer alsoStands.notTerminator)
  have leadsOut := leadsOut_of_not_dead wellFormed oldConsumer alsoStands.notTerminator notDead
  have onPath : ∀ path : graph.RelayPath output input, ∀ port ∈ path.trace,
      ∃ operator ∈ live.operators, port ∈ operator.ports.map Port.id := by
    intro path port isThere
    obtain ⟨operator, member, owns, leads⟩ :=
      leadsOut_on_path wellFormed oldConsumer takes leadsOut path port isThere
    exact ⟨operator, (restricts.operators operator).2 ⟨member, leads.not_dead wellFormed⟩, owns⟩
  have onShort : ∀ path : result.RelayPath output input, ∀ port ∈ path.trace,
      ∃ operator ∈ live.operators, port ∈ operator.ports.map Port.id := by
    intro path port isThere
    obtain ⟨operator, member, owns, notTerminator⟩ := resultWellFormed.not_isTerminator_on_path
      isProducer isConsumer gives takes stands alsoStands path port isThere
    exact ⟨operator, stays operator member notTerminator, owns⟩
  refine (Route.shortens_of_shared (fun path port isThere next follows conducts => ?_)
    fun path port isThere next follows conducts => ?_).congr fun path port isThere => ?_
  · obtain ⟨before, isBefore, owns⟩ := onPath path port isThere
    obtain ⟨behind, isBehind, alsoOwns⟩ := onPath path next follows
    exact conducts.of_edges wellFormed ((restricts.operators before).1 isBefore).1
      (attaches.operators before isBefore) ((restricts.operators behind).1 isBehind).1 owns alsoOwns
      fun isOutput isInput isEdge => attaches.edges _
        ((restricts.mem_edges_iff wellFormed isBefore isBehind isOutput isInput).2 isEdge)
  · obtain ⟨before, isBefore, owns⟩ := onShort path port isThere
    obtain ⟨behind, isBehind, alsoOwns⟩ := onShort path next follows
    exact conducts.of_edges resultWellFormed (attaches.operators before isBefore)
      ((restricts.operators before).1 isBefore).1 (attaches.operators behind isBehind) owns alsoOwns
      fun isOutput isInput isEdge => (restricts.mem_edges_iff wellFormed isBefore isBehind isOutput
        isInput).1 (attaches.between before isBefore behind isBehind port isOutput next isInput isEdge)
  · obtain ⟨operator, member, owns⟩ := onPath path port isThere
    rw [wellFormed.keepsPort_eq ((restricts.operators operator).1 member).1 owns,
      decide_eq_true (attaches.operators operator member)]

/-! ### Relays side by side -/

/-- A relay stands between an output and an input. -/
def Joins (graph : Graph) (relay : Operator) (output input : PortId) : Prop :=
  relay ∈ graph.operators ∧ relay.Relays ∧ ∃ entry ∈ relay.inputs.map Port.id,
    ∃ exit ∈ relay.outputs.map Port.id, ⟨output, entry⟩ ∈ graph.edges ∧ ⟨exit, input⟩ ∈ graph.edges

instance (graph : Graph) (relay : Operator) (output input : PortId) :
    Decidable (graph.Joins relay output input) :=
  inferInstanceAs (Decidable (_ ∧ _ ∧ _))

/-- A path leads through the relay, and there is nothing but its ends on it when the relay is gone. -/
theorem Joins.exists_path (wellFormed : graph.WellFormed) {relay : Operator} {output input : PortId}
    (joins : graph.Joins relay output input) (gone : relay ∉ result.operators) :
    ∃ path : graph.RelayPath output input,
      (∃ port ∈ relay.ports.map Port.id, port ∈ path.trace[1]?) ∧
        path.trace.filter (graph.keepsPort result) = [output, input].filter (graph.keepsPort result) := by
  obtain ⟨member, relays, entry, isEntry, exit, isExit, before, after⟩ := joins
  have owned := Operator.mem_ports_of_mem_portsOn .input isEntry
  have dropped : ∀ port ∈ relay.ports.map Port.id, ¬ graph.keepsPort result port = true := by
    intro port owns
    rw [wellFormed.keepsPort_eq member owns, decide_eq_false gone]
    exact Bool.false_ne_true
  refine ⟨.go (.inl before) (.go (.inr ⟨relay, member, relays, isEntry, isExit⟩)
    (.go (.inl after) (.stop rfl))), ⟨entry, owned, rfl⟩, ?_⟩
  change [output, entry, exit, input].filter _ = _
  rw [List.filter_cons, List.filter_cons_of_neg (dropped entry owned),
    List.filter_cons_of_neg (dropped exit (Operator.mem_ports_of_mem_portsOn .output isExit)),
    ← List.filter_cons]

/-- Two relays that are gone from the second graph stand side by side. -/
def SideBySide (graph result : Graph) (output input : PortId) : Prop :=
  ∃ left ∈ graph.operators, ∃ right ∈ graph.operators, left ≠ right ∧
    (graph.Joins left output input ∧ left ∉ result.operators) ∧
      graph.Joins right output input ∧ right ∉ result.operators

instance (graph result : Graph) (output input : PortId) :
    Decidable (graph.SideBySide result output input) :=
  inferInstanceAs (Decidable (∃ left ∈ graph.operators, ∃ right ∈ graph.operators, _ ∧ _ ∧ _))

theorem SideBySide.nonempty (wellFormed : graph.WellFormed) {output input : PortId}
    (sideBySide : graph.SideBySide result output input) : Nonempty (graph.RelayPath output input) := by
  obtain ⟨left, -, right, -, -, ⟨joins, gone⟩, -⟩ := sideBySide
  obtain ⟨path, -⟩ := joins.exists_path wellFormed gone
  exact ⟨path⟩

/-- The paths through relays side by side become one. -/
theorem SideBySide.not_injective (wellFormed : graph.WellFormed) {output input : PortId}
    (sideBySide : graph.SideBySide result output input) :
    ¬ Function.Injective fun path : graph.RelayPath output input =>
      path.trace.filter (graph.keepsPort result) := by
  intro injective
  obtain ⟨left, -, right, -, differ, ⟨joins, gone⟩, alsoJoins, alsoGone⟩ := sideBySide
  obtain ⟨path, ⟨entry, owns, isSecond⟩, short⟩ := joins.exists_path wellFormed gone
  obtain ⟨other, ⟨otherEntry, alsoOwns, alsoSecond⟩, alsoShort⟩ :=
    alsoJoins.exists_path wellFormed alsoGone
  obtain rfl := injective (short.trans alsoShort.symm)
  obtain rfl := Option.mem_unique isSecond alsoSecond
  exact differ (wellFormed.owner_unique joins.1 alsoJoins.1 owns alsoOwns)

/-! ### Rounds -/

/-- What simplification leaves is reducible, with shorter paths. -/
def Simplifies (graph result : Graph) : Prop :=
  graph.Reducible → result.Reducible ∧ graph.Distils result

instance : IsPreorder Graph Simplifies where
  refl _ reducible := ⟨reducible, .refl reducible.framed.wellFormed⟩
  trans _ _ _ first second reducible := by
    obtain ⟨middleReducible, distils⟩ := first reducible
    obtain ⟨resultReducible, also⟩ := second middleReducible
    exact ⟨resultReducible, distils.trans also reducible.framed.wellFormed
      middleReducible.framed.wellFormed⟩

end Graph

namespace Edit

open StagePlanner.Graph

theorem simplifies_settle (done remaining : Nat) :
    (Simplifier.standard.settle done remaining).Ensures Simplifies := by
  have removed : removeDeadFlow.Ensures Simplifies := fun _ _ _ yields reducible =>
    ⟨reducible_removeDeadFlow reducible yields, distils_removeDeadFlow reducible.framed yields⟩
  refine Ensures.settle removed (fun graph _ result yields reducible => ?_) done remaining
  obtain ⟨count, takes, -⟩ := takesOut_standard reducible.framed.wellFormed yields
  have simplifies : graph.Simplifies result := takes.relates fun member relays bypassed reducible =>
    ⟨reducible_bypass reducible bypassed, distils_bypass reducible member relays bypassed⟩
  exact simplifies reducible

section

variable {document : Document} {named : NamedGraph} (described : document.build = .ok named)
  (acyclic : named.graph.Acyclic)

include described acyclic

/-- The paths between operators that are no relays are shortened. -/
theorem shortens_optimize {limit : Nat} {outcome : LoopOutcome} {result : Graph}
    (yields : (Simplifier.standard.optimize limit).Yields named.graph outcome result)
    {producer consumer : Operator} (isProducer : named.graph.Spares result producer)
    (isConsumer : named.graph.Spares result consumer) {output input : Port}
    (gives : output ∈ producer.outputs) (takes : input ∈ consumer.inputs) :
    Route.Shortens (named.graph.keepsPort result) (named.graph.Conducts Operator.Relays)
      (result.Conducts Operator.Relays) (fun port => port = input.id) output.id := by
  have stands : ∀ operator, named.graph.Spares result operator → operator.Stands := by
    refine fun operator ⟨member, _, notRelay⟩ => ⟨notRelay, ?_⟩
    rintro (isMarker | isMarker) <;>
      rw [Operator.isMarkerOf, (Document.unmarked_build described).marker? operator member]
        at isMarker <;> cases isMarker
  have distils := (simplifies_settle 0 limit named.graph outcome result yields
    (reducible_build described acyclic)).2
  exact distils.paths isProducer.2.1 isConsumer.2.1 (List.mem_map_of_mem gives)
    (List.mem_map_of_mem takes) (stands producer isProducer) (stands consumer isConsumer)

/-- Simplification of a document without circuits gives a result, in which the paths through relays
between other operators are those from before without the ports of relays that are gone. So there is a
path where there was one, there are never more, and there are as many unless two paths differ only in
such ports. -/
theorem optimize_shortens_paths (limit : Nat) :
    (Simplifier.standard.optimize limit).Ends named.graph
      (fun _ result => ∀ producer, named.graph.Spares result producer →
        ∀ consumer, named.graph.Spares result consumer →
          ∀ output ∈ producer.outputs, ∀ input ∈ consumer.inputs,
            Finite (named.graph.RelayPath output.id input.id) ∧
            Finite (result.RelayPath output.id input.id) ∧
            (∀ ports, (∃ path : result.RelayPath output.id input.id, path.trace = ports) ↔
              ∃ path : named.graph.RelayPath output.id input.id,
                path.trace.filter (named.graph.keepsPort result) = ports) ∧
            (0 < Nat.card (result.RelayPath output.id input.id) ↔
              0 < Nat.card (named.graph.RelayPath output.id input.id)) ∧
            Nat.card (result.RelayPath output.id input.id) ≤
              Nat.card (named.graph.RelayPath output.id input.id) ∧
            (Nat.card (result.RelayPath output.id input.id) =
                Nat.card (named.graph.RelayPath output.id input.id) ↔
              Function.Injective fun path : named.graph.RelayPath output.id input.id =>
                path.trace.filter (named.graph.keepsPort result)))
      fun _ _ => False := by
  have wellFormed := (Document.regular_build described).wellFormed
  refine (ends_settle_standard 0 limit (reducible_build described acyclic)).mono
    fun outcome result yields _ => ?_
  intro producer isProducer consumer isConsumer output gives input takes
  have shortens := shortens_optimize described acyclic yields isProducer isConsumer gives takes
  have finite : Finite (named.graph.RelayPath output.id input.id) :=
    Route.finite (wellFormed.finitary_conducts acyclic) output.id
  exact ⟨finite, shortens.finite, shortens, shortens.card_pos_iff, shortens.card_le,
    shortens.card_eq_iff⟩

end

/-- Rows go to the result by two projections that change nothing, side by side. -/
def parallelSample : Document where
  operators := [
    { id := "table", kind := "input", type := some (.named "row") },
    { id := "left", kind := "project", type := some (.named "row") },
    { id := "right", kind := "project", type := some (.named "row") },
    { id := "result", kind := "output", type := some (.named "row") }]
  edges := [⟨"table", "left"⟩, ⟨"table", "right"⟩, ⟨"left", "result"⟩, ⟨"right", "result"⟩]

/-- The sample has no circuits, and its projections are gone after simplification. -/
theorem exists_parallelSample : ∃ named : NamedGraph, parallelSample.build = .ok named ∧
    named.graph.Acyclic ∧ ∃ outcome result,
      (Simplifier.standard.optimize 4).Yields named.graph outcome result ∧
        ∃ producer, named.graph.Spares result producer ∧
          ∃ consumer, named.graph.Spares result consumer ∧
            ∃ output ∈ producer.outputs, ∃ input ∈ consumer.inputs,
              named.graph.SideBySide result output.id input.id := by
  have computed : (parallelSample.build.map fun named =>
      let result := ((Simplifier.standard.optimize 4).apply named.graph).2
      decide (named.graph.dependencies.circuits = [] ∧
        ((Simplifier.standard.optimize 4).apply named.graph).1.isOk = true ∧
        ∃ producer ∈ named.graph.operators, named.graph.Spares result producer ∧
          ∃ consumer ∈ named.graph.operators, named.graph.Spares result consumer ∧
            ∃ output ∈ producer.outputs, ∃ input ∈ consumer.inputs,
              named.graph.SideBySide result output.id input.id)).toOption = some true := by
    decide +kernel
  obtain ⟨named, described, holds⟩ := exists_of_map_toOption computed
  obtain ⟨noCircuits, succeeds, producer, -, isProducer, consumer, -, isConsumer, parallel⟩ :=
    of_decide_eq_true holds
  obtain ⟨outcome, isOutcome⟩ := exists_of_isOk succeeds
  exact ⟨named, described, (Graph.circuitless_dependencies_iff
    (Document.regular_build described).wellFormed).1
      ((DependencyGraph.circuits_eq_nil_iff Graph.dependencies_wellFormed).1 noCircuits),
    outcome, _, Prod.ext isOutcome rfl, producer, isProducer, consumer, isConsumer, parallel⟩

/-- In the sample there is a path still, but there are fewer. -/
theorem optimize_shortens_paths_parallelSample : ∃ named : NamedGraph,
    parallelSample.build = .ok named ∧ named.graph.Acyclic ∧ ∃ outcome result,
      (Simplifier.standard.optimize 4).Yields named.graph outcome result ∧
        ∃ producer, named.graph.Spares result producer ∧
          ∃ consumer, named.graph.Spares result consumer ∧
            ∃ output ∈ producer.outputs, ∃ input ∈ consumer.inputs,
              0 < Nat.card (result.RelayPath output.id input.id) ∧
                Nat.card (result.RelayPath output.id input.id) <
                  Nat.card (named.graph.RelayPath output.id input.id) := by
  obtain ⟨named, described, acyclic, outcome, result, yields, producer, isProducer, consumer, isConsumer,
    output, gives, input, takes, sideBySide⟩ := exists_parallelSample
  have wellFormed := (Document.regular_build described).wellFormed
  have ends := optimize_shortens_paths described acyclic 4
  rw [Ends, yields] at ends
  obtain ⟨finite, -, -, positive, fewer, same⟩ :=
    ends producer isProducer consumer isConsumer output gives input takes
  obtain ⟨path⟩ := sideBySide.nonempty wellFormed
  exact ⟨named, described, acyclic, outcome, result, yields, producer, isProducer, consumer, isConsumer,
    output, gives, input, takes, positive.2 (Nat.card_pos_iff.2 ⟨⟨path⟩, finite⟩),
    lt_of_le_of_ne fewer fun equal => sideBySide.not_injective wellFormed (same.1 equal)⟩

/-- Simplification does not always keep the number of paths. -/
theorem not_optimize_keeps_paths : ¬ ∀ (document : Document) (named : NamedGraph),
    document.build = .ok named → named.graph.Acyclic → ∀ limit outcome result,
      (Simplifier.standard.optimize limit).Yields named.graph outcome result →
        ∀ producer, named.graph.Spares result producer →
          ∀ consumer, named.graph.Spares result consumer →
            ∀ output ∈ producer.outputs, ∀ input ∈ consumer.inputs,
              Nat.card (result.RelayPath output.id input.id) =
                Nat.card (named.graph.RelayPath output.id input.id) := by
  intro keeps
  obtain ⟨named, described, acyclic, outcome, result, yields, producer, isProducer, consumer, isConsumer,
    output, gives, input, takes, sideBySide⟩ := exists_parallelSample
  have wellFormed := (Document.regular_build described).wellFormed
  have finite : Finite (named.graph.RelayPath output.id input.id) :=
    Route.finite (wellFormed.finitary_conducts acyclic) output.id
  have shortens := shortens_optimize described acyclic yields isProducer isConsumer gives takes
  exact sideBySide.not_injective wellFormed (shortens.card_eq_iff.1 (keeps parallelSample named described
    acyclic 4 outcome result yields producer isProducer consumer isConsumer output gives input takes))

end Edit

end StagePlanner
