import StagePlanner.Proofs.Graph.Ancestry
import StagePlanner.Proofs.Graph.Splicing
import StagePlanner.Proofs.Route

/-!
# Paths through operators that pass data on

Markers and core checkpoints pass data on as they are. A path leads from an output to an input
along edges and through such operators (`Graph.Path`), and a graph without circuits has finitely
many. An operator that is put between ports and passes data on changes neither their number nor
whether there are circuits (`Interposed.card_path`, `Interposed.acyclic_iff`).
-/

namespace StagePlanner

open Relation

/-- The operator passes data on as they are: it is a marker or a core checkpoint. -/
def Operator.Passes (operator : Operator) : Prop :=
  operator.isMarker = true ∨ operator.isCore .checkpoint = true

namespace Graph

/-- An operator passes data on from the first port to the second one. -/
def Through (graph : Graph) (source target : PortId) : Prop :=
  ∃ operator ∈ graph.operators, operator.Passes ∧ source ∈ operator.inputs.map Port.id ∧
    target ∈ operator.outputs.map Port.id

/-- Data go from the first port to the second one, along an edge or through an operator. -/
def Flows (graph : Graph) (source target : PortId) : Prop :=
  ⟨source, target⟩ ∈ graph.edges ∨ graph.Through source target

/-- A way from a port to another one along edges and through operators that pass data on. -/
abbrev Path (graph : Graph) (source target : PortId) : Type :=
  Route graph.Flows (fun port => port = target) source

/-- Data go from the first port to the second one, along an edge or through an operator of a kind. -/
def Conducts (graph : Graph) (passes : Operator → Prop) (source target : PortId) : Prop :=
  ⟨source, target⟩ ∈ graph.edges ∨ ∃ operator ∈ graph.operators, passes operator ∧
    source ∈ operator.inputs.map Port.id ∧ target ∈ operator.outputs.map Port.id

theorem flows_eq (graph : Graph) : graph.Flows = graph.Conducts Operator.Passes := rfl

variable {graph result : Graph} {passes : Operator → Prop}

/-! ### Finitely many paths -/

/-- Such a way leads from an operator to one that it feeds, directly or not, or it just leads through
one operator. -/
theorem WellFormed.feeds_of_conducts (wellFormed : graph.WellFormed) {source target : PortId}
    (way : TransGen (graph.Conducts passes) source target) :
    ∃ producer ∈ graph.operators, ∃ consumer ∈ graph.operators,
      source ∈ producer.ports.map Port.id ∧ target ∈ consumer.ports.map Port.id ∧
        (TransGen graph.Feeds producer.id consumer.id ∨
          source ∈ consumer.inputs.map Port.id ∧ target ∈ consumer.outputs.map Port.id) := by
  induction way with
  | single step =>
    rcases step with isEdge | ⟨operator, member, -, isInput, isOutput⟩
    · obtain ⟨producer, isProducer, owned⟩ := wellFormed.sources _ isEdge
      obtain ⟨consumer, isConsumer, owns⟩ := wellFormed.targets _ isEdge
      exact ⟨producer, isProducer, consumer, isConsumer,
        Operator.mem_ports_of_mem_portsOn .output owned, Operator.mem_ports_of_mem_portsOn .input owns,
        .inl (.single (feeds_iff_exists_edge.2 ⟨_, _, isEdge, ⟨producer, isProducer, rfl, owned⟩,
          consumer, isConsumer, rfl, owns⟩))⟩
    · exact ⟨operator, member, operator, member, Operator.mem_ports_of_mem_portsOn .input isInput,
        Operator.mem_ports_of_mem_portsOn .output isOutput, .inr ⟨isInput, isOutput⟩⟩
  | @tail middle target _ step ih =>
    obtain ⟨producer, isProducer, between, isBetween, owned, owns, before⟩ := ih
    rcases step with isEdge | ⟨operator, member, -, isInput, isOutput⟩
    · obtain ⟨other, isOther, isOutput⟩ := wellFormed.sources _ isEdge
      obtain ⟨consumer, isConsumer, isInput⟩ := wellFormed.targets _ isEdge
      obtain rfl := wellFormed.owner_unique isBetween isOther owns
        (Operator.mem_ports_of_mem_portsOn .output isOutput)
      have feeds : graph.Feeds between.id consumer.id := feeds_iff_exists_edge.2
        ⟨_, _, isEdge, ⟨between, isBetween, rfl, isOutput⟩, consumer, isConsumer, rfl, isInput⟩
      rcases before with far | ⟨atInput, -⟩
      · exact ⟨producer, isProducer, consumer, isConsumer, owned,
          Operator.mem_ports_of_mem_portsOn .input isInput, .inl (far.tail feeds)⟩
      · exact ⟨between, isBetween, consumer, isConsumer,
          Operator.mem_ports_of_mem_portsOn .input atInput,
          Operator.mem_ports_of_mem_portsOn .input isInput, .inl (.single feeds)⟩
    · obtain rfl := wellFormed.owner_unique isBetween member owns
        (Operator.mem_ports_of_mem_portsOn .input isInput)
      rcases before with far | ⟨-, atOutput⟩
      · exact ⟨producer, isProducer, between, isBetween, owned,
          Operator.mem_ports_of_mem_portsOn .output isOutput, .inl far⟩
      · exact absurd rfl (wellFormed.output_ne_input isBetween isBetween atOutput isInput)

theorem WellFormed.circuitless_conducts (wellFormed : graph.WellFormed) (acyclic : graph.Acyclic) :
    Circuitless (graph.Conducts passes) := by
  intro port around
  obtain ⟨producer, isProducer, consumer, isConsumer, owned, owns, far | ⟨isInput, isOutput⟩⟩ :=
    wellFormed.feeds_of_conducts around
  · rw [wellFormed.owner_unique isProducer isConsumer owned owns] at far
    exact acyclic _ far
  · exact wellFormed.output_ne_input isConsumer isConsumer isOutput isInput rfl

/-- In a graph without circuits such ways branch finitely and come to an end. -/
theorem WellFormed.finitary_conducts (wellFormed : graph.WellFormed) (acyclic : graph.Acyclic) :
    Finitary (graph.Conducts passes) := by
  refine .of_circuitless (wellFormed.circuitless_conducts acyclic)
    (graph.operators.flatMap fun operator => operator.ports.map Port.id) ?_
  rintro source target (isEdge | ⟨operator, member, -, -, isOutput⟩)
  · obtain ⟨consumer, isConsumer, owns⟩ := wellFormed.targets _ isEdge
    exact List.mem_flatMap.2 ⟨consumer, isConsumer, Operator.mem_ports_of_mem_portsOn .input owns⟩
  · exact List.mem_flatMap.2 ⟨operator, member, Operator.mem_ports_of_mem_portsOn .output isOutput⟩

theorem WellFormed.finitary_flows (wellFormed : graph.WellFormed) (acyclic : graph.Acyclic) :
    Finitary graph.Flows := graph.flows_eq ▸ wellFormed.finitary_conducts acyclic

/-! ### An operator between ports -/

namespace Interposed

variable {operator : Operator} {entry exit : PortId} {sources targets : PortId → Prop}
  (interposed : graph.Interposed result operator entry exit sources targets)
  (wellFormed : graph.WellFormed) (resultWellFormed : result.WellFormed)

include interposed

theorem isMember : operator ∈ result.operators := (interposed.operators operator).2 (.inr rfl)

theorem ne_of_mem {other : Operator} (member : other ∈ graph.operators) : other ≠ operator := by
  rintro rfl
  exact interposed.fresh (mem_operatorIds.2 ⟨other, member, rfl⟩)

/-- An operator feeds what it fed, or it feeds the new operator, which feeds that. -/
theorem feeds_or_past {source target : OperatorId} (feeds : graph.Feeds source target) :
    result.Feeds source target ∨ result.Feeds source operator.id ∧ result.Feeds operator.id target := by
  obtain ⟨output, input, isEdge, ⟨producer, isProducer, rfl, owned⟩, consumer, isConsumer, rfl,
    owns⟩ := feeds_iff_exists_edge.1 feeds
  have newProducer := (interposed.operators producer).2 (.inl isProducer)
  have newConsumer := (interposed.operators consumer).2 (.inl isConsumer)
  by_cases between : sources output ∧ targets input
  · have entryOwned : entry ∈ operator.inputs.map Port.id := by
      rw [interposed.inputs]
      exact List.mem_cons_self
    have exitOwned : exit ∈ operator.outputs.map Port.id := by
      rw [interposed.outputs]
      exact List.mem_cons_self
    have first : result.Feeds producer.id operator.id := feeds_iff_exists_edge.2 ⟨output, entry,
      (interposed.edges output entry).2 (.inr (.inl ⟨between.1, rfl⟩)),
      ⟨producer, newProducer, rfl, owned⟩, operator, interposed.isMember, rfl, entryOwned⟩
    have second : result.Feeds operator.id consumer.id := feeds_iff_exists_edge.2 ⟨exit, input,
      (interposed.edges exit input).2 (.inr (.inr ⟨rfl, between.2⟩)),
      ⟨operator, interposed.isMember, rfl, exitOwned⟩, consumer, newConsumer, rfl, owns⟩
    exact .inr ⟨first, second⟩
  · exact .inl (feeds_iff_exists_edge.2 ⟨output, input,
      (interposed.edges output input).2 (.inl ⟨isEdge, between⟩),
      ⟨producer, newProducer, rfl, owned⟩, consumer, newConsumer, rfl, owns⟩)

/-- An edge of the graph is an edge of the result, or the operator stands on it. -/
theorem transGen_of_feeds {source target : OperatorId} (feeds : graph.Feeds source target) :
    TransGen result.Feeds source target := by
  rcases interposed.feeds_or_past feeds with direct | ⟨into, out⟩
  · exact .single direct
  · exact .tail (.single into) out

/-- What flows in the result. -/
theorem flows_iff (passes : operator.Passes) {source target : PortId} :
    result.Flows source target ↔
      (⟨source, target⟩ ∈ graph.edges ∧ ¬ (sources source ∧ targets target) ∨
        graph.Through source target) ∨
      (sources source ∧ target = entry ∨ source = exit ∧ targets target) ∨
        source = entry ∧ target = exit := by
  have through : result.Through source target ↔
      graph.Through source target ∨ source = entry ∧ target = exit := by
    simp only [Through, interposed.operators]
    constructor
    · rintro ⟨other, member | rfl, passing, owned, owns⟩
      · exact .inl ⟨other, member, passing, owned, owns⟩
      · rw [interposed.inputs, List.mem_singleton] at owned
        rw [interposed.outputs, List.mem_singleton] at owns
        exact .inr ⟨owned, owns⟩
    · rintro (⟨other, member, passing, owned, owns⟩ | ⟨rfl, rfl⟩)
      · exact ⟨other, .inl member, passing, owned, owns⟩
      · refine ⟨operator, .inr rfl, passes, ?_, ?_⟩
        · rw [interposed.inputs]
          exact List.mem_cons_self
        · rw [interposed.outputs]
          exact List.mem_cons_self
  rw [Flows, interposed.edges, through, or_or_or_comm]

include resultWellFormed

/-- The ports of the operator belong to no other one. -/
theorem ne_ports {other : Operator} (member : other ∈ graph.operators) {port : PortId}
    (owned : port ∈ other.ports.map Port.id) : port ≠ entry ∧ port ≠ exit := by
  have differ : ∀ side, port ∉ (operator.portsOn side).map Port.id := fun side owns =>
    interposed.ne_of_mem member (resultWellFormed.owner_unique
      ((interposed.operators other).2 (.inl member)) interposed.isMember owned
      (Operator.mem_ports_of_mem_portsOn side owns))
  constructor
  · rintro rfl
    exact differ .input (by rw [Operator.portsOn, interposed.inputs]; exact List.mem_cons_self)
  · rintro rfl
    exact differ .output (by rw [Operator.portsOn, interposed.outputs]; exact List.mem_cons_self)

theorem ne_of_sources {source : PortId} (isSource : sources source) :
    source ≠ entry ∧ source ≠ exit := by
  obtain ⟨other, member, owned⟩ := interposed.areOutputs source isSource
  exact interposed.ne_ports resultWellFormed member
    (Operator.mem_ports_of_mem_portsOn .output owned)

theorem ne_of_targets {target : PortId} (isTarget : targets target) :
    target ≠ entry ∧ target ≠ exit := by
  obtain ⟨other, member, owned⟩ := interposed.areInputs target isTarget
  exact interposed.ne_ports resultWellFormed member (Operator.mem_ports_of_mem_portsOn .input owned)

/-- Between other operators the operator changes nothing unless it stands between them. -/
theorem feeds_direct {source target : OperatorId} (notSource : source ≠ operator.id)
    (notTarget : target ≠ operator.id) (feeds : result.Feeds source target) :
    graph.Feeds source target := by
  obtain ⟨output, input, isEdge, ⟨producer, isProducer, rfl, owned⟩, consumer, isConsumer, rfl,
    owns⟩ := feeds_iff_exists_edge.1 feeds
  have oldProducer : producer ∈ graph.operators := ((interposed.operators producer).1
    isProducer).resolve_right fun same => notSource (congrArg Operator.id same)
  have oldConsumer : consumer ∈ graph.operators := ((interposed.operators consumer).1
    isConsumer).resolve_right fun same => notTarget (congrArg Operator.id same)
  rcases (interposed.edges output input).1 isEdge with ⟨old, -⟩ | ⟨-, atEntry⟩ | ⟨atExit, -⟩
  · exact feeds_iff_exists_edge.2 ⟨output, input, old, ⟨producer, oldProducer, rfl, owned⟩, consumer,
      oldConsumer, rfl, owns⟩
  · exact absurd atEntry (interposed.ne_ports resultWellFormed oldConsumer
      (Operator.mem_ports_of_mem_portsOn .input owns)).1
  · exact absurd atExit (interposed.ne_ports resultWellFormed oldProducer
      (Operator.mem_ports_of_mem_portsOn .output owned)).2

include wellFormed

theorem ne_of_edge {source target : PortId} (isEdge : ⟨source, target⟩ ∈ graph.edges) :
    (source ≠ entry ∧ source ≠ exit) ∧ target ≠ entry ∧ target ≠ exit := by
  obtain ⟨producer, isProducer, owned⟩ := wellFormed.sources _ isEdge
  obtain ⟨consumer, isConsumer, owns⟩ := wellFormed.targets _ isEdge
  exact ⟨interposed.ne_ports resultWellFormed isProducer
      (Operator.mem_ports_of_mem_portsOn .output owned),
    interposed.ne_ports resultWellFormed isConsumer (Operator.mem_ports_of_mem_portsOn .input owns)⟩

/-! #### Circuits -/

theorem feeds_into {source : OperatorId} (feeds : result.Feeds source operator.id) :
    ∃ output, sources output ∧
      ∃ producer ∈ graph.operators, producer.id = source ∧ output ∈ producer.outputs.map Port.id := by
  obtain ⟨output, input, isEdge, ⟨producer, isProducer, same, owned⟩, consumer, isConsumer,
    isOperator, owns⟩ := feeds_iff_exists_edge.1 feeds
  obtain rfl := resultWellFormed.operator_unique isConsumer interposed.isMember isOperator
  rw [interposed.inputs, List.mem_singleton] at owns
  subst owns
  rcases (interposed.edges output input).1 isEdge with ⟨old, -⟩ | ⟨isSource, -⟩ | ⟨-, isTarget⟩
  · exact absurd rfl (interposed.ne_of_edge wellFormed resultWellFormed old).2.1
  · obtain ⟨other, isOther, listed⟩ := interposed.areOutputs output isSource
    obtain rfl := resultWellFormed.owner_unique isProducer
      ((interposed.operators other).2 (.inl isOther))
      (Operator.mem_ports_of_mem_portsOn .output owned)
      (Operator.mem_ports_of_mem_portsOn .output listed)
    exact ⟨output, isSource, producer, isOther, same, listed⟩
  · exact absurd rfl (interposed.ne_of_targets resultWellFormed isTarget).1

theorem feeds_out_of {target : OperatorId} (feeds : result.Feeds operator.id target) :
    ∃ input, targets input ∧
      ∃ consumer ∈ graph.operators, consumer.id = target ∧ input ∈ consumer.inputs.map Port.id := by
  obtain ⟨output, input, isEdge, ⟨producer, isProducer, isOperator, owned⟩, consumer, isConsumer,
    same, owns⟩ := feeds_iff_exists_edge.1 feeds
  obtain rfl := resultWellFormed.operator_unique isProducer interposed.isMember isOperator
  rw [interposed.outputs, List.mem_singleton] at owned
  subst owned
  rcases (interposed.edges output input).1 isEdge with ⟨old, -⟩ | ⟨isSource, -⟩ | ⟨-, isTarget⟩
  · exact absurd rfl (interposed.ne_of_edge wellFormed resultWellFormed old).1.2
  · exact absurd rfl (interposed.ne_of_sources resultWellFormed isSource).2
  · obtain ⟨other, isOther, listed⟩ := interposed.areInputs input isTarget
    obtain rfl := resultWellFormed.owner_unique isConsumer
      ((interposed.operators other).2 (.inl isOther))
      (Operator.mem_ports_of_mem_portsOn .input owns)
      (Operator.mem_ports_of_mem_portsOn .input listed)
    exact ⟨input, isTarget, consumer, isOther, same, listed⟩

theorem feeds_past {source target : OperatorId} (into : result.Feeds source operator.id)
    (out : result.Feeds operator.id target) : graph.Feeds source target := by
  obtain ⟨output, isSource, producer, isProducer, first, owned⟩ :=
    interposed.feeds_into wellFormed resultWellFormed into
  obtain ⟨input, isTarget, consumer, isConsumer, second, owns⟩ :=
    interposed.feeds_out_of wellFormed resultWellFormed out
  exact feeds_iff_exists_edge.2 ⟨output, input, interposed.joined output input isSource isTarget,
    ⟨producer, isProducer, first, owned⟩, consumer, isConsumer, second, owns⟩

theorem not_feeds_itself : ¬ result.Feeds operator.id operator.id := by
  intro feeds
  obtain ⟨-, -, producer, isProducer, same, -⟩ :=
    interposed.feeds_into wellFormed resultWellFormed feeds
  exact interposed.fresh (mem_operatorIds.2 ⟨producer, isProducer, same⟩)

/-- Putting an operator between ports or taking it away makes no circuit. -/
theorem acyclic_iff : result.Acyclic ↔ graph.Acyclic := by
  constructor
  · intro acyclic
    exact Circuitless.of_shortcuts acyclic fun _ _ feeds =>
      interposed.transGen_of_feeds feeds
  · intro acyclic
    exact Circuitless.of_bypassed acyclic (interposed.not_feeds_itself wellFormed resultWellFormed)
      (fun _ _ notSource notTarget feeds =>
        interposed.feeds_direct resultWellFormed notSource notTarget feeds)
      fun _ _ _ _ into out => interposed.feeds_past wellFormed resultWellFormed into out

/-! #### Paths -/

omit wellFormed in
theorem ne_of_through {source target : PortId} (through : graph.Through source target) :
    (source ≠ entry ∧ source ≠ exit) ∧ target ≠ entry ∧ target ≠ exit := by
  obtain ⟨other, member, -, owned, owns⟩ := through
  exact ⟨interposed.ne_ports resultWellFormed member
      (Operator.mem_ports_of_mem_portsOn .input owned),
    interposed.ne_ports resultWellFormed member (Operator.mem_ports_of_mem_portsOn .output owns)⟩

omit wellFormed in
theorem entry_ne_exit : entry ≠ exit := by
  rintro rfl
  have isInput : entry ∈ (operator.portsOn .input).map Port.id := by
    rw [Operator.portsOn, interposed.inputs]
    exact List.mem_cons_self
  have isOutput : entry ∈ (operator.portsOn .output).map Port.id := by
    rw [Operator.portsOn, interposed.outputs]
    exact List.mem_cons_self
  cases resultWellFormed.side_unique interposed.isMember isInput isOutput

omit resultWellFormed in
/-- Nothing goes through an operator from an output. -/
theorem not_through_of_sources {source target : PortId} (isSource : sources source) :
    ¬ graph.Through source target := by
  rintro ⟨other, member, -, owned, -⟩
  obtain ⟨producer, isProducer, owns⟩ := interposed.areOutputs source isSource
  exact wellFormed.output_ne_input isProducer member owns owned rfl

/-- What flows when the entry of the operator is passed over. -/
def Entering (graph : Graph) (exit : PortId) (sources targets : PortId → Prop)
    (source target : PortId) : Prop :=
  (⟨source, target⟩ ∈ graph.edges ∧ ¬ (sources source ∧ targets target) ∨
    graph.Through source target) ∨
  (sources source ∧ target = exit ∨ source = exit ∧ targets target)

theorem sources_of_flows_entry (passes : operator.Passes) {source : PortId}
    (flows : result.Flows source entry) : sources source := by
  rcases (interposed.flows_iff passes).1 flows with
    (⟨old, -⟩ | through) | (⟨isSource, -⟩ | ⟨-, isTarget⟩) | ⟨-, same⟩
  · exact absurd rfl (interposed.ne_of_edge wellFormed resultWellFormed old).2.1
  · exact absurd rfl (interposed.ne_of_through resultWellFormed through).2.1
  · exact isSource
  · exact absurd rfl (interposed.ne_of_targets resultWellFormed isTarget).1
  · exact absurd same (interposed.entry_ne_exit resultWellFormed)

theorem eq_exit_of_flows_entry (passes : operator.Passes) {target : PortId}
    (flows : result.Flows entry target) : target = exit := by
  rcases (interposed.flows_iff passes).1 flows with
    (⟨old, -⟩ | through) | (⟨isSource, -⟩ | ⟨same, -⟩) | ⟨-, same⟩
  · exact absurd rfl (interposed.ne_of_edge wellFormed resultWellFormed old).1.1
  · exact absurd rfl (interposed.ne_of_through resultWellFormed through).1.1
  · exact absurd rfl (interposed.ne_of_sources resultWellFormed isSource).1
  · exact absurd same (interposed.entry_ne_exit resultWellFormed)
  · exact same

/-- Data come to the exit from the entry alone. -/
theorem not_flows_exit (passes : operator.Passes) {source : PortId} (isSource : sources source) :
    ¬ result.Flows source exit := by
  intro flows
  rcases (interposed.flows_iff passes).1 flows with
    (⟨old, -⟩ | through) | (⟨-, same⟩ | ⟨-, isTarget⟩) | ⟨same, -⟩
  · exact absurd rfl (interposed.ne_of_edge wellFormed resultWellFormed old).2.2
  · exact absurd rfl (interposed.ne_of_through resultWellFormed through).2.2
  · exact interposed.entry_ne_exit resultWellFormed same.symm
  · exact absurd rfl (interposed.ne_of_targets resultWellFormed isTarget).2
  · exact (interposed.ne_of_sources resultWellFormed isSource).1 same

theorem bypasses_entry (passes : operator.Passes) :
    Bypasses (Entering graph exit sources targets) result.Flows entry := by
  have differ := interposed.entry_ne_exit resultWellFormed
  refine ⟨fun source target => ⟨?_, ?_⟩, ?_⟩
  · rintro ((⟨old, kept⟩ | through) | (⟨isSource, rfl⟩ | ⟨rfl, isTarget⟩))
    · have apart := interposed.ne_of_edge wellFormed resultWellFormed old
      exact ⟨apart.1.1, apart.2.1, .inl ((interposed.flows_iff passes).2 (.inl (.inl ⟨old, kept⟩)))⟩
    · have apart := interposed.ne_of_through resultWellFormed through
      exact ⟨apart.1.1, apart.2.1, .inl ((interposed.flows_iff passes).2 (.inl (.inr through)))⟩
    · exact ⟨(interposed.ne_of_sources resultWellFormed isSource).1, differ.symm,
        .inr ⟨(interposed.flows_iff passes).2 (.inr (.inl (.inl ⟨isSource, rfl⟩))),
          (interposed.flows_iff passes).2 (.inr (.inr ⟨rfl, rfl⟩))⟩⟩
    · exact ⟨differ.symm, (interposed.ne_of_targets resultWellFormed isTarget).1,
        .inl ((interposed.flows_iff passes).2 (.inr (.inl (.inr ⟨rfl, isTarget⟩))))⟩
  · rintro ⟨notSource, notTarget, flows | ⟨before, after⟩⟩
    · rcases (interposed.flows_iff passes).1 flows with
        kept | (⟨-, same⟩ | leaves) | ⟨same, -⟩
      · exact .inl kept
      · exact absurd same notTarget
      · exact .inr (.inr leaves)
      · exact absurd same notSource
    · exact .inr (.inl ⟨interposed.sources_of_flows_entry wellFormed resultWellFormed passes before,
        interposed.eq_exit_of_flows_entry wellFormed resultWellFormed passes after⟩)
  · rintro source target before after flows
    obtain rfl := interposed.eq_exit_of_flows_entry wellFormed resultWellFormed passes after
    exact interposed.not_flows_exit wellFormed resultWellFormed passes
      (interposed.sources_of_flows_entry wellFormed resultWellFormed passes before) flows

theorem bypasses_exit : Bypasses graph.Flows (Entering graph exit sources targets) exit := by
  have into : ∀ {source}, Entering graph exit sources targets source exit → sources source := by
    rintro source ((⟨old, -⟩ | through) | (⟨isSource, -⟩ | ⟨-, isTarget⟩))
    · exact absurd rfl (interposed.ne_of_edge wellFormed resultWellFormed old).2.2
    · exact absurd rfl (interposed.ne_of_through resultWellFormed through).2.2
    · exact isSource
    · exact absurd rfl (interposed.ne_of_targets resultWellFormed isTarget).2
  have out : ∀ {target}, Entering graph exit sources targets exit target → targets target := by
    rintro target ((⟨old, -⟩ | through) | (⟨isSource, -⟩ | ⟨-, isTarget⟩))
    · exact absurd rfl (interposed.ne_of_edge wellFormed resultWellFormed old).1.2
    · exact absurd rfl (interposed.ne_of_through resultWellFormed through).1.2
    · exact absurd rfl (interposed.ne_of_sources resultWellFormed isSource).2
    · exact isTarget
  refine ⟨fun source target => ⟨?_, ?_⟩, ?_⟩
  · rintro (isEdge | through)
    · have apart := interposed.ne_of_edge wellFormed resultWellFormed isEdge
      refine ⟨apart.1.2, apart.2.2, ?_⟩
      by_cases between : sources source ∧ targets target
      · exact .inr ⟨.inr (.inl ⟨between.1, rfl⟩), .inr (.inr ⟨rfl, between.2⟩)⟩
      · exact .inl (.inl (.inl ⟨isEdge, between⟩))
    · have apart := interposed.ne_of_through resultWellFormed through
      exact ⟨apart.1.2, apart.2.2, .inl (.inl (.inr through))⟩
  · rintro ⟨notSource, notTarget, ((⟨old, -⟩ | through) | (⟨-, same⟩ | ⟨same, -⟩)) | ⟨before, after⟩⟩
    · exact .inl old
    · exact .inr through
    · exact absurd same notTarget
    · exact absurd same notSource
    · exact .inl (interposed.joined source target (into before) (out after))
  · rintro source target before after ((⟨-, kept⟩ | through) | (⟨-, same⟩ | ⟨same, -⟩))
    · exact kept ⟨into before, out after⟩
    · exact interposed.not_through_of_sources wellFormed (into before) through
    · exact (interposed.ne_of_targets resultWellFormed (out after)).2 same
    · exact (interposed.ne_of_sources resultWellFormed (into before)).2 same

/-- An operator that passes data on keeps the number of paths between other ports. -/
theorem card_path (passes : operator.Passes) (acyclic : result.Acyclic) {source target : PortId}
    (notSource : source ≠ entry ∧ source ≠ exit) (notTarget : target ≠ entry ∧ target ≠ exit) :
    Nat.card (graph.Path source target) = Nat.card (result.Path source target) := by
  have first := interposed.bypasses_entry wellFormed resultWellFormed passes
  have second := interposed.bypasses_exit wellFormed resultWellFormed
  have finitary := resultWellFormed.finitary_flows acyclic
  exact (second.card_route (first.finitary finitary) notTarget.2.symm notSource.2).trans
    (first.card_route finitary notTarget.1.symm notSource.1)

end Interposed

end Graph

end StagePlanner
