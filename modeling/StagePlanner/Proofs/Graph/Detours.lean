import StagePlanner.Graph.Edit
import StagePlanner.Proofs.Graph.Rebuilding
import StagePlanner.Proofs.Marking.Passage
import StagePlanner.Proofs.Preparation.Rounds

/-!
# Operators put on edges and taken off again

An operator that is put before an input or behind an output can be bypassed, which gives the former
operators and edges back; so what holds when an operator is taken out (`Graph.Contracts`) holds in the
other direction when one is put in. Either way the other operators reach each other as before.
-/

namespace StagePlanner

open Relation

namespace Graph

variable {graph : Graph}

/-- The operators of both graphs reach each other as before, and no circuit is closed. -/
structure SameReach (graph result : Graph) : Prop where
  reach : ∀ source ∈ graph.operatorIds, source ∈ result.operatorIds →
    ∀ target ∈ graph.operatorIds, target ∈ result.operatorIds →
      (TransGen result.Feeds source target ↔ TransGen graph.Feeds source target)
  acyclic : graph.Acyclic → result.Acyclic

variable {result : Graph}

/-- Taking out an operator keeps which of the others reach each other. -/
theorem Contracts.sameReach {id : OperatorId} (contracts : graph.Contracts result id) :
    graph.SameReach result := by
  have differs : ∀ other ∈ result.operatorIds, other ≠ id := by
    intro other listed
    obtain ⟨operator, member, rfl⟩ := mem_operatorIds.1 listed
    exact ((contracts.operators operator).1 member).2
  exact ⟨fun source _ sourceStays target _ targetStays =>
    contracts.transGen_iff (differs source sourceStays) (differs target targetStays),
    contracts.acyclic⟩

namespace Interposed

variable {operator : Operator} {entry exit : PortId} {sources targets : PortId → Prop}
  (interposed : graph.Interposed result operator entry exit sources targets)
  (wellFormed : graph.WellFormed) (resultWellFormed : result.WellFormed)

include interposed

theorem threads : result.Threads operator entry exit :=
  ⟨interposed.isMember, interposed.inputs, interposed.outputs⟩

theorem mem_operators_iff (other : Operator) :
    other ∈ graph.operators ↔ other ∈ result.operators ∧ other.id ≠ operator.id := by
  rw [interposed.operators]
  constructor
  · exact fun member => ⟨.inl member,
      fun same => interposed.fresh (mem_operatorIds.2 ⟨other, member, same⟩)⟩
  · rintro ⟨member | rfl, differs⟩
    · exact member
    · exact absurd rfl differs

include wellFormed resultWellFormed

/-- Without the operator the graph is what it was. -/
theorem contracts : result.Contracts graph operator.id := by
  refine ⟨wellFormed, interposed.mem_operators_iff, fun source target => ⟨fun feeds => ?_, ?_⟩⟩
  · obtain ⟨⟨producer, isProducer, isSource⟩, consumer, isConsumer, isTarget⟩ := feeds.operators
    exact ⟨isSource ▸ ((interposed.mem_operators_iff producer).1 isProducer).2,
      isTarget ▸ ((interposed.mem_operators_iff consumer).1 isConsumer).2,
      interposed.feeds_or_past feeds⟩
  · rintro ⟨notSource, notTarget, direct | ⟨into, out⟩⟩
    · exact interposed.feeds_direct resultWellFormed notSource notTarget direct
    · exact interposed.feeds_past wellFormed resultWellFormed into out

theorem sameReach : graph.SameReach result :=
  ⟨fun _ isSource _ _ isTarget _ => ((interposed.contracts wellFormed resultWellFormed).transGen_iff
    (ne_of_mem_of_not_mem isSource interposed.fresh)
    (ne_of_mem_of_not_mem isTarget interposed.fresh)).symm,
    (interposed.acyclic_iff wellFormed resultWellFormed).2⟩

/-- The edges at the input of the operator come from the outputs before it. -/
theorem into_entry_iff {source : PortId} : ⟨source, entry⟩ ∈ result.edges ↔ sources source := by
  rw [interposed.edges]
  constructor
  · rintro (⟨old, -⟩ | ⟨isSource, -⟩ | ⟨-, isTarget⟩)
    · exact absurd rfl (interposed.ne_of_edge wellFormed resultWellFormed old).2.1
    · exact isSource
    · exact absurd rfl (interposed.ne_of_targets resultWellFormed isTarget).1
  · exact fun isSource => .inr (.inl ⟨isSource, rfl⟩)

theorem out_of_exit_iff {target : PortId} : ⟨exit, target⟩ ∈ result.edges ↔ targets target := by
  rw [interposed.edges]
  constructor
  · rintro (⟨old, -⟩ | ⟨isSource, -⟩ | ⟨-, isTarget⟩)
    · exact absurd rfl (interposed.ne_of_edge wellFormed resultWellFormed old).1.2
    · exact absurd rfl (interposed.ne_of_sources resultWellFormed isSource).2
    · exact isTarget
  · exact fun isTarget => .inr (.inr ⟨rfl, isTarget⟩)

/-- Bypassing the operator gives the former operators and edges back. -/
theorem exists_bypass : ∃ restored, (Edit.bypass operator.id).Yields result () restored ∧
    restored.operators = graph.operators ∧ restored.edges = graph.edges := by
  have loopless : ⟨exit, entry⟩ ∉ result.edges := fun loop =>
    (interposed.ne_of_sources resultWellFormed
      ((interposed.into_entry_iff wellFormed resultWellFormed).1 loop)).2 rfl
  obtain ⟨_, restored, yields⟩ := Edit.succeeds_bypass resultWellFormed interposed.threads loopless
  refine ⟨restored, yields, ?_, OrderedSet.ext fun ⟨source, target⟩ => ?_⟩
  · have contracts := Edit.contracts_bypass resultWellFormed yields
    exact contracts.wellFormed.operators_ext wellFormed fun other =>
      (contracts.operators other).trans (interposed.mem_operators_iff other).symm
  obtain ⟨bypassed, first, last, sameId, threads, -, edges⟩ :=
    Edit.yields_bypass resultWellFormed yields
  obtain rfl := resultWellFormed.operator_unique threads.member interposed.isMember sameId
  obtain rfl := List.singleton_injective (threads.inputs.symm.trans interposed.inputs)
  obtain rfl := List.singleton_injective (threads.outputs.symm.trans interposed.outputs)
  rw [edges, mem_edges_without, threads.ports, interposed.into_entry_iff wellFormed resultWellFormed,
    interposed.out_of_exit_iff wellFormed resultWellFormed, interposed.edges, List.mem_pair,
    List.mem_pair, not_or, not_or]
  constructor
  · rintro (⟨⟨old, -⟩ | ⟨-, same⟩ | ⟨same, -⟩, notSource, notTarget⟩ | ⟨isSource, isTarget⟩)
    · exact old
    · exact absurd same notTarget.1
    · exact absurd same notSource.2
    · exact interposed.joined source target isSource isTarget
  · intro isEdge
    by_cases between : sources source ∧ targets target
    · exact .inr between
    · exact .inl ⟨.inl ⟨isEdge, between⟩, interposed.ne_of_edge wellFormed resultWellFormed isEdge⟩

end Interposed

end Graph

namespace EditCall

variable {graph result : Graph}

/-- The call puts an operator on edges or takes one off. -/
def splices : EditCall → Bool
  | .insertBefore .. | .insertAfter .. | .bypass .. => true
  | _ => false

/-- The call puts an operator on edges. -/
def inserts : EditCall → Bool
  | .insertBefore .. | .insertAfter .. => true
  | _ => false

/-- Putting an operator on edges or taking one off keeps which other operators reach each other and
closes no circuit. What is put on can be bypassed, which gives the former operators, with their ports,
and the former edges back. -/
theorem splicing_keeps_reach (wellFormed : graph.WellFormed) {call : EditCall}
    (splices : call.splices = true) {answer : EditAnswer}
    (yields : call.edit.Yields graph answer result) :
    graph.SameReach result ∧ (call.inserts = true → ∃ id restored, answer = .created id ∧
      (Edit.bypass id).Yields result () restored ∧
        restored.operators = graph.operators ∧ restored.edges = graph.edges) := by
  cases call with
  | insertBefore input blueprint =>
    obtain ⟨id, _, inserts, rfl, rfl⟩ := Edit.yields_bind.1 yields
    have resultWellFormed := (Edit.keeps_insertBefore input blueprint).wellFormed wellFormed inserts
    obtain ⟨-, rfl, -, interposed⟩ := Edit.yields_insertBefore wellFormed inserts
    obtain ⟨restored, back⟩ := interposed.exists_bypass wellFormed resultWellFormed
    exact ⟨interposed.sameReach wellFormed resultWellFormed, fun _ => ⟨_, restored, rfl, back⟩⟩
  | insertAfter output blueprint =>
    obtain ⟨id, _, inserts, rfl, rfl⟩ := Edit.yields_bind.1 yields
    have resultWellFormed := (Edit.keeps_insertAfter output blueprint).wellFormed wellFormed inserts
    obtain ⟨-, rfl, -, interposed⟩ := Edit.yields_insertAfter wellFormed inserts
    obtain ⟨restored, back⟩ := interposed.exists_bypass wellFormed resultWellFormed
    exact ⟨interposed.sameReach wellFormed resultWellFormed, fun _ => ⟨_, restored, rfl, back⟩⟩
  | bypass id =>
    obtain ⟨_, _, bypasses, -, rfl⟩ := Edit.yields_bind.1 yields
    exact ⟨(Edit.contracts_bypass wellFormed bypasses).sameReach, nofun⟩
  | _ => cases splices

/-- A checkpoint before an input that the projection behind it and another one feed takes over both
edges, and bypassing it gives them back. -/
theorem splicing_keeps_reach_rebuildSample : ∃ result restored,
    (insertBefore ⟨0⟩ (.core .checkpoint (.named "t"))).edit.Yields Graph.rebuildSample (.created ⟨2⟩)
      result ∧
    result.edges = .ofList [⟨⟨2⟩, ⟨1⟩⟩, ⟨⟨2⟩, ⟨3⟩⟩, ⟨⟨2⟩, ⟨5⟩⟩, ⟨⟨4⟩, ⟨5⟩⟩, ⟨⟨6⟩, ⟨0⟩⟩] ∧
    Graph.rebuildSample.SameReach result ∧
    (Edit.bypass ⟨2⟩).Yields result () restored ∧ restored.edges = Graph.rebuildSample.edges := by
  have yields : (insertBefore ⟨0⟩ (.core .checkpoint (.named "t"))).edit.Yields Graph.rebuildSample
      (.created ⟨2⟩)
      ((insertBefore ⟨0⟩ (.core .checkpoint (.named "t"))).edit.apply Graph.rebuildSample).2 := rfl
  obtain ⟨sameReach, back⟩ := splicing_keeps_reach Graph.wellFormed_rebuildSample rfl yields
  obtain ⟨_, restored, answered, bypasses, -, edges⟩ := back rfl
  obtain rfl := EditAnswer.created.inj answered
  exact ⟨_, restored, yields, by decide, sameReach, bypasses, edges⟩

end EditCall

end StagePlanner
