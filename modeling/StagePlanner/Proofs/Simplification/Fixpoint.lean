import StagePlanner.Proofs.Document.Building
import StagePlanner.Proofs.Simplification.DeadFlow
import StagePlanner.Proofs.Simplification.Relays

/-!
# Simplification comes to rest

In a graph without circuits every relay can be taken out (`Graph.Reducible`), so simplification gives a
result. Every round that changes the graph costs a relay, so there are at most as many of them as
relays; a round that changes nothing found no relay to take out, and dead flow was removed before it,
so the graph is a fixpoint of all passes (`Graph.AtRest`).
-/

namespace StagePlanner

open Relation

namespace Graph

variable {graph result : Graph}

/-- A graph without circuits, with its terminators at the ends, in which operators of the planner have
one input and one output. -/
structure Reducible (graph : Graph) : Prop where
  framed : graph.Framed
  acyclic : graph.Acyclic
  slender : ∀ operator ∈ graph.operators, operator.Slender

/-- No pass of simplification changes the graph. -/
structure AtRest (graph : Graph) : Prop where
  deadFlow : Edit.removeDeadFlow.Yields graph 0 graph
  rules : ∀ rule : SimplificationRule, rule.apply.Yields graph false graph

/-- An operator that is fed and feeds was there before terminators were attached. -/
theorem Attaches.old_between (attaches : graph.Attaches result) {before id behind : OperatorId}
    (enters : result.Feeds before id) (leaves : result.Feeds id behind) :
    ∃ operator ∈ graph.operators, operator.id = id := by
  obtain ⟨-, operator, member, rfl⟩ := enters.operators
  rcases attaches.new operator member with old | ⟨isBegin, -⟩ | ⟨isFinish, -⟩
  · exact ⟨operator, old, rfl⟩
  · exact absurd enters (attaches.framed.not_feeds_begin member isBegin)
  · exact absurd leaves (attaches.framed.not_finish_feeds member isFinish)

/-- Terminators stand on no circuit. -/
theorem Attaches.acyclic (attaches : graph.Attaches result) (acyclic : graph.Acyclic) :
    result.Acyclic := by
  intro id circuit
  obtain ⟨last, -, back⟩ := TransGen.tail'_iff.1 circuit
  obtain ⟨next, first, -⟩ := TransGen.head'_iff.1 circuit
  refine acyclic id (transGen_of_steps circuit fun source target before step after => ?_)
  obtain ⟨entering, enters⟩ : ∃ entering, result.Feeds entering source := by
    rcases ReflTransGen.cases_tail_iff .. |>.1 before with rfl | ⟨previous, -, into⟩
    · exact ⟨last, back⟩
    · exact ⟨previous, into⟩
  obtain ⟨leaving, leaves⟩ : ∃ leaving, result.Feeds target leaving := by
    rcases ReflTransGen.cases_head_iff .. |>.1 after with rfl | ⟨onward, out, -⟩
    · exact ⟨next, first⟩
    · exact ⟨onward, out⟩
  obtain ⟨producer, isProducer, rfl⟩ := attaches.old_between enters step
  obtain ⟨consumer, isConsumer, rfl⟩ := attaches.old_between step leaves
  exact attaches.feeds_old isProducer isConsumer step

end Graph

namespace Edit

variable {graph result : Graph} {because : Fault → Graph → Prop}

/-! ### Every pass gives a result -/

theorem reducible_removeDeadFlow (reducible : graph.Reducible) {count : Nat}
    (yields : removeDeadFlow.Yields graph count result) : result.Reducible := by
  obtain ⟨live, -, restricts, attaches⟩ := exists_live_of_removeDeadFlow reducible.framed yields
  exact ⟨attaches.framed, attaches.acyclic (restricts.acyclic reducible.acyclic),
    (Operator.passed_slender.lasting.removeDeadFlow _ _ _ yields
      ⟨reducible.framed.wellFormed, reducible.slender⟩).each⟩

/-- Removing dead flow adds no relay. -/
theorem length_relays_removeDeadFlow (framed : graph.Framed) {count : Nat}
    (yields : removeDeadFlow.Yields graph count result) :
    result.relays.length ≤ graph.relays.length := by
  obtain ⟨live, -, restricts, attaches⟩ := exists_live_of_removeDeadFlow framed yields
  refine Graph.length_relays_le attaches.framed.wellFormed fun operator member isRelay => ?_
  rcases attaches.new operator member with old | attached
  · exact ((restricts.operators operator).1 old).1
  · have isTerminator : operator.IsTerminator := attached.imp And.left And.left
    rw [Operator.not_isRelay_of_isTerminator isTerminator] at isRelay
    cases isRelay

/-- Dead flow can be removed, and nothing dead is left. -/
theorem ends_removeDeadFlow_reducible (reducible : graph.Reducible) :
    removeDeadFlow.Ends graph (fun _ result => result.Reducible ∧
      result.relays.length ≤ graph.relays.length ∧ result.deadOperators = []) because :=
  (succeeds_removeDeadFlow reducible.framed.wellFormed).ends fun _ _ yields =>
    ⟨reducible_removeDeadFlow reducible yields, length_relays_removeDeadFlow reducible.framed yields,
      deadOperators_of_removeDeadFlow reducible.framed.wellFormed reducible.framed.oneInput yields⟩

theorem reducible_bypass (reducible : graph.Reducible) {id : OperatorId} {done : Unit}
    (yields : (bypass id).Yields graph done result) : result.Reducible := by
  obtain ⟨framed, fewer⟩ := framed_bypass reducible.framed yields
  exact ⟨framed, (contracts_bypass reducible.framed.wellFormed yields).acyclic reducible.acyclic,
    fun operator member => reducible.slender operator (fewer operator member)⟩

/-- Without circuits no relay feeds itself, so it can be bypassed. -/
theorem succeeds_bypass_relay (reducible : graph.Reducible) {operator : Operator}
    (member : operator ∈ graph.operators) (isRelay : operator.isRelay = true) :
    (bypass operator.id).Succeeds graph := by
  obtain ⟨kind, isCore⟩ := Operator.exists_isCore_of_isRelay isRelay
  obtain ⟨entry, exit, threads⟩ := (reducible.slender operator member).threads member isCore
  exact succeeds_bypass reducible.framed.wellFormed threads (threads.loopless reducible.acyclic)

theorem ends_trivialProjections_reducible (reducible : graph.Reducible) :
    SimplificationRule.trivialProjections.apply.Ends graph (fun _ => Graph.Reducible) because := by
  have wellFormed := reducible.framed.wellFormed
  refine Ends.get_bind ((Ends.forM (fun rest changed => changed.Reducible ∧ rest.Nodup ∧
    ∀ id ∈ rest, ∃ operator ∈ changed.operators, operator.id = id ∧ operator.isRelay = true)
    ⟨reducible, wellFormed.nodup_operatorIds.sublist (List.filter_sublist.map _), fun id listed => ?_⟩
    ?_).bind fun _ _ finished => Ends.pure finished.1)
  · obtain ⟨operator, found, same⟩ := List.mem_map.1 listed
    obtain ⟨member, isTrivial⟩ := List.mem_filter.1 found
    exact ⟨operator, member, same, Operator.isRelay_of_isTrivialProjection isTrivial⟩
  · rintro id rest changed ⟨changedReducible, distinct, known⟩
    obtain ⟨notLater, restDistinct⟩ := List.nodup_cons.1 distinct
    obtain ⟨⟨operator, member, rfl, isRelay⟩, knownRest⟩ := List.forall_mem_cons.1 known
    refine (succeeds_bypass_relay changedReducible member isRelay).ends fun _ middle yields =>
      ⟨reducible_bypass changedReducible yields, restDistinct, fun other listed => ?_⟩
    obtain ⟨found, isThere, rfl, alsoRelay⟩ := knownRest other listed
    refine ⟨found, (Graph.mem_operators_of_bypass changedReducible.framed.wellFormed yields found).2
      ⟨isThere, fun same => notLater ?_⟩, rfl, alsoRelay⟩
    exact same ▸ listed

theorem ends_stackedCheckpoints_reducible (reducible : graph.Reducible) :
    SimplificationRule.stackedCheckpoints.apply.Ends graph (fun _ => Graph.Reducible) because := by
  refine Ends.get_bind ((Ends.countChanges (fun _ changed => changed.Reducible) reducible
    fun id rest changed changedReducible => Ends.get_bind ?_).bind fun _ _ finished => .pure finished)
  split
  · next stacked =>
    obtain ⟨operator, member, rfl, isCheckpoint⟩ := (Graph.holds_iff
      changedReducible.framed.wellFormed).1 (Bool.and_eq_true_iff.1 stacked).1
    have bypasses : (bypass operator.id).Ends changed (fun _ => Graph.Reducible) because :=
      (succeeds_bypass_relay changedReducible member (Bool.or_eq_true_iff.2 (.inr isCheckpoint))).ends
        fun _ _ => reducible_bypass changedReducible
    exact bypasses.bind fun _ _ kept => Ends.pure kept
  · exact Ends.pure changedReducible

theorem ends_standard_reducible (reducible : graph.Reducible) :
    Simplifier.standard.Ends graph (fun _ => Graph.Reducible) because :=
  (ends_trivialProjections_reducible reducible).discard.bind fun _ _ kept =>
    (ends_stackedCheckpoints_reducible kept).discard.bind fun _ _ also => Ends.pure also

/-! ### Rounds -/

/-- There are at most as many rounds as relays, and the graph is at rest when they converge. -/
theorem ends_settle_standard (done remaining : Nat) (reducible : graph.Reducible) :
    (Simplifier.standard.settle done remaining).Ends graph
      (fun outcome result => outcome.steps ≤ done + graph.relays.length ∧
        (graph.relays.length < remaining → outcome.converged = true) ∧
        (outcome.converged = true → result.AtRest)) because := by
  induction remaining generalizing graph done with
  | zero =>
    exact (ends_removeDeadFlow_reducible reducible).bind fun _ _ _ => Ends.pure ⟨by simp, by simp, nofun⟩
  | succ remaining ih =>
    refine (ends_removeDeadFlow_reducible reducible).bind
      fun _ middle ⟨middleReducible, fewer, noneDead⟩ => Ends.get_bind ?_
    have wellFormed := middleReducible.framed.wellFormed
    refine ((ends_standard_reducible middleReducible).mono fun _ last yields lastReducible =>
      And.intro lastReducible (takesOut_standard wellFormed yields)).bind
        fun _ last ⟨lastReducible, count, takes, idle⟩ => Ends.get_bind ?_
    obtain ⟨-, -, lost⟩ := takes.shrinks wellFormed
    split
    · next same =>
      obtain rfl := takes.eq_zero_of_snapshot wellFormed same
      obtain rfl := takes.eq_of_zero
      exact Ends.pure ⟨by simp, by simp, fun _ => ⟨yields_removeDeadFlow_of_nil noneDead, idle rfl⟩⟩
    · next changed =>
      have some : count ≠ 0 := by
        rintro rfl
        exact changed (congrArg Graph.snapshot takes.eq_of_zero)
      refine (ih (done + 1) lastReducible).mono fun outcome result _ ⟨bounded, converges, rests⟩ =>
        ⟨?_, fun enough => converges ?_, rests⟩ <;> omega

/-- A simplifier is asked for no more rounds than allowed, and for fewer only if the graph came to
rest. Nothing but the simplifier itself can fail. -/
theorem ends_settle_any {simplifier : Simplifier} (keeps : Keeps simplifier) (done remaining : Nat)
    (wellFormed : graph.WellFormed) :
    (simplifier.settle done remaining).Ends graph
      (fun outcome _ => outcome.steps ≤ done + remaining ∧
        (outcome.converged = false → outcome.steps = done + remaining))
      fun fault result => ∃ before : Graph, before.WellFormed ∧
        simplifier.apply before = (.error fault, result) := by
  have removes : ∀ graph : Graph, graph.WellFormed → removeDeadFlow.Ends graph
      (fun _ => Graph.WellFormed) fun fault result => ∃ before : Graph, before.WellFormed ∧
        simplifier.apply before = (.error fault, result) :=
    fun graph wellFormed => (succeeds_removeDeadFlow wellFormed).ends fun _ _ yields =>
      keeps_removeDeadFlow.wellFormed wellFormed yields
  have simplifies : ∀ graph : Graph, graph.WellFormed → simplifier.Ends graph
      (fun _ => Graph.WellFormed) fun fault result => ∃ before : Graph, before.WellFormed ∧
        simplifier.apply before = (.error fault, result) := by
    intro graph wellFormed
    rw [Ends]
    split
    · next _ result yields => exact keeps.wellFormed wellFormed yields
    · next fault result fails => exact ⟨graph, wellFormed, fails⟩
  induction remaining generalizing graph done with
  | zero =>
    exact (removes graph wellFormed).bind fun _ _ _ => Ends.pure ⟨Nat.le_refl _, fun _ => rfl⟩
  | succ remaining ih =>
    refine (removes graph wellFormed).bind fun _ middle middleWellFormed => Ends.get_bind
      ((simplifies middle middleWellFormed).bind fun _ last lastWellFormed => Ends.get_bind ?_)
    split
    · exact Ends.pure ⟨Nat.le_add_right _ _, by simp⟩
    · refine (ih (done + 1) lastWellFormed).mono fun outcome result _ settled => ?_
      rw [Nat.add_right_comm, Nat.add_assoc] at settled
      exact settled

/-- The graph of a document without circuits is reducible. -/
theorem reducible_build {document : Document} {named : NamedGraph}
    (described : document.build = .ok named) (acyclic : named.graph.Acyclic) : named.graph.Reducible :=
  ⟨Document.framed_build described, acyclic, (Document.unmarked_build described).slender⟩

/-- Simplification of a document without circuits gives a result after at most as many rounds as the
document has projections and checkpoints of the planner; a higher limit lets it converge, and then no
pass changes the graph any more. Any other simplifier is kept to the limit as well, and does not
converge only if it reaches the limit, unless one of its passes fails. -/
theorem optimize_comes_to_rest {document : Document} {named : NamedGraph}
    (described : document.build = .ok named) (acyclic : named.graph.Acyclic) :
    (∀ limit, (Simplifier.standard.optimize limit).Ends named.graph
      (fun outcome result => outcome.steps ≤ named.graph.relays.length ∧
        (named.graph.relays.length + 1 ≤ limit → outcome.converged = true) ∧
        (outcome.converged = true → removeDeadFlow.Yields result 0 result ∧
          SimplificationRule.trivialProjections.apply.Yields result false result ∧
          SimplificationRule.stackedCheckpoints.apply.Yields result false result))
      fun _ _ => False) ∧
    ∀ simplifier : Simplifier, Keeps simplifier → ∀ limit, ∀ graph : Graph, graph.WellFormed →
      (simplifier.optimize limit).Ends graph
        (fun outcome _ => outcome.steps ≤ limit ∧ (outcome.converged = false → outcome.steps = limit))
        fun fault result => ∃ before : Graph, before.WellFormed ∧
          simplifier.apply before = (.error fault, result) := by
  constructor
  · intro limit
    refine (ends_settle_standard 0 limit (reducible_build described acyclic)).mono
      fun outcome result _ ⟨few, converges, rests⟩ =>
        ⟨few.trans_eq (Nat.zero_add _), converges, fun converged => ?_⟩
    have atRest := rests converged
    exact ⟨atRest.deadFlow, atRest.rules _, atRest.rules _⟩
  · intro simplifier keeps limit graph wellFormed
    have ends := ends_settle_any keeps 0 limit wellFormed
    rwa [Nat.zero_add] at ends

/-- Rows pass a projection and two checkpoints. -/
def relaySample : Document where
  operators := [
    { id := "table", kind := "input", type := some (.named "row") },
    { id := "same", kind := "project", type := some (.named "row") },
    { id := "first", kind := "checkpoint", type := some (.named "row") },
    { id := "second", kind := "checkpoint", type := some (.named "row") },
    { id := "result", kind := "output", type := some (.named "row") }]
  edges := [⟨"table", "same"⟩, ⟨"same", "first"⟩, ⟨"first", "second"⟩, ⟨"second", "result"⟩]

theorem keeps_restless : Keeps Simplifier.restless := by
  refine Keeps.get.bind fun graph => ?_
  split
  · exact keeps_bypass _
  · split
    · exact fun _ wellFormed => wellFormed
    · exact (Keeps.look _).bind fun _ => (keeps_insertAfter _ _).bind fun _ => Keeps.pure _

/-- With three relays four rounds are enough, and the restless simplifier uses up all that it gets. -/
theorem optimize_comes_to_rest_relaySample : ∃ named : NamedGraph, relaySample.build = .ok named ∧
    named.graph.Acyclic ∧
    (∃ outcome result, (Simplifier.standard.optimize 4).Yields named.graph outcome result ∧
      outcome.steps ≤ 3 ∧ outcome.converged = true ∧ removeDeadFlow.Yields result 0 result) ∧
    ∃ outcome result, (Simplifier.restless.optimize 4).Yields named.graph outcome result ∧
      outcome.steps = 4 := by
  have computed : (relaySample.build.map fun named => decide
      (named.graph.dependencies.circuits = [] ∧ named.graph.relays.length = 3 ∧
        ((Simplifier.standard.optimize 4).apply named.graph).1.isOk = true ∧
        ((Simplifier.restless.optimize 4).apply named.graph).1.map LoopOutcome.converged =
          .ok false)).toOption = some true := by decide +kernel
  obtain ⟨named, described, holds⟩ := exists_of_map_toOption computed
  obtain ⟨noCircuits, three, succeeds, restless⟩ := of_decide_eq_true holds
  have wellFormed := (Document.regular_build described).wellFormed
  have acyclic : named.graph.Acyclic := (Graph.circuitless_dependencies_iff wellFormed).1
    ((DependencyGraph.circuits_eq_nil_iff Graph.dependencies_wellFormed).1 noCircuits)
  obtain ⟨settles, limited⟩ := optimize_comes_to_rest described acyclic
  refine ⟨named, described, acyclic, ?_, ?_⟩
  · obtain ⟨outcome, isOutcome⟩ := exists_of_isOk succeeds
    have yields : (Simplifier.standard.optimize 4).Yields named.graph outcome _ :=
      Prod.ext isOutcome rfl
    have ends := settles 4
    rw [Ends, yields] at ends
    obtain ⟨few, converges, rests⟩ := ends
    have converged := converges (by omega)
    exact ⟨outcome, _, yields, three ▸ few, converged, (rests converged).1⟩
  · obtain ⟨outcome, isOutcome, short⟩ := exists_of_map_toOption (congrArg Except.toOption restless)
    have yields : (Simplifier.restless.optimize 4).Yields named.graph outcome _ :=
      Prod.ext isOutcome rfl
    have ends := limited .restless keeps_restless 4 named.graph wellFormed
    rw [Ends, yields] at ends
    exact ⟨outcome, _, yields, ends.2 short⟩

end Edit

end StagePlanner
