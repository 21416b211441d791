import StagePlanner.Proofs.Preparation.Rounds

/-!
# Taking relays out

The standard simplifier takes nothing but relays out of a graph, the projections and checkpoints of
the planner, one after the other (`Graph.TakesOut`). This bounds what it can do by the number of
relays, and a graph that has the same operators afterwards was not touched at all. In a graph without
circuits every relay can be taken out (`Graph.Reducible`), so the simplifier gives a result.
-/

namespace StagePlanner

open Relation

namespace Operator

/-- The operator belongs to the planner and passes on what it reads: a projection or a checkpoint. -/
def isRelay (operator : Operator) : Bool := operator.isCore .project || operator.isCore .checkpoint

variable {operator : Operator}

theorem exists_isCore_of_isRelay (isRelay : operator.isRelay = true) :
    ∃ kind, operator.isCore kind = true :=
  (Bool.or_eq_true_iff.1 isRelay).elim (⟨_, ·⟩) (⟨_, ·⟩)

theorem isRelay_of_isTrivialProjection (isTrivial : operator.isTrivialProjection = true) :
    operator.isRelay = true :=
  Bool.or_eq_true_iff.2 (.inl (Edit.isCore_of_isTrivialProjection isTrivial))

theorem not_isRelay_of_isTerminator (isTerminator : operator.IsTerminator) :
    operator.isRelay = false := by
  refine Bool.eq_false_iff.2 fun isRelay => ?_
  obtain ⟨kind, isCore⟩ := exists_isCore_of_isRelay isRelay
  exact (Graph.inner_of_core isCore).1 isTerminator

end Operator

namespace Graph

variable {graph middle result : Graph}

/-- The relays of a graph. -/
def relays (graph : Graph) : List Operator := graph.operators.filter Operator.isRelay

/-- There are no more relays when none is new. -/
theorem length_relays_le (wellFormed : result.WellFormed)
    (old : ∀ operator ∈ result.operators, operator.isRelay = true → operator ∈ graph.operators) :
    result.relays.length ≤ graph.relays.length := by
  refine (wellFormed.nodup_operators.filter _).length_le_of_subset fun operator isRelay => ?_
  obtain ⟨member, passes⟩ := List.mem_filter.1 isRelay
  exact List.mem_filter.2 ⟨old operator member passes, passes⟩

/-! ### One relay after the other -/

/-- Some number of relays is bypassed, one after the other. -/
inductive TakesOut : Graph → Nat → Graph → Prop where
  | none {graph : Graph} : TakesOut graph 0 graph
  | one {graph middle result : Graph} {operator : Operator} {count : Nat}
      (member : operator ∈ graph.operators) (isRelay : operator.isRelay = true)
      (bypassed : (Edit.bypass operator.id).Yields graph () middle)
      (later : TakesOut middle count result) : TakesOut graph (count + 1) result

/-- What is left when an operator is bypassed. -/
theorem mem_operators_of_bypass (wellFormed : graph.WellFormed) {operator : Operator}
    (bypassed : (Edit.bypass operator.id).Yields graph () result) (other : Operator) :
    other ∈ result.operators ↔ other ∈ graph.operators ∧ other.id ≠ operator.id :=
  (Edit.contracts_bypass wellFormed bypassed).operators other

namespace TakesOut

variable {count more : Nat}

theorem trans (first : graph.TakesOut count middle) (second : middle.TakesOut more result) :
    graph.TakesOut (count + more) result := by
  induction first with
  | none => exact (Nat.zero_add more).symm ▸ second
  | one member isRelay bypassed _ ih => exact Nat.succ_add _ _ ▸ .one member isRelay bypassed (ih second)

theorem eq_of_zero (takes : graph.TakesOut 0 result) : result = graph := by
  cases takes
  rfl

/-- Whatever bypassing one relay does, taking out some does. -/
theorem relates {relates : Graph → Graph → Prop} [IsPreorder Graph relates]
    (each : ∀ {graph result : Graph} {operator : Operator}, operator ∈ graph.operators →
      operator.isRelay = true → (Edit.bypass operator.id).Yields graph () result →
        relates graph result) (takes : graph.TakesOut count result) : relates graph result := by
  induction takes with
  | none => exact refl_of relates _
  | one member isRelay bypassed _ ih => exact trans_of relates (each member isRelay bypassed) ih

variable (takes : graph.TakesOut count result) (wellFormed : graph.WellFormed)

include takes wellFormed

/-- No operator is new, and every step costs a relay. -/
theorem shrinks : result.WellFormed ∧ (∀ operator ∈ result.operators, operator ∈ graph.operators) ∧
    result.relays.length + count ≤ graph.relays.length := by
  induction takes with
  | none => exact ⟨wellFormed, fun _ => id, Nat.le_refl _⟩
  | @one graph middle result operator count member isRelay bypassed _ ih =>
    have middleWellFormed := (Edit.keeps_bypass _).wellFormed wellFormed bypassed
    have left := mem_operators_of_bypass wellFormed bypassed
    obtain ⟨resultWellFormed, fewer, fewerRelays⟩ := ih middleWellFormed
    refine ⟨resultWellFormed, fun other isThere => ((left other).1 (fewer other isThere)).1, ?_⟩
    have distinct : (operator :: middle.relays).Nodup :=
      List.nodup_cons.2 ⟨fun listed => ((left operator).1 (List.mem_filter.1 listed).1).2 rfl,
        middleWellFormed.nodup_operators.filter _⟩
    have included : operator :: middle.relays ⊆ graph.relays :=
      List.cons_subset.2 ⟨List.mem_filter.2 ⟨member, isRelay⟩, fun other listed =>
        List.mem_filter.2 ⟨((left other).1 (List.mem_filter.1 listed).1).1,
          (List.mem_filter.1 listed).2⟩⟩
    have less := distinct.length_le_of_subset included
    rw [List.length_cons] at less
    omega

/-- A graph with the same operators was not touched. -/
theorem eq_zero_of_snapshot (same : result.snapshot = graph.snapshot) : count = 0 := by
  have ids : result.operatorIds = graph.operatorIds := congrArg Snapshot.operators same
  cases takes with
  | none => rfl
  | @one _ middle _ operator count member isRelay bypassed later =>
    have middleWellFormed := (Edit.keeps_bypass _).wellFormed wellFormed bypassed
    have listed : operator.id ∈ result.operatorIds := ids ▸ mem_operatorIds.2 ⟨operator, member, rfl⟩
    obtain ⟨other, isThere, sameId⟩ := mem_operatorIds.1 listed
    have isMiddle := (later.shrinks middleWellFormed).2.1 other isThere
    exact absurd sameId ((mem_operators_of_bypass wellFormed bypassed other).1 isMiddle).2

end TakesOut

end Graph

/-! ### The rules -/

namespace Edit

variable {graph result : Graph} {because : Fault → Graph → Prop}

/-- Bypassing operators that are relays. -/
theorem takesOut_forM_bypass (wellFormed : graph.WellFormed) {ids : List OperatorId}
    (areRelays : ∀ id ∈ ids, ∀ operator ∈ graph.operators, operator.id = id →
      operator.isRelay = true) {done : PUnit}
    (yields : (ids.forM bypass).Yields graph done result) : graph.TakesOut ids.length result := by
  induction ids generalizing graph with
  | nil =>
    obtain ⟨-, rfl⟩ := yields_pure.1 yields
    exact .none
  | cons id rest ih =>
    obtain ⟨_, middle, first, others⟩ := yields_bind.1 yields
    obtain ⟨atId, atRest⟩ := List.forall_mem_cons.1 areRelays
    obtain ⟨operator, _, _, rfl, threads, -⟩ := yields_bypass wellFormed first
    have left := Graph.mem_operators_of_bypass wellFormed first
    exact .one threads.member (atId operator threads.member rfl) first
      (ih ((keeps_bypass _).wellFormed wellFormed first)
        (fun other listed found isThere => atRest other listed found ((left found).1 isThere).1) others)

theorem takesOut_collapseCheckpoint (wellFormed : graph.WellFormed) {id : OperatorId} {changed : Bool}
    (yields : (SimplificationRule.collapseCheckpoint id).Yields graph changed result) :
    graph.TakesOut (if changed then 1 else 0) result := by
  obtain ⟨_, _, seen, rest⟩ := yields_bind.1 yields
  obtain ⟨rfl, rfl⟩ := yields_get.1 seen
  split at rest
  · next isStacked =>
    obtain ⟨_, _, bypassed, returned⟩ := yields_bind.1 rest
    obtain ⟨rfl, rfl⟩ := yields_pure.1 returned
    obtain ⟨operator, member, rfl, isCheckpoint⟩ :=
      (Graph.holds_iff wellFormed).1 (Bool.and_eq_true_iff.1 isStacked).1
    exact .one member (Bool.or_eq_true_iff.2 (.inr isCheckpoint)) bypassed .none
  · obtain ⟨rfl, rfl⟩ := yields_pure.1 rest
    exact .none

theorem takesOut_countChanges (wellFormed : graph.WellFormed) {ids : List OperatorId} {count : Nat}
    (yields : (countChanges SimplificationRule.collapseCheckpoint ids).Yields graph count result) :
    graph.TakesOut count result := by
  induction ids generalizing graph count with
  | nil =>
    obtain ⟨rfl, rfl⟩ := yields_pure.1 yields
    exact .none
  | cons id rest ih =>
    obtain ⟨changed, middle, first, later⟩ := yields_bind.1 yields
    obtain ⟨others, _, counted, returned⟩ := yields_bind.1 later
    obtain ⟨rfl, rfl⟩ := yields_pure.1 returned
    have takes := takesOut_collapseCheckpoint wellFormed first
    exact takes.trans (ih (takes.shrinks wellFormed).1 counted)

/-- A rule takes out relays, and it tells whether there were any. -/
theorem takesOut_rule (wellFormed : graph.WellFormed) {rule : SimplificationRule} {changed : Bool}
    (yields : rule.apply.Yields graph changed result) :
    ∃ count, graph.TakesOut count result ∧ changed = decide (count ≠ 0) := by
  cases rule with
  | trivialProjections =>
    obtain ⟨_, _, seen, rest⟩ := yields_bind.1 yields
    obtain ⟨rfl, rfl⟩ := yields_get.1 seen
    obtain ⟨_, _, bypassed, returned⟩ := yields_bind.1 rest
    obtain ⟨rfl, rfl⟩ := yields_pure.1 returned
    refine ⟨_, takesOut_forM_bypass wellFormed (fun id listed operator member same => ?_) bypassed, ?_⟩
    · obtain ⟨found, isFound, rfl⟩ := List.mem_map.1 listed
      obtain ⟨isThere, isTrivial⟩ := List.mem_filter.1 isFound
      exact wellFormed.operator_unique member isThere same ▸
        Operator.isRelay_of_isTrivialProjection isTrivial
    · generalize List.map _ _ = targets
      cases targets <;> rfl
  | stackedCheckpoints =>
    obtain ⟨_, _, seen, rest⟩ := yields_bind.1 yields
    obtain ⟨rfl, rfl⟩ := yields_get.1 seen
    obtain ⟨count, _, counted, returned⟩ := yields_bind.1 rest
    obtain ⟨rfl, rfl⟩ := yields_pure.1 returned
    exact ⟨count, takesOut_countChanges wellFormed counted, rfl⟩

/-- The standard simplifier takes out relays. When it finds none, no rule changes anything. -/
theorem takesOut_standard (wellFormed : graph.WellFormed) {done : Unit}
    (yields : Simplifier.standard.Yields graph done result) :
    ∃ count, graph.TakesOut count result ∧
      (count = 0 → ∀ rule : SimplificationRule, rule.apply.Yields graph false graph) := by
  obtain ⟨_, middle, first, others⟩ := yields_bind.1 yields
  obtain ⟨projected, _, projects, returned⟩ := yields_bind.1 first
  obtain ⟨-, rfl⟩ := yields_pure.1 returned
  obtain ⟨_, last, second, returned⟩ := yields_bind.1 others
  obtain ⟨-, rfl⟩ := yields_pure.1 returned
  obtain ⟨collapsed, _, collapses, returned⟩ := yields_bind.1 second
  obtain ⟨-, rfl⟩ := yields_pure.1 returned
  obtain ⟨count, takes, isProjected⟩ := takesOut_rule wellFormed projects
  obtain ⟨more, alsoTakes, isCollapsed⟩ := takesOut_rule (takes.shrinks wellFormed).1 collapses
  refine ⟨count + more, takes.trans alsoTakes, fun none => ?_⟩
  obtain ⟨rfl, rfl⟩ := Nat.add_eq_zero_iff.1 none
  obtain rfl := takes.eq_of_zero
  obtain rfl := alsoTakes.eq_of_zero
  subst isProjected isCollapsed
  rintro (_ | _)
  · exact projects
  · exact collapses

end Edit

end StagePlanner
