import StagePlanner.Proofs.Assembly.Weight

/-!
# Loops of assembly without a bound

`Plan.settle` bounds the rounds of a repeated pass beforehand and stops when the plan does not get
lighter. The loops that it stands for have no bound: each of them goes on for as long as something
changes, and the loop over whole rounds contains others. `Plan.Repeats` says what such a loop comes
to; a loop that goes on forever comes to nothing.

* `Plan.Shrinks.repeats_iff`: the loop over a pass that shrinks plans comes to what `Plan.settle`
  computes and to nothing else, so it ends.
* `Plan.assembles_iff`: so does the loop of assembly, with the loops that it contains.
-/

namespace StagePlanner.Plan

/-- What a pass may come to on a plan. -/
abbrev Course : Type := Plan → Except Fault Plan → Prop

/-- The course of a single step. -/
def once (step : Plan → Except Fault Plan) : Course := fun plan outcome => step plan = outcome

/-- The course of a loop that goes on for as long as a pass changes something. -/
inductive Repeats (pass : Course) : Course
  | fails {plan : Plan} {cause : Fault} (failed : pass plan (.error cause)) :
      Repeats pass plan (.error cause)
  | rests {plan : Plan} (same : pass plan (.ok plan)) : Repeats pass plan (.ok plan)
  | again {plan next : Plan} {outcome : Except Fault Plan} (changed : pass plan (.ok next))
      (differ : next ≠ plan) (later : Repeats pass next outcome) : Repeats pass plan outcome

/-- The course of some passes after each other, of which those run that are switched on. -/
inductive InTurn : List (Bool × Course) → Course
  | done {plan : Plan} : InTurn [] plan (.ok plan)
  | skips {pass : Course} {others : List (Bool × Course)} {plan : Plan} {outcome : Except Fault Plan}
      (later : InTurn others plan outcome) : InTurn ((false, pass) :: others) plan outcome
  | fails {pass : Course} {others : List (Bool × Course)} {plan : Plan} {cause : Fault}
      (failed : pass plan (.error cause)) : InTurn ((true, pass) :: others) plan (.error cause)
  | runs {pass : Course} {others : List (Bool × Course)} {plan next : Plan}
      {outcome : Except Fault Plan} (first : pass plan (.ok next))
      (later : InTurn others next outcome) : InTurn ((true, pass) :: others) plan outcome

/-- The passes of a round of assembly, in order. Those that merge and dissolve are loops
themselves. -/
def roundCourses (passes : AssemblyPasses) (equivalence : Equivalence) : List (Bool × Course) :=
  [(passes.redundantPorts, Repeats (once (mergeOutputPair equivalence sameFeeders))),
    (passes.redundantPorts, Repeats (once (mergeInputPair equivalence))),
    (passes.unions, Repeats (once (mergeOutputPair equivalence sameConsumers))),
    (passes.checkpoints, Repeats (once dissolveForwarded)),
    (passes.unreadOutputs, once dropUnread),
    (true, once prune)]

/-- The course of the loop of assembly: rounds follow each other for as long as one changes
something. -/
def Assembles (passes : AssemblyPasses) (equivalence : Equivalence) : Course :=
  Repeats (InTurn (roundCourses passes equivalence))

/-- On proper plans a course comes to what a pass computes and to nothing else. -/
def Computes (course : Course) (pass : Plan → Except Fault Plan) : Prop :=
  ∀ plan : Plan, plan.Proper → ∀ outcome, course plan outcome ↔ outcome = pass plan

variable {plan : Plan} {pass next : Plan → Except Fault Plan} {course : Course}

theorem computes_once : Computes (once pass) pass := fun _ _ _ => eq_comm

/-! ### Loops -/

namespace Shrinks

variable (shrinks : Shrinks pass)

include shrinks

/-- More rounds than enough make no difference. -/
theorem settleFor_eq {rounds : Nat} (proper : plan.Proper) (enough : plan.weight ≤ rounds) :
    settleFor pass rounds plan = Plan.settle pass plan := by
  have grown : ∀ (rounds : Nat) (plan : Plan), plan.Proper → plan.weight ≤ rounds →
      settleFor pass (rounds + 1) plan = settleFor pass rounds plan := by
    intro rounds
    induction rounds with
    | zero =>
      intro plan proper enough
      have rests := shrinks.rests_of_weightless proper (Nat.le_zero.1 enough)
      change (pass plan >>= fun next =>
        if next.weight < plan.weight then settleFor pass 0 next else .ok next) = .ok plan
      rw [rests]
      exact if_neg (Nat.lt_irrefl _)
    | succ more ih =>
      intro plan proper enough
      change (pass plan >>= fun next =>
          if next.weight < plan.weight then settleFor pass (more + 1) next else .ok next) =
        pass plan >>= fun next =>
          if next.weight < plan.weight then settleFor pass more next else .ok next
      refine bind_congr_of_ok fun middle first => ?_
      split
      · next lighter => exact ih middle (shrinks.proper proper first) (by omega)
      · rfl
  induction rounds, enough using Nat.le_induction with
  | base => rfl
  | succ rounds enough ih => rw [grown rounds plan proper enough, ih]

/-- Settling a plan is running the pass once and settling what it leaves, unless nothing changed. -/
theorem settle_eq (proper : plan.Proper) :
    Plan.settle pass plan = pass plan >>= fun next =>
      if next = plan then .ok plan else Plan.settle pass next := by
  rw [← shrinks.settleFor_eq proper (Nat.le_succ _), settleFor]
  refine bind_congr_of_ok fun next first => ?_
  rcases shrinks.lightens plan next proper first with rfl | lightens
  · rw [if_pos rfl, if_neg (Nat.lt_irrefl _)]
    rfl
  · rw [if_neg lightens.ne, if_pos lightens.lighter]
    exact shrinks.settleFor_eq lightens.proper lightens.lighter.le

/-- A loop over a pass that shrinks plans comes to what settling computes. -/
theorem settle_of_repeats (computes : Computes course pass) {outcome : Except Fault Plan}
    (repeated : Repeats course plan outcome) (proper : plan.Proper) :
    outcome = Plan.settle pass plan := by
  induction repeated with
  | fails failed => rw [shrinks.settle_eq proper, ← (computes _ proper _).1 failed]; rfl
  | rests same =>
    rw [shrinks.settle_eq proper, ← (computes _ proper _).1 same]
    exact (if_pos rfl).symm
  | again changed differ _ ih =>
    have passed := (computes _ proper _).1 changed
    rw [ih (shrinks.proper proper passed.symm), shrinks.settle_eq proper, ← passed]
    exact (if_neg differ).symm

/-- The loop comes to it: it ends, as every round but the last makes the plan lighter. -/
theorem repeats_settle (computes : Computes course pass) (proper : plan.Proper) :
    Repeats course plan (Plan.settle pass plan) := by
  induction weight : plan.weight using Nat.strong_induction_on generalizing plan with
  | _ bound ih =>
    have stepped : ∀ outcome, pass plan = outcome → course plan outcome := fun outcome passed =>
      (computes plan proper outcome).2 passed.symm
    rw [shrinks.settle_eq proper]
    cases passed : pass plan with
    | error cause => exact .fails (stepped _ passed)
    | ok next =>
      change Repeats course plan (if next = plan then .ok plan else Plan.settle pass next)
      rcases shrinks.lightens plan next proper passed with rfl | lightens
      · rw [if_pos rfl]
        exact .rests (stepped _ passed)
      · rw [if_neg lightens.ne]
        exact .again (stepped _ passed) lightens.ne
          (ih next.weight (weight ▸ lightens.lighter) lightens.proper rfl)

theorem repeats_iff (computes : Computes course pass) : Computes (Repeats course) (Plan.settle pass) := by
  refine fun plan proper outcome =>
    ⟨fun repeated => shrinks.settle_of_repeats computes repeated proper, ?_⟩
  rintro rfl
  exact shrinks.repeats_settle computes proper

end Shrinks

/-! ### Rounds -/

theorem computes_done : Computes (InTurn []) .ok := by
  refine fun plan _ outcome => ⟨fun done => ?_, fun same => same ▸ .done⟩
  cases done
  rfl

/-- Another pass comes first. -/
theorem Computes.cons {others : List (Bool × Course)} (enabled : Bool) (shrinks : Shrinks pass)
    (first : Computes course pass) (later : Computes (InTurn others) next) :
    Computes (InTurn ((enabled, course) :: others)) fun plan => plan.runIf enabled pass >>= next := by
  intro plan proper outcome
  constructor
  · intro inTurn
    cases inTurn with
    | skips others => exact (later plan proper outcome).1 others
    | fails failed =>
      change _ = pass plan >>= next
      rw [← (first plan proper _).1 failed]
      rfl
    | runs passed others =>
      change _ = pass plan >>= next
      have same := (first plan proper _).1 passed
      rw [← same]
      exact (later _ (shrinks.proper proper same.symm) outcome).1 others
  · rintro rfl
    cases enabled with
    | false => exact .skips ((later plan proper _).2 rfl)
    | true =>
      change InTurn _ plan (pass plan >>= next)
      have stepped := (first plan proper (pass plan)).2 rfl
      cases passed : pass plan with
      | error cause => exact .fails (passed ▸ stepped)
      | ok middle =>
        exact .runs (passed ▸ stepped) ((later middle (shrinks.proper proper passed) _).2 rfl)

/-- A round comes to what is computed for it. -/
theorem computes_round (passes : AssemblyPasses) (equivalence : Equivalence) :
    Computes (InTurn (roundCourses passes equivalence)) (assemblyRound passes equivalence) := by
  have outputs := shrinks_mergeOutputPair equivalence sameFeeders
  have inputs := shrinks_mergeInputPair equivalence
  have unions := shrinks_mergeOutputPair equivalence sameConsumers
  have pruned : Computes (InTurn [(true, once prune)]) fun plan => plan.runIf true prune >>= .ok :=
    .cons true shrinks_prune computes_once computes_done
  have last : (fun plan : Plan => plan.runIf true prune >>= .ok) = prune :=
    funext fun plan => bind_pure _
  rw [last] at pruned
  exact .cons _ outputs.settle (outputs.repeats_iff computes_once)
    (.cons _ inputs.settle (inputs.repeats_iff computes_once)
      (.cons _ unions.settle (unions.repeats_iff computes_once)
        (.cons _ shrinks_dissolveForwarded.settle (shrinks_dissolveForwarded.repeats_iff computes_once)
          (.cons _ shrinks_dropUnread computes_once pruned))))

/-- The loop of assembly ends on every proper plan, and what it comes to is what settling by rounds
computes. -/
theorem assembles_iff (passes : AssemblyPasses) (equivalence : Equivalence) :
    Computes (Assembles passes equivalence) (settle (assemblyRound passes equivalence)) :=
  (shrinks_assemblyRound equivalence passes).repeats_iff (computes_round passes equivalence)

end StagePlanner.Plan
