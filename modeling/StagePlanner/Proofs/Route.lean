import Mathlib.Algebra.BigOperators.Group.Finset.Basic
import Mathlib.Data.Finite.Sigma
import Mathlib.Data.Finite.Sum
import Mathlib.Data.Fintype.BigOperators
import Mathlib.SetTheory.Cardinal.Finite
import StagePlanner.Proofs.Circuitless

/-!
# Counting routes

A route goes along the steps of a relation from a vertex to a goal. Where steps branch finitely and
cannot be taken forever there are finitely many routes, and their number is given by one equation
for each vertex (`Route.card_eq`). Passing over a vertex by shortcuts keeps the number of routes
unless a shortcut falls together with a step (`Bypasses.card_route`), and a relation has no more
routes than another one when its routes can be lifted to that one.
-/

namespace StagePlanner

open Relation

variable {α : Type}

/-- A route along steps from a vertex to some goal. -/
inductive Route (step : α → α → Prop) (goal : α → Prop) : α → Type
  | stop {vertex : α} (reached : goal vertex) : Route step goal vertex
  | go {source next : α} (first : step source next) (rest : Route step goal next) :
      Route step goal source

/-- Steps branch finitely and cannot be taken forever. -/
structure Finitary (step : α → α → Prop) : Prop where
  branching : ∀ source, { target | step source target }.Finite
  founded : WellFounded fun target source => step source target

namespace Finitary

variable {step : α → α → Prop}

/-- A circuitless relation whose steps end in a finite set is finitary. -/
theorem of_circuitless (circuitless : Circuitless step) (targets : List α)
    (inside : ∀ source target, step source target → target ∈ targets) : Finitary step where
  branching source := (targets.finite_toSet).subset fun target taken => inside source target taken
  founded := circuitless.wellFounded targets inside

theorem irreflexive (finitary : Finitary step) (vertex : α) : ¬ step vertex vertex :=
  finitary.founded.irrefl.irrefl vertex

end Finitary

namespace Route

variable {step : α → α → Prop} {goal : α → Prop}

/-- A route stops where it starts or goes on from the next vertex. -/
def unfold (source : α) :
    Route step goal source ≃ PLift (goal source) ⊕
      (target : { target // step source target }) × Route step goal target.1 where
  toFun
    | stop reached => .inl ⟨reached⟩
    | go first rest => .inr ⟨⟨_, first⟩, rest⟩
  invFun
    | .inl reached => stop reached.down
    | .inr ⟨target, rest⟩ => go target.2 rest
  left_inv route := by cases route <;> rfl
  right_inv parts := by rcases parts with reached | ⟨target, rest⟩ <;> rfl

/-- There are finitely many routes. -/
theorem finite (finitary : Finitary step) (source : α) : Finite (Route step goal source) := by
  induction source using finitary.founded.induction with
  | _ source ih =>
    have targets : Finite { target // step source target } := finitary.branching source
    have rests : ∀ target : { target // step source target }, Finite (Route step goal target.1) :=
      fun target => ih target.1 target.2
    exact Finite.of_equiv _ (unfold source).symm

/-- The number of routes from a vertex is given by the numbers of routes from the next vertices. -/
theorem card_eq [DecidablePred goal] (finitary : Finitary step) (source : α) :
    Nat.card (Route step goal source) =
      (if goal source then 1 else 0) +
        ∑ target ∈ (finitary.branching source).toFinset, Nat.card (Route step goal target) := by
  have targets : Fintype { target // step source target } := (finitary.branching source).fintype
  have rests : ∀ target : { target // step source target }, Finite (Route step goal target.1) :=
    fun target => finite finitary target.1
  rw [Nat.card_congr (unfold source), Nat.card_sum, Nat.card_sigma]
  congr 1
  · split
    · next reached => exact Nat.card_eq_one_iff_unique.2 ⟨⟨fun ⟨_⟩ ⟨_⟩ => rfl⟩, ⟨⟨reached⟩⟩⟩
    · next missed =>
      have empty : IsEmpty (PLift (goal source)) := ⟨fun reached => missed reached.down⟩
      exact Nat.card_of_isEmpty
  · exact (Finset.sum_subtype _ (fun target => (finitary.branching source).mem_toFinset)
      fun target => Nat.card (Route step goal target)).symm

/-! ### Counting by listing the next vertices -/

/-- The number of routes, counted along lists of the next vertices; nothing where the bound on their
length is too small. -/
def count? (next : α → List α) (isGoal : α → Bool) : Nat → α → Option Nat
  | 0, _ => none
  | bound + 1, source => do
    let onward ← (next source).mapM (count? next isGoal bound)
    return (if isGoal source then 1 else 0) + onward.sum

/-- What is counted is the number of routes. -/
theorem card_eq_of_count? (finitary : Finitary step) {next : α → List α} {isGoal : α → Bool}
    (listed : ∀ source target, target ∈ next source ↔ step source target)
    (distinct : ∀ source, (next source).Nodup) (goals : ∀ vertex, isGoal vertex = true ↔ goal vertex)
    {bound number : Nat} {source : α} (counted : count? next isGoal bound source = some number) :
    Nat.card (Route step goal source) = number := by
  classical
  induction bound generalizing source number with
  | zero => cases counted
  | succ bound ih =>
    have onwards : ∀ {targets : List α} {numbers : List Nat},
        targets.mapM (count? next isGoal bound) = some numbers →
          numbers = targets.map fun target => Nat.card (Route step goal target) := by
      intro targets
      induction targets with
      | nil =>
        intro numbers each
        cases each
        rfl
      | cons target rest onward =>
        intro numbers each
        rw [List.mapM_cons] at each
        obtain ⟨first, isFirst, others⟩ := Option.bind_eq_some_iff.1 each
        obtain ⟨remaining, isRemaining, same⟩ := Option.bind_eq_some_iff.1 others
        cases same
        rw [onward isRemaining, List.map_cons, ih isFirst]
    rw [count?] at counted
    obtain ⟨numbers, each, same⟩ := Option.bind_eq_some_iff.1 counted
    cases same
    have targets : (finitary.branching source).toFinset = (next source).toFinset := by
      ext target
      rw [Set.Finite.mem_toFinset, List.mem_toFinset, listed]
      rfl
    rw [card_eq finitary, targets, List.sum_toFinset _ (distinct source), ← onwards each]
    simp only [goals]

end Route

/-! ### Passing over a vertex -/

/-- A relation has no circuit if one with shortcuts past some vertex has none. -/
theorem Circuitless.of_bypassed {short step : α → α → Prop} (circuitless : Circuitless short)
    {vertex : α} (loopless : ¬ step vertex vertex)
    (direct : ∀ source target, source ≠ vertex → target ≠ vertex → step source target →
      short source target)
    (past : ∀ source target, source ≠ vertex → target ≠ vertex → step source vertex →
      step vertex target → short source target) : Circuitless step := by
  intro start around
  by_cases isVertex : start = vertex
  · subst isVertex
    obtain ⟨other, differs, circuit, -⟩ := exists_beside around loopless
    exact circuitless other (transGen_around circuit differs differs direct past)
  · exact circuitless start (transGen_around around isVertex isVertex direct past)

/-- A relation in which steps through a vertex are replaced by shortcuts past it. -/
structure Bypasses (short step : α → α → Prop) (vertex : α) : Prop where
  /-- The steps that remain avoid the vertex; every other one leads past it. -/
  steps : ∀ source target, short source target ↔
    source ≠ vertex ∧ target ≠ vertex ∧
      (step source target ∨ step source vertex ∧ step vertex target)
  /-- No shortcut falls together with a step. -/
  apart : ∀ source target, step source vertex → step vertex target → ¬ step source target

namespace Bypasses

variable {short step : α → α → Prop} {vertex : α}

theorem transGen (bypasses : Bypasses short step vertex) {source target : α}
    (taken : short source target) : TransGen step source target := by
  obtain ⟨-, -, direct | ⟨before, after⟩⟩ := (bypasses.steps source target).1 taken
  · exact .single direct
  · exact .tail (.single before) after

theorem finitary (bypasses : Bypasses short step vertex) (finitary : Finitary step) :
    Finitary short where
  branching source := by
    refine ((finitary.branching source).union (finitary.branching vertex)).subset ?_
    intro target taken
    obtain ⟨-, -, direct | ⟨-, after⟩⟩ := (bypasses.steps source target).1 taken
    · exact .inl direct
    · exact .inr after
  founded := by
    refine Subrelation.wf (r := TransGen fun target source => step source target) ?_
      finitary.founded.transGen
    intro target source taken
    exact transGen_swap.1 (bypasses.transGen taken)

/-- Without a step to the vertex a shortcut leads nowhere else than a step. -/
theorem branching_of_not_step (bypasses : Bypasses short step vertex) (finitary : Finitary step)
    (shortFinitary : Finitary short) {source : α} (differs : source ≠ vertex)
    (notThrough : ¬ step source vertex) :
    (shortFinitary.branching source).toFinset = (finitary.branching source).toFinset := by
  ext target
  simp only [Set.Finite.mem_toFinset, Set.mem_ofPred_eq, bypasses.steps, notThrough, false_and, or_false]
  constructor
  · exact fun taken => taken.2.2
  · intro taken
    exact ⟨differs, fun isVertex => notThrough (isVertex ▸ taken), taken⟩

/-- With a step to the vertex shortcuts lead where the vertex does, in its place. -/
theorem branching_of_step [DecidableEq α] (bypasses : Bypasses short step vertex)
    (finitary : Finitary step) (shortFinitary : Finitary short) {source : α} (differs : source ≠ vertex)
    (through : step source vertex) :
    (shortFinitary.branching source).toFinset =
      (finitary.branching source).toFinset.erase vertex ∪ (finitary.branching vertex).toFinset := by
  ext target
  simp only [Set.Finite.mem_toFinset, Set.mem_ofPred_eq, bypasses.steps, through, true_and,
    Finset.mem_union, Finset.mem_erase]
  constructor
  · rintro ⟨-, differ, direct | after⟩
    · exact .inl ⟨differ, direct⟩
    · exact .inr after
  · rintro (⟨differ, direct⟩ | after)
    · exact ⟨differs, differ, .inl direct⟩
    · exact ⟨differs, fun same => finitary.irreflexive vertex (same ▸ after), .inr after⟩

/-- A sum over the next vertices stays the same when the vertex contributes what its own next vertices
contribute. -/
theorem sum_branching (bypasses : Bypasses short step vertex) (finitary : Finitary step)
    (shortFinitary : Finitary short) {source : α} (differs : source ≠ vertex) {number : α → Nat}
    (beyond : number vertex = ∑ target ∈ (finitary.branching vertex).toFinset, number target) :
    ∑ target ∈ (shortFinitary.branching source).toFinset, number target =
      ∑ target ∈ (finitary.branching source).toFinset, number target := by
  classical
  by_cases through : step source vertex
  · have disjoint : Disjoint ((finitary.branching source).toFinset.erase vertex)
        (finitary.branching vertex).toFinset := by
      refine Finset.disjoint_left.2 fun target direct after => ?_
      simp only [Finset.mem_erase, Set.Finite.mem_toFinset] at direct after
      exact bypasses.apart source target through after direct.2
    have isStep : vertex ∈ (finitary.branching source).toFinset :=
      (Set.Finite.mem_toFinset _).2 through
    rw [bypasses.branching_of_step finitary shortFinitary differs through,
      Finset.sum_union disjoint, ← beyond, Finset.sum_erase_add _ _ isStep]
  · rw [bypasses.branching_of_not_step finitary shortFinitary differs through]

/-- Shortcuts past a vertex that is no goal keep the number of routes. -/
theorem card_route {goal : α → Prop} (bypasses : Bypasses short step vertex)
    (finitary : Finitary step) (noGoal : ¬ goal vertex) {source : α} (differs : source ≠ vertex) :
    Nat.card (Route short goal source) = Nat.card (Route step goal source) := by
  classical
  have shortFinitary := bypasses.finitary finitary
  -- The routes from the vertex go on with one of its own steps.
  have beyond : Nat.card (Route step goal vertex) = _ := Route.card_eq finitary vertex
  rw [if_neg noGoal, Nat.zero_add] at beyond
  induction source using shortFinitary.founded.induction with
  | _ source ih =>
    have continued : ∑ target ∈ (shortFinitary.branching source).toFinset,
        Nat.card (Route short goal target) =
          ∑ target ∈ (shortFinitary.branching source).toFinset, Nat.card (Route step goal target) := by
      refine Finset.sum_congr rfl fun target member => ?_
      have taken : short source target := (Set.Finite.mem_toFinset _).1 member
      exact ih target taken ((bypasses.steps source target).1 taken).2.1
    rw [Route.card_eq shortFinitary, Route.card_eq finitary source, continued,
      bypasses.sum_branching finitary shortFinitary differs beyond]

end Bypasses

end StagePlanner

/-! ## Lifting routes

A relation has no more routes than another one when its routes are images of routes of the other
one. Routes from one vertex are told apart by the vertices on them (`Route.trace_injective`), so it
is enough to lift every trace (`Route.card_le_of_traces`). Where vertices are mapped one by one,
routes are lifted from their start (`Route.card_le_of_forward`), or from their end where the start
alone does not tell which way they take (`Route.card_le_of_backward`). -/

namespace StagePlanner

namespace Route

variable {α β : Type}

/-- The vertices on a route. -/
def trace {step : α → α → Prop} {goal : α → Prop} {source : α} : Route step goal source → List α
  | stop _ => [source]
  | go _ rest => source :: rest.trace

section Traces

variable {step : α → α → Prop} {goal : α → Prop}

theorem exists_trace_eq {source : α} (route : Route step goal source) :
    ∃ rest, route.trace = source :: rest := by
  cases route with
  | stop => exact ⟨[], rfl⟩
  | go _ rest => exact ⟨rest.trace, rfl⟩

/-- Routes from one vertex are told apart by the vertices on them. -/
theorem trace_injective {source : α} :
    Function.Injective (trace : Route step goal source → List α) := by
  intro left
  induction left with
  | stop =>
    intro right same
    cases right with
    | stop => rfl
    | go _ rest =>
      obtain ⟨later, isTrace⟩ := rest.exists_trace_eq
      simp [trace, isTrace] at same
  | @go source next _ rest ih =>
    intro right same
    cases right with
    | stop =>
      obtain ⟨later, isTrace⟩ := rest.exists_trace_eq
      simp [trace, isTrace] at same
    | @go _ other _ others =>
      have rests : rest.trace = others.trace := (List.cons.inj same).2
      obtain ⟨_, leftTrace⟩ := rest.exists_trace_eq
      obtain ⟨_, rightTrace⟩ := others.exists_trace_eq
      obtain rfl : next = other := (List.cons.inj (leftTrace.symm.trans (rests.trans rightTrace))).1
      rw [ih rests]

end Traces

variable {step : α → α → Prop} {goal : α → Prop} {image : β → β → Prop} {target : β → Prop}

/-- There are no more routes than there are routes whose traces cover theirs. -/
theorem card_le_of_traces (finitary : Finitary step) {source : α} {start : β}
    (shorten : List α → List β)
    (covered : ∀ route : Route image target start,
      ∃ lifted : Route step goal source, shorten lifted.trace = route.trace) :
    Nat.card (Route image target start) ≤ Nat.card (Route step goal source) := by
  have finite : Finite (Route step goal source) := Route.finite finitary source
  choose lift isLift using covered
  refine Nat.card_le_card_of_injective lift fun left right same => trace_injective ?_
  rw [← isLift left, ← isLift right, same]

/-- Routes whose steps are images of steps can be lifted from their start on. -/
theorem card_le_of_forward (finitary : Finitary step) (map : α → β) (inside : α → Prop)
    (steps : ∀ vertex, inside vertex → ∀ next, image (map vertex) next →
      ∃ onward, map onward = next ∧ inside onward ∧ step vertex onward)
    (goals : ∀ vertex, inside vertex → target (map vertex) → goal vertex)
    (source : α) (isInside : inside source) :
    Nat.card (Route image target (map source)) ≤ Nat.card (Route step goal source) := by
  have lifts : ∀ start (route : Route image target start) source, map source = start →
      inside source → ∃ lifted : Route step goal source, lifted.trace.map map = route.trace := by
    intro start route
    induction route with
    | stop reached =>
      rintro source rfl isInside
      exact ⟨stop (goals source isInside reached), rfl⟩
    | go first _ ih =>
      rintro source rfl isInside
      obtain ⟨onward, isNext, stillInside, taken⟩ := steps source isInside _ first
      obtain ⟨rest, isRest⟩ := ih onward isNext stillInside
      exact ⟨go taken rest, by rw [trace, trace, List.map_cons, isRest]⟩
  exact card_le_of_traces finitary (List.map map) fun route => lifts _ route source rfl isInside

/-- Routes whose steps are images of steps with any given end can be lifted from their end on. -/
theorem card_le_of_backward (finitary : Finitary step) (map : α → β)
    (steps : ∀ vertex onward, image vertex (map onward) →
      ∃ before, map before = vertex ∧ step before onward)
    (goals : ∀ vertex, target vertex → ∃ before, map before = vertex ∧ goal before)
    (source : α) (alone : ∀ other, map other = map source → other = source) :
    Nat.card (Route image target (map source)) ≤ Nat.card (Route step goal source) := by
  have lifts : ∀ start (route : Route image target start), ∃ source, map source = start ∧
      ∃ lifted : Route step goal source, lifted.trace.map map = route.trace := by
    intro start route
    induction route with
    | stop reached =>
      obtain ⟨source, rfl, isGoal⟩ := goals _ reached
      exact ⟨source, rfl, stop isGoal, rfl⟩
    | go first _ ih =>
      obtain ⟨onward, rfl, rest, isRest⟩ := ih
      obtain ⟨source, rfl, taken⟩ := steps _ onward first
      exact ⟨source, rfl, go taken rest, by rw [trace, trace, List.map_cons, isRest]⟩
  refine card_le_of_traces finitary (List.map map) fun route => ?_
  obtain ⟨other, same, lifted⟩ := lifts _ route
  obtain rfl := alone other same
  exact lifted

end Route

end StagePlanner
