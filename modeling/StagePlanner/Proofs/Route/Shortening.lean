import StagePlanner.Proofs.Route

/-!
# Shortening routes

Steps past a vertex (`Past`) take it off every route: what is on the routes that are left is what was
on the routes before, without that vertex (`Route.shortens_past`). In this way no route is lost, but
two routes become one where they differ in such vertices only, and their number is the same exactly if
no two of them do (`Route.Shortens.card_eq_iff`).
-/

namespace StagePlanner

variable {α : Type}

/-- A step past a vertex: one that avoids it, or two that lead through it. -/
def Past (step : α → α → Prop) (vertex source target : α) : Prop :=
  source ≠ vertex ∧ target ≠ vertex ∧ (step source target ∨ step source vertex ∧ step vertex target)

namespace Route

variable {step short : α → α → Prop} {goal : α → Prop} {source : α}

theorem source_mem_trace (route : Route step goal source) : source ∈ route.trace := by
  obtain ⟨rest, isTrace⟩ := route.exists_trace_eq
  exact isTrace ▸ List.mem_cons_self

/-- What holds at the goal, and before a step whenever it holds behind it, holds everywhere. -/
theorem forall_mem_trace {holds : α → Prop} (route : Route step goal source)
    (goals : ∀ vertex, goal vertex → holds vertex)
    (steps : ∀ vertex next, step vertex next → holds next → holds vertex) :
    ∀ vertex ∈ route.trace, holds vertex := by
  induction route with
  | stop reached => exact List.forall_mem_singleton.2 (goals _ reached)
  | go first rest ih =>
    exact List.forall_mem_cons.2 ⟨steps _ _ first (ih _ rest.source_mem_trace), ih⟩

/-- A route whose steps another relation shares. -/
theorem exists_trace_of_shared (route : Route step goal source)
    (shared : ∀ vertex ∈ route.trace, ∀ next ∈ route.trace, step vertex next → short vertex next) :
    ∃ other : Route short goal source, other.trace = route.trace := by
  induction route with
  | stop reached => exact ⟨stop reached, rfl⟩
  | go first rest ih =>
    obtain ⟨other, same⟩ := ih fun vertex isThere next follows =>
      shared vertex (List.mem_cons_of_mem _ isThere) next (List.mem_cons_of_mem _ follows)
    have taken := shared _ List.mem_cons_self _
      (List.mem_cons_of_mem _ rest.source_mem_trace) first
    exact ⟨go taken other, congrArg (_ :: ·) same⟩

/-- The routes of a relation without the vertices that are not kept are the routes of another one. -/
def Shortens (kept : α → Bool) (step short : α → α → Prop) (goal : α → Prop) (source : α) : Prop :=
  ∀ trace, (∃ route : Route short goal source, route.trace = trace) ↔
    ∃ route : Route step goal source, route.trace.filter kept = trace

/-- Relations that share the steps on their routes have the same routes. -/
theorem shortens_of_shared
    (onward : ∀ route : Route step goal source, ∀ vertex ∈ route.trace, ∀ next ∈ route.trace,
      step vertex next → short vertex next)
    (back : ∀ route : Route short goal source, ∀ vertex ∈ route.trace, ∀ next ∈ route.trace,
      short vertex next → step vertex next) :
    Shortens (fun _ => true) step short goal source := by
  have whole : ∀ trace : List α, trace.filter (fun _ => true) = trace :=
    fun _ => List.filter_eq_self.2 fun _ _ => rfl
  intro trace
  constructor
  · rintro ⟨route, rfl⟩
    obtain ⟨other, same⟩ := route.exists_trace_of_shared (back route)
    exact ⟨other, (whole _).trans same⟩
  · rintro ⟨route, rfl⟩
    obtain ⟨other, same⟩ := route.exists_trace_of_shared (onward route)
    exact ⟨other, same.trans (whole _).symm⟩

/-- Steps past a vertex take it off every route. -/
theorem shortens_past [DecidableEq α] {vertex : α} (loopless : ¬ step vertex vertex)
    (notGoal : ¬ goal vertex) (notSource : source ≠ vertex) :
    Shortens (fun other => decide (other ≠ vertex)) step (Past step vertex) goal source := by
  have keep : ∀ {other : α} (rest : List α), other ≠ vertex →
      (other :: rest).filter (fun other => decide (other ≠ vertex)) =
        other :: rest.filter fun other => decide (other ≠ vertex) :=
    fun rest differs => List.filter_cons_of_pos (decide_eq_true differs)
  have drop : ∀ rest : List α, (vertex :: rest).filter (fun other => decide (other ≠ vertex)) =
      rest.filter fun other => decide (other ≠ vertex) :=
    fun rest => List.filter_cons_of_neg (by simp)
  intro trace
  constructor
  · rintro ⟨route, rfl⟩
    induction route with
    | stop reached => exact ⟨stop reached, keep [] notSource⟩
    | go first rest ih =>
      obtain ⟨-, notNext, direct | ⟨into, out⟩⟩ := id first
      · obtain ⟨longer, same⟩ := ih notNext
        exact ⟨go direct longer, (keep _ notSource).trans (congrArg _ same)⟩
      · obtain ⟨longer, same⟩ := ih notNext
        refine ⟨go into (go out longer), (keep _ notSource).trans (congrArg _ ?_)⟩
        exact (drop _).trans same
  · rintro ⟨route, rfl⟩
    -- From the vertex itself a route goes on from where it was reached.
    suffices shorten : (source ≠ vertex → ∃ other : Route (Past step vertex) goal source,
          other.trace = route.trace.filter fun other => decide (other ≠ vertex)) ∧
        (source = vertex → ∀ before, before ≠ vertex → step before vertex →
          ∃ other : Route (Past step vertex) goal before,
            other.trace = before :: route.trace.filter fun other => decide (other ≠ vertex)) from
      shorten.1 notSource
    clear notSource
    induction route with
    | @stop source reached =>
      exact ⟨fun differs => ⟨stop reached, (keep [] differs).symm⟩,
        fun same => absurd (same ▸ reached) notGoal⟩
    | @go source next first rest ih =>
      refine ⟨fun differs => ?_, ?_⟩
      · by_cases isVertex : next = vertex
        · obtain ⟨other, same⟩ := ih.2 isVertex source differs (isVertex ▸ first)
          exact ⟨other, same.trans (keep _ differs).symm⟩
        · obtain ⟨other, same⟩ := ih.1 isVertex
          exact ⟨go ⟨differs, isVertex, .inl first⟩ other,
            (congrArg (source :: ·) same).trans (keep _ differs).symm⟩
      · rintro rfl before differs into
        have notNext : next ≠ source := fun same => loopless (same ▸ first)
        obtain ⟨other, same⟩ := ih.1 notNext
        exact ⟨go ⟨differs, notNext, .inr ⟨into, first⟩⟩ other,
          congrArg (before :: ·) (same.trans (drop _).symm)⟩

namespace Shortens

variable {kept : α → Bool}

theorem trans {last : α → α → Prop} {also : α → Bool} (first : Shortens kept step short goal source)
    (second : Shortens also short last goal source) :
    Shortens (fun vertex => also vertex && kept vertex) step last goal source := by
  intro trace
  rw [second]
  constructor
  · rintro ⟨middle, rfl⟩
    obtain ⟨route, same⟩ := (first _).1 ⟨middle, rfl⟩
    exact ⟨route, by rw [← same, List.filter_filter]⟩
  · rintro ⟨route, rfl⟩
    obtain ⟨middle, same⟩ := (first _).2 ⟨route, rfl⟩
    exact ⟨middle, by rw [same, List.filter_filter]⟩

/-- Only what is on the routes has to be told apart. -/
theorem congr {also : α → Bool} (shortens : Shortens kept step short goal source)
    (same : ∀ route : Route step goal source, ∀ vertex ∈ route.trace, kept vertex = also vertex) :
    Shortens also step short goal source := fun trace => by
  rw [shortens]
  exact exists_congr fun route => by rw [List.filter_congr (same route)]

/-- Every route is shortened to one. -/
theorem exists_surjective (shortens : Shortens kept step short goal source) :
    ∃ shorten : Route step goal source → Route short goal source, Function.Surjective shorten ∧
      ∀ route, (shorten route).trace = route.trace.filter kept := by
  choose shorten isShort using fun route : Route step goal source => (shortens _).2 ⟨route, rfl⟩
  refine ⟨shorten, fun other => ?_, isShort⟩
  obtain ⟨route, same⟩ := (shortens _).1 ⟨other, rfl⟩
  exact ⟨route, trace_injective ((isShort route).trans same)⟩

variable (shortens : Shortens kept step short goal source) [Finite (Route step goal source)]

include shortens

theorem finite : Finite (Route short goal source) := by
  obtain ⟨shorten, surjective, -⟩ := shortens.exists_surjective
  exact .of_surjective shorten surjective

theorem card_le : Nat.card (Route short goal source) ≤ Nat.card (Route step goal source) := by
  obtain ⟨shorten, surjective, -⟩ := shortens.exists_surjective
  exact Nat.card_le_card_of_surjective shorten surjective

/-- No route is lost altogether. -/
theorem card_pos_iff : 0 < Nat.card (Route short goal source) ↔ 0 < Nat.card (Route step goal source) := by
  have finite := shortens.finite
  obtain ⟨shorten, surjective, -⟩ := shortens.exists_surjective
  rw [Nat.card_pos_iff, Nat.card_pos_iff]
  exact and_congr ⟨fun ⟨short⟩ => (surjective short).nonempty, Nonempty.map shorten⟩
    (iff_of_true finite ‹_›)

/-- There are as many routes as before unless two of them differ only in what is not kept. -/
theorem card_eq_iff : Nat.card (Route short goal source) = Nat.card (Route step goal source) ↔
    Function.Injective fun route : Route step goal source => route.trace.filter kept := by
  have finite := shortens.finite
  obtain ⟨shorten, surjective, isShort⟩ := shortens.exists_surjective
  constructor
  · intro same first second agree
    refine (surjective.bijective_of_nat_card_le same.ge).1 (trace_injective ?_)
    rw [isShort, isShort]
    exact agree
  · intro injective
    refine (Nat.card_eq_of_bijective shorten ⟨fun first second same => injective ?_, surjective⟩).symm
    change first.trace.filter kept = second.trace.filter kept
    rw [← isShort, ← isShort, same]

end Shortens

end Route

end StagePlanner
