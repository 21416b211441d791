import Mathlib.Data.List.Basic
import Mathlib.Logic.Relation
import StagePlanner.Dependency.Circuit

/-!
# What the search finds

`Reach.reachable` finds exactly the vertices with a nonempty way from a start on which
every step ends in the given set. The argument follows the search: what is still unseen
shrinks by what a visit finds, and a way that meets a found vertex goes on from the work list.
-/

namespace StagePlanner.Reach

open Relation

variable {α : Type} [DecidableEq α]

/-- One step of a search that stays inside a set. -/
def StepInto (next : α → List α) (inside : List α) (source target : α) : Prop :=
  target ∈ next source ∧ target ∈ inside

omit [DecidableEq α] in
theorem StepInto.mono {next : α → List α} {smaller larger : List α} (included : smaller ⊆ larger)
    {source target : α} (taken : StepInto next smaller source target) :
    StepInto next larger source target :=
  ⟨taken.1, included taken.2⟩

/-- A way from the work list either ends at a vertex that a visit finds or goes on, without these,
from the work list that the visit leaves. -/
theorem transGen_visit {next : α → List α} {unseen work : List α} {item start target : α}
    (startWork : start ∈ item :: work) (way : TransGen (StepInto next unseen) start target) :
    target ∈ unseen.filter (fun other => other ∈ next item) ∨
      ∃ origin ∈ work ++ unseen.filter (fun other => other ∈ next item),
        TransGen (StepInto next (unseen.filter fun other => other ∉ next item)) origin target := by
  have step : ∀ {source target}, StepInto next unseen source target →
      target ∉ unseen.filter (fun other => other ∈ next item) →
      StepInto next (unseen.filter fun other => other ∉ next item) source target := by
    intro source target taken fresh
    refine ⟨taken.1, List.mem_filter.2 ⟨taken.2, ?_⟩⟩
    simpa [taken.2] using fresh
  induction way with
  | @single target last =>
    by_cases found : target ∈ unseen.filter fun other => other ∈ next item
    · exact .inl found
    · rcases List.mem_cons.1 startWork with same | later
      · subst same
        exact absurd (List.mem_filter.2 ⟨last.2, by simpa using last.1⟩) found
      · exact .inr ⟨start, List.mem_append_left _ later, .single (step last found)⟩
  | @tail middle target _ last ih =>
    by_cases found : target ∈ unseen.filter fun other => other ∈ next item
    · exact .inl found
    · rcases ih with middleFound | ⟨origin, originWork, before⟩
      · exact .inr ⟨middle, List.mem_append_right _ middleFound, .single (step last found)⟩
      · exact .inr ⟨origin, originWork, before.tail (step last found)⟩

/-- With enough rounds the search adds exactly what can be reached from the work list. -/
theorem mem_explore {next : α → List α} {rounds : Nat} {unseen work seen : List α} {vertex : α}
    (enough : work.length + unseen.length ≤ rounds) :
    vertex ∈ explore next rounds unseen work seen ↔
      vertex ∈ seen ∨ ∃ start ∈ work, TransGen (StepInto next unseen) start vertex := by
  induction rounds generalizing unseen work seen with
  | zero =>
    have workEmpty : work = [] := List.length_eq_zero_iff.1 (by omega)
    simp [explore, workEmpty]
  | succ rounds ih =>
    cases work with
    | nil => simp [explore]
    | cons item work =>
      have split := List.length_eq_length_filter_add (l := unseen)
        fun other => decide (other ∈ next item)
      have remaining : (work ++ unseen.filter fun other => decide (other ∈ next item)).length +
          (unseen.filter fun other => decide (other ∉ next item)).length ≤ rounds := by
        simp only [List.length_append, List.length_cons, decide_not] at enough ⊢
        omega
      simp only [explore]
      rw [ih remaining]
      constructor
      · rintro (member | ⟨start, startWork, way⟩)
        · rcases List.mem_append.1 member with old | found
          · exact .inl old
          · refine .inr ⟨item, by simp, .single ?_⟩
            have both := List.mem_filter.1 found
            exact ⟨by simpa using both.2, both.1⟩
        · have wider : TransGen (StepInto next unseen) start vertex :=
            way.lift id fun _ _ => StepInto.mono fun _ => List.mem_of_mem_filter
          rcases List.mem_append.1 startWork with later | found
          · exact .inr ⟨start, List.mem_cons_of_mem _ later, wider⟩
          · have both := List.mem_filter.1 found
            exact .inr ⟨item, by simp, .head ⟨by simpa using both.2, both.1⟩ wider⟩
      · rintro (old | ⟨start, startWork, way⟩)
        · exact .inl (List.mem_append_left _ old)
        · rcases transGen_visit startWork way with found | continued
          · exact .inl (List.mem_append_right _ found)
          · exact .inr continued

/-- The search finds the ends of the nonempty ways from a start that stay inside the set. -/
theorem mem_reachable {next : α → List α} {vertices starts : List α} {vertex : α} :
    vertex ∈ reachable next vertices starts ↔
      ∃ start ∈ starts, TransGen (StepInto next vertices) start vertex := by
  simp [reachable, mem_explore]

end StagePlanner.Reach
