import Mathlib.Data.Set.Finite.List
import Mathlib.Logic.Relation
import Mathlib.Order.WellFounded

/-!
# Relations without circuits

A relation is circuitless when nothing reaches itself by one or more steps. Operators,
stages and groups of stages are ordered along such relations, so the ways to establish
the property and to use it are collected here, behind what is known of ways that are led
around a vertex:

- a rank that falls with every step excludes circuits,
- steps that only shorten ways of a circuitless relation form no circuit,
- steps that are added where no way goes on close none, and
- a circuitless relation whose steps end in a finite set is well founded.
-/

namespace StagePlanner

open Relation

variable {α : Type}

section Ways

variable {step other : α → α → Prop} {source target : α}

/-- A way is kept when every step on it is. -/
theorem transGen_of_steps (way : TransGen step source target)
    (keeps : ∀ first second, ReflTransGen step source first → step first second →
      ReflTransGen step second target → other first second) : TransGen other source target := by
  induction way using TransGen.head_induction_on with
  | single last => exact .single (keeps _ _ .refl last .refl)
  | head first rest ih =>
    exact .head (keeps _ _ .refl first rest.to_reflTransGen)
      (ih fun _ _ before next after => keeps _ _ (.head first before) next after)

theorem reflTransGen_of_steps (way : ReflTransGen step source target)
    (keeps : ∀ first second, ReflTransGen step source first → step first second →
      ReflTransGen step second target → other first second) : ReflTransGen other source target := by
  rcases reflTransGen_iff_eq_or_transGen.1 way with rfl | way
  · exact .refl
  · exact (transGen_of_steps way keeps).to_reflTransGen

/-- A way around a vertex is kept when steps to the vertex and from it are joined. -/
theorem transGen_around {vertex : α} (way : TransGen step source target) (start : source ≠ vertex)
    (finish : target ≠ vertex)
    (direct : ∀ first second, first ≠ vertex → second ≠ vertex → step first second →
      other first second)
    (joined : ∀ first second, first ≠ vertex → second ≠ vertex → step first vertex →
      step vertex second → other first second) : TransGen other source target := by
  suffices (source ≠ vertex → TransGen other source target) ∧
      (source = vertex → ∃ next, next ≠ vertex ∧ step vertex next ∧
        ReflTransGen other next target) from this.1 start
  clear start
  induction way using TransGen.head_induction_on with
  | @single source last =>
    exact ⟨fun start => .single (direct _ _ start finish last),
      fun start => ⟨target, finish, start ▸ last, .refl⟩⟩
  | @head source middle first _ ih =>
    refine ⟨fun start => ?_, fun start => ?_⟩ <;> by_cases atVertex : middle = vertex
    · obtain ⟨next, beyond, step, onward⟩ := ih.2 atVertex
      exact .head' (joined _ _ start beyond (atVertex ▸ first) step) onward
    · exact .head (direct _ _ start atVertex first) (ih.1 atVertex)
    · exact ih.2 atVertex
    · exact ⟨middle, atVertex, start ▸ first, (ih.1 atVertex).to_reflTransGen⟩

/-- A circuit leads through another vertex unless a vertex has a step to itself. -/
theorem exists_beside {vertex : α} (circuit : TransGen step vertex vertex)
    (loopless : ¬ step vertex vertex) :
    ∃ other, other ≠ vertex ∧ TransGen step other other ∧ TransGen step other vertex := by
  obtain ⟨next, first, rest⟩ := TransGen.head'_iff.1 circuit
  rcases reflTransGen_iff_eq_or_transGen.1 rest with rfl | rest
  · exact absurd first loopless
  · refine ⟨next, ?_, rest.tail first, rest⟩
    rintro rfl
    exact loopless first

end Ways

/-- Nothing reaches itself by one or more steps. -/
def Circuitless (step : α → α → Prop) : Prop := ∀ vertex, ¬ TransGen step vertex vertex

namespace Circuitless

variable {step : α → α → Prop}

/-- A rank falls along every way on which each step lets it fall. -/
theorem rank_lt_of_transGen {rank : α → Nat}
    (falls : ∀ source target, step source target → rank target < rank source)
    {source target : α} (way : TransGen step source target) : rank target < rank source := by
  induction way with
  | single last => exact falls _ _ last
  | tail _ last ih => exact Nat.lt_trans (falls _ _ last) ih

theorem of_rank (rank : α → Nat)
    (falls : ∀ source target, step source target → rank target < rank source) :
    Circuitless step := fun _ circuit =>
  Nat.lt_irrefl _ (rank_lt_of_transGen falls circuit)

/-- Shortcuts through a circuitless relation form no circuit. -/
theorem of_shortcuts {shortcut : α → α → Prop} (circuitless : Circuitless step)
    (through : ∀ source target, shortcut source target → TransGen step source target) :
    Circuitless shortcut := fun vertex circuit =>
  circuitless vertex (TransGen.closed through vertex vertex circuit)

theorem mono {other : α → α → Prop} (circuitless : Circuitless step)
    (included : ∀ source target, other source target → step source target) :
    Circuitless other :=
  circuitless.of_shortcuts fun source target taken => .single (included source target taken)

/-- The image of a circuitless relation under a map that reflects steps has no circuit. -/
theorem of_map {β : Type} {other : β → β → Prop} (circuitless : Circuitless step) (map : β → α)
    (included : ∀ source target, other source target → step (map source) (map target)) :
    Circuitless other := fun vertex circuit =>
  circuitless (map vertex) (circuit.lift map included)

/-- Steps that lead down the levels of a circuitless relation, or stay on a level and let a rank
fall, form no circuit. -/
theorem of_levels {β : Type} {other : β → β → Prop} (circuitless : Circuitless step) (level : β → α)
    (rank : β → Nat)
    (falls : ∀ source target, other source target → step (level source) (level target) ∨
      level target = level source ∧ rank target < rank source) : Circuitless other := by
  have descends : ∀ source target, TransGen other source target →
      TransGen step (level source) (level target) ∨
        level target = level source ∧ rank target < rank source := by
    intro source target way
    induction way with
    | single last => exact (falls _ _ last).imp_left .single
    | tail _ last ih =>
      rcases falls _ _ last with down | ⟨same, lower⟩
      · rcases ih with before | ⟨stayed, -⟩
        · exact .inl (before.tail down)
        · exact .inl (stayed ▸ .single down)
      · rw [same]
        exact ih.imp_right fun ⟨stayed, fallen⟩ => ⟨stayed, lower.trans fallen⟩
  intro vertex circuit
  rcases descends vertex vertex circuit with around | ⟨-, lower⟩
  · exact circuitless _ around
  · exact Nat.lt_irrefl _ lower

/-- The converse relation has no circuit either. -/
theorem converse (circuitless : Circuitless step) :
    Circuitless fun source target => step target source := by
  intro vertex circuit
  exact circuitless vertex (transGen_swap.1 circuit)

/-- New steps to where no step leads on close no circuit. -/
theorem of_dead_ends {other : α → α → Prop} (circuitless : Circuitless step)
    (passes : ∀ source middle target, other source middle → other middle target →
      step source middle) : Circuitless other := by
  have stays : ∀ source target next, TransGen other source target → other target next →
      TransGen step source target := by
    intro source target next way onward
    induction way generalizing next with
    | single only => exact .single (passes _ _ _ only onward)
    | tail _ last ih => exact (ih _ last).tail (passes _ _ _ last onward)
  intro vertex circuit
  obtain ⟨next, first, -⟩ := TransGen.head'_iff.1 circuit
  exact circuitless vertex (stays vertex vertex next circuit first)

/-- New steps from where no step leads to close no circuit. -/
theorem of_dead_starts {other : α → α → Prop} (circuitless : Circuitless step)
    (passes : ∀ source middle target, other source middle → other middle target →
      step middle target) : Circuitless other :=
  (circuitless.converse.of_dead_ends fun _ _ _ after before => passes _ _ _ before after).converse

/-- Steps of a circuitless relation that end in a finite set cannot be taken forever. -/
theorem wellFounded (circuitless : Circuitless step) (targets : List α)
    (inside : ∀ source target, step source target → target ∈ targets) :
    WellFounded fun target source => step source target := by
  let Inside := { vertex : α // vertex ∈ targets }
  let below : Inside → Inside → Prop := fun target source => TransGen step source.1 target.1
  have transitive : IsTrans Inside below :=
    ⟨fun _ _ _ first second => TransGen.trans second first⟩
  have irreflexive : Std.Irrefl below := ⟨fun vertex circuit => circuitless vertex.1 circuit⟩
  have finite : Finite Inside := (targets.finite_toSet).to_subtype
  have founded : WellFounded below := Finite.wellFounded_of_trans_of_irrefl below
  have accessible : ∀ vertex : Inside, Acc (fun target source => step source target) vertex.1 := by
    intro vertex
    induction vertex using founded.induction with
    | _ vertex ih =>
      refine ⟨_, fun target taken => ?_⟩
      exact ih ⟨target, inside _ _ taken⟩ (.single taken)
  exact ⟨fun vertex => ⟨_, fun target taken => accessible ⟨target, inside _ _ taken⟩⟩⟩

/-- In a nonempty finite set some member has no step inside the set. -/
theorem exists_last (circuitless : Circuitless step) {members : List α} (nonempty : members ≠ []) :
    ∃ last ∈ members, ∀ target ∈ members, ¬ step last target := by
  obtain ⟨first, firstMember⟩ := List.exists_mem_of_ne_nil members nonempty
  have inner : Circuitless fun source target => step source target ∧ target ∈ members :=
    circuitless.mono fun _ _ taken => taken.1
  have founded := inner.wellFounded members fun _ _ taken => taken.2
  obtain ⟨last, lastMember, minimal⟩ :=
    founded.has_min { vertex | vertex ∈ members } ⟨first, firstMember⟩
  exact ⟨last, lastMember, fun target member taken => minimal target member ⟨taken, member⟩⟩

end Circuitless

end StagePlanner
