import StagePlanner.OrderedSet

/-!
# Iteration

How often a computation runs again: never, on a change of some batch
parameters, or always. `Iteration.merge` is the join of this order.

* `merge_assoc`, `merge_comm`, `merge_self`, `never_merge` and `always_merge` make it a bounded
  semilattice.
-/

namespace StagePlanner

/-- When a computation has to run again. -/
inductive Iteration where
  | never
  | parameters (names : OrderedSet String)
  | always
  deriving DecidableEq, Repr

namespace Iteration

instance : Inhabited Iteration := ⟨.never⟩

/-- Reruns whenever one of the named parameters changes. -/
def onChangeOf (names : List String) : Iteration := .parameters (OrderedSet.ofList names)

/-- Whether the computation ever runs again. -/
def isIterative : Iteration → Bool
  | .never => false
  | _ => true

/-- The weaker condition under which either computation runs again. -/
def merge : Iteration → Iteration → Iteration
  | .always, _ => .always
  | _, .always => .always
  | .never, other => other
  | other, .never => other
  | .parameters left, .parameters right => .parameters (left.union right)

/-- The merge of a list of conditions. -/
def mergeAll (iterations : List Iteration) : Iteration := iterations.foldl merge .never

@[simp] theorem never_merge (iteration : Iteration) : never.merge iteration = iteration := by
  cases iteration <;> rfl

@[simp] theorem merge_never (iteration : Iteration) : iteration.merge never = iteration := by
  cases iteration <;> rfl

@[simp] theorem always_merge (iteration : Iteration) : always.merge iteration = always := by
  cases iteration <;> rfl

@[simp] theorem merge_always (iteration : Iteration) : iteration.merge always = always := by
  cases iteration <;> rfl

theorem merge_self (iteration : Iteration) : iteration.merge iteration = iteration := by
  cases iteration with
  | parameters names => exact congrArg parameters (OrderedSet.ext fun name => by simp)
  | _ => rfl

theorem merge_comm (left right : Iteration) : left.merge right = right.merge left := by
  cases left <;> cases right <;> try rfl
  exact congrArg parameters (OrderedSet.ext fun name => by simp [or_comm])

theorem merge_assoc (first second third : Iteration) :
    (first.merge second).merge third = first.merge (second.merge third) := by
  cases first <;> cases second <;> cases third <;> try rfl
  exact congrArg parameters (OrderedSet.ext fun name => by simp [or_assoc])

end Iteration

end StagePlanner
