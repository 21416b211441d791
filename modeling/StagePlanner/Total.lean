/-!
# Totals

Sums of natural numbers. A total is the plain fold, so that it means the same wherever
more algebra is known about numbers.
-/

namespace StagePlanner

/-- The sum of some numbers. -/
def total (numbers : List Nat) : Nat := numbers.foldr Nat.add 0

/-- No number adds up to zero. -/
@[simp] theorem total_nil : total [] = 0 := rfl

/-- A further number is added. -/
@[simp] theorem total_cons (number : Nat) (rest : List Nat) :
    total (number :: rest) = number + total rest := rfl

end StagePlanner
