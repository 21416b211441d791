/-!
# Identifiers

Operators, ports, stages and stage ports are addressed by numbers. The kind of
thing that is addressed is part of the type, so that one cannot stand for
another; in messages an identifier is written with the word for its kind.
-/

namespace StagePlanner

/-- What an identifier addresses. -/
inductive IdKind where
  | operator
  | port
  | serial
  | stage
  | stagePort
  deriving DecidableEq, Repr

/-- The word that stands before the number in messages. -/
def IdKind.word : IdKind → String
  | .operator => "OperatorId"
  | .port => "PortId"
  | .serial => "SerialNumber"
  | .stage => "SubPlanId"
  | .stagePort => "PlanPortId"

/-- A number that addresses a thing of one kind. -/
structure Id (kind : IdKind) where
  index : Nat
  deriving DecidableEq, Repr

/-- Addresses an operator within one graph. -/
abbrev OperatorId := Id .operator

/-- Addresses an operator's port within one graph. -/
abbrev PortId := Id .port

/-- Stays with an operator through copies and rebuilds. -/
abbrev SerialNumber := Id .serial

/-- Addresses a stage within one plan. -/
abbrev StageId := Id .stage

/-- Addresses a stage port within one plan. -/
abbrev StagePortId := Id .stagePort

namespace Id

variable {kind : IdKind}

instance : Ord (Id kind) := ⟨compareOn Id.index⟩

theorem compare_eq (left right : Id kind) : compare left right = compare left.index right.index :=
  rfl

instance : Std.TransOrd (Id kind) :=
  inferInstanceAs (Std.TransCmp (compareOn (Id.index : Id kind → Nat)))

instance : Std.LawfulEqOrd (Id kind) where
  eq_of_compare {left right} same := by
    rw [compare_eq] at same
    have numbers : left.index = right.index := Std.LawfulEqCmp.eq_of_compare same
    cases left; cases right; cases numbers; rfl

/-- The form used in messages, such as `PortId(3)`. -/
def text (id : Id kind) : String := kind.word ++ "(" ++ toString id.index ++ ")"

/-- The next identifier after this one. -/
def next (id : Id kind) : Id kind := ⟨id.index + 1⟩

end Id

end StagePlanner
