import StagePlanner.Proofs.Preparation.Regularity
import StagePlanner.Proofs.Preparation.Units

/-!
# Markers are numbered in order

A marker gets the next identifier and the next serial number when it is added, and no pass rebuilds
one. So the markers of a prepared graph have the same order by identifiers and by serial numbers
(`Planner.inStep_prepare`). This is not so for other operators, since a rebuilt operator gets a new
identifier and keeps its number.
-/

namespace StagePlanner

/-- Of two markers the one with the smaller identifier has the smaller serial number. -/
structure Graph.InStep (graph : Graph) : Prop where
  regular : graph.Regular
  markers : ∀ left ∈ graph.operators, ∀ right ∈ graph.operators, left.isMarker = true →
    right.isMarker = true → left.id.index < right.id.index → left.serial.index < right.serial.index

namespace Graph

variable {graph result : Graph}

theorem InStep.of_fewer (inStep : graph.InStep) (regular : result.Regular)
    (fewer : ∀ operator ∈ result.operators, operator.isMarker = true → operator ∈ graph.operators) :
    result.InStep where
  regular := regular
  markers left isLeft right isRight leftMarker rightMarker :=
    inStep.markers left (fewer left isLeft leftMarker) right (fewer right isRight rightMarker)
      leftMarker rightMarker

/-- An operator that is added comes last in both orders. -/
theorem InStep.of_added (inStep : graph.InStep) {blueprint : Blueprint}
    (fresh : blueprint.serial = none) (same : (graph.add blueprint).2.SameButEdges result)
    (regular : result.Regular) : result.InStep where
  regular := regular
  markers left isLeft right isRight leftMarker rightMarker before := by
    have serial : (graph.added blueprint).serial = graph.nextSerial := by
      rw [added, fresh]
      rfl
    rw [same.operators, operators_add, List.mem_append, List.mem_singleton] at isLeft isRight
    rcases isLeft with leftOld | rfl
    · rcases isRight with rightOld | rfl
      · exact inStep.markers left leftOld right rightOld leftMarker rightMarker before
      · exact serial ▸ inStep.regular.serialsBelow left leftOld
    · rcases isRight with rightOld | rfl
      · exact absurd before (inStep.regular.wellFormed.operatorsBelow right rightOld).not_gt
      · exact absurd before (lt_irrefl _)

end Graph

namespace Edit

theorem inStep_insertBefore (input : PortId) {blueprint : Blueprint}
    (fresh : blueprint.serial = none) : (insertBefore input blueprint).Preserves Graph.InStep :=
  fun graph id result yields inStep =>
    inStep.of_added fresh (yields_insertBefore inStep.regular.wellFormed yields).1
      (regular_insertBefore input fresh graph id result yields inStep.regular)

theorem inStep_insertAfter (output : PortId) {blueprint : Blueprint}
    (fresh : blueprint.serial = none) : (insertAfter output blueprint).Preserves Graph.InStep :=
  fun graph id result yields inStep =>
    inStep.of_added fresh (yields_insertAfter inStep.regular.wellFormed yields).1
      (regular_insertAfter output fresh graph id result yields inStep.regular)

end Edit

theorem Graph.lasting_inStep : Graph.Lasting Graph.InStep where
  narrows narrows inStep := by
    obtain ⟨-, fewer, -⟩ := narrows inStep.regular.wellFormed
    exact inStep.of_fewer (inStep.regular.of_narrows narrows) fun operator member _ =>
      fewer operator member
  terminator isTerminator dataType graph id result yields inStep := by
    have regular :=
      Graph.lasting_regular.terminator isTerminator dataType graph id result yields inStep.regular
    obtain ⟨-, rfl⟩ := Edit.yields_add.1 yields
    exact inStep.of_added rfl (.refl _) regular
  before input _ boundary := Edit.inStep_insertBefore input boundary.serial
  after output _ boundary := Edit.inStep_insertAfter output boundary.serial

namespace Edit

/-- Rules only take operators away. -/
theorem inStep_ofRules (rules : List SimplificationRule) :
    (Simplifier.ofRules rules).Preserves Graph.InStep :=
  Graph.lasting_inStep.of_narrows (narrows_ofRules rules)

/-- A simplifier that never comes to rest only adds operators without numbers of their own. -/
theorem inStep_restless : Simplifier.restless.Preserves Graph.InStep :=
  ensures_restless (fun id => Graph.lasting_inStep.of_narrows (narrows_bypass id)) fun output _ =>
    inStep_insertAfter output rfl

end Edit

namespace Planner

variable {ν : Type} [Volume ν] (planner : Planner ν)

/-- Fixing units rebuilds operators of users, which are no markers. -/
theorem inStep_fixUnits : planner.fixUnits.Preserves Graph.InStep := by
  intro graph count result yields inStep
  have wellFormed := inStep.regular.wellFormed
  obtain ⟨becomes, rename, fixes⟩ := Edit.fixes_fixAllUnits wellFormed yields
  refine inStep.of_fewer (planner.regular_fixUnits _ _ _ yields inStep.regular)
    fun operator member isMarker => ?_
  obtain ⟨old, isOld, rfl⟩ := (fixes.renamed.operators operator).1 member
  have notUser : old.kind.user? = none := by
    rw [Operator.isMarker, Operator.marker?, (fixes.same old isOld).kind] at isMarker
    cases kind : old.kind with
    | user definition => simp [kind, OperatorKind.marker?] at isMarker
    | _ => rfl
  rwa [(fixes.untouched wellFormed isOld notUser).1]

/-- Preparation keeps the markers in step. -/
theorem inStep_prepare (keeps : planner.simplifier.Preserves Graph.InStep) :
    planner.prepare.Preserves Graph.InStep :=
  Graph.lasting_inStep.prepare planner keeps planner.inStep_fixUnits

end Planner

end StagePlanner
