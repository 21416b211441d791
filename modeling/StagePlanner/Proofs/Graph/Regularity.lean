import StagePlanner.Proofs.Graph.Renaming
import StagePlanner.Proofs.Stage.Soundness

/-!
# Regular graphs

A graph that is built from operators without serial numbers of their own gives out every serial
number once, and its markers have one input and one output. Edits keep it so
(`Graph.Regular`): what they add gets the next serial number, and what they rebuild keeps the number
of the operator that it replaces.
-/

namespace StagePlanner

/-- Markers have single ports, and no serial number is given out twice. -/
structure Graph.Regular (graph : Graph) : Prop where
  wellFormed : graph.WellFormed
  singlePorts : graph.SinglePortMarkers
  serials : ∀ left ∈ graph.operators, ∀ right ∈ graph.operators, left.serial = right.serial →
    left = right
  serialsBelow : ∀ operator ∈ graph.operators, operator.serial.index < graph.nextSerial.index

theorem Graph.regular_empty : Graph.empty.Regular where
  wellFormed := wellFormed_of_no_operators rfl rfl
  singlePorts _ member := absurd member List.not_mem_nil
  serials _ member := absurd member List.not_mem_nil
  serialsBelow _ member := absurd member List.not_mem_nil

/-- A well-formed graph stays well formed, no operators come up and no serial number is given out. -/
def Graph.Narrows (graph result : Graph) : Prop :=
  graph.WellFormed → result.WellFormed ∧
    (∀ operator ∈ result.operators, operator ∈ graph.operators) ∧
    result.nextSerial = graph.nextSerial

instance : IsPreorder Graph Graph.Narrows where
  refl _ wellFormed := ⟨wellFormed, fun _ member => member, rfl⟩
  trans _ _ _ first second wellFormed := by
    obtain ⟨middleWellFormed, fewer, same⟩ := first wellFormed
    obtain ⟨resultWellFormed, fewest, alsoSame⟩ := second middleWellFormed
    exact ⟨resultWellFormed, fun operator member => fewer operator (fewest operator member),
      alsoSame.trans same⟩

namespace Graph.Regular

variable {graph result : Graph} (regular : graph.Regular)

include regular

theorem nodup_serials : (graph.operators.map Operator.serial).Nodup :=
  (List.Nodup.of_map _ regular.wellFormed.nodup_operatorIds).map_on regular.serials

theorem of_narrows (narrows : graph.Narrows result) : result.Regular := by
  obtain ⟨wellFormed, fewer, same⟩ := narrows regular.wellFormed
  exact ⟨wellFormed, fun operator member => regular.singlePorts operator (fewer operator member),
    fun left isLeft right isRight => regular.serials left (fewer left isLeft) right
      (fewer right isRight),
    fun operator member => same ▸ regular.serialsBelow operator (fewer operator member)⟩

/-- An operator that is added gets the next serial number. -/
theorem add {blueprint : Blueprint} (fresh : blueprint.serial = none)
    (singlePorts : blueprint.kind.marker?.isSome = true →
      blueprint.inputs.length = 1 ∧ blueprint.outputs.length = 1) :
    (graph.add blueprint).2.Regular := by
  have serial : (graph.added blueprint).serial = graph.nextSerial := by
    rw [Graph.added, fresh]
    rfl
  have next : (graph.add blueprint).2.nextSerial = graph.nextSerial.next := by
    rw [Graph.add, fresh]
    rfl
  have member_iff : ∀ operator, operator ∈ (graph.add blueprint).2.operators ↔
      operator ∈ graph.operators ∨ operator = graph.added blueprint := fun operator => by
    rw [Graph.operators_add, List.mem_append, List.mem_singleton]
  have differ : ∀ operator ∈ graph.operators, operator.serial ≠ graph.nextSerial :=
    fun operator member same => absurd (regular.serialsBelow operator member) (by rw [same]; omega)
  refine ⟨regular.wellFormed.add blueprint, fun operator member => ?_,
    fun left isLeft right isRight same => ?_, fun operator member => ?_⟩
  · rcases (member_iff operator).1 member with old | rfl
    · exact regular.singlePorts operator old
    · exact fun isMarker => ⟨Graph.length_assignPorts.trans (singlePorts isMarker).1,
        Graph.length_assignPorts.trans (singlePorts isMarker).2⟩
  · rcases (member_iff left).1 isLeft with leftOld | rfl <;>
      rcases (member_iff right).1 isRight with rightOld | rfl
    · exact regular.serials left leftOld right rightOld same
    · exact absurd (same.trans serial) (differ left leftOld)
    · exact absurd (same.symm.trans serial) (differ right rightOld)
    · rfl
  · rw [next]
    rcases (member_iff operator).1 member with old | rfl
    · exact Nat.lt_succ_of_lt (regular.serialsBelow operator old)
    · rw [serial]
      exact Nat.lt_succ_self _

theorem of_added {blueprint : Blueprint} (fresh : blueprint.serial = none)
    (passThrough : blueprint.isPassThrough = true)
    (same : (graph.add blueprint).2.SameButEdges result) (wellFormed : result.WellFormed) :
    result.Regular := by
  simp only [Blueprint.isPassThrough, Bool.and_eq_true, decide_eq_true_eq] at passThrough
  exact (regular.add fresh fun _ => passThrough).of_narrows fun _ =>
    ⟨wellFormed, fun _ member => same.operators ▸ member, same.nextSerial⟩

/-- An operator that replaces another one port by port, with its kind and serial number. -/
theorem replaced {old new : Operator} (replaced : graph.Replaced result old new)
    (wellFormed : result.WellFormed) (serial : new.serial = old.serial) (kind : new.kind = old.kind)
    (next : result.nextSerial = graph.nextSerial) : result.Regular := by
  refine ⟨wellFormed, fun operator member isMarker => ?_, fun left isLeft right isRight same => ?_,
    fun operator member => ?_⟩
  · rcases (replaced.operators operator).1 member with ⟨isOld, -⟩ | rfl
    · exact regular.singlePorts operator isOld isMarker
    · rw [Operator.isMarker, Operator.marker?, kind] at isMarker
      rw [replaced.inputs, replaced.outputs]
      exact regular.singlePorts old replaced.member isMarker
  · rcases (replaced.operators left).1 isLeft with ⟨leftOld, leftDiffers⟩ | rfl <;>
      rcases (replaced.operators right).1 isRight with ⟨rightOld, rightDiffers⟩ | rfl
    · exact regular.serials left leftOld right rightOld same
    · exact absurd (regular.serials left leftOld old replaced.member (same.trans serial)) leftDiffers
    · exact absurd (regular.serials right rightOld old replaced.member (same.symm.trans serial))
        rightDiffers
    · rfl
  · rw [next]
    rcases (replaced.operators operator).1 member with ⟨isOld, -⟩ | rfl
    · exact regular.serialsBelow operator isOld
    · exact serial ▸ regular.serialsBelow old replaced.member

end Graph.Regular

namespace Edit

variable {α : Type} {graph result : Graph}

/-! ### Edits that only take away -/

theorem narrows_remove (id : OperatorId) : Ensures Graph.Narrows (remove id) := by
  intro graph removed result yields wellFormed
  have resultWellFormed := (keeps_remove id).wellFormed wellFormed yields
  obtain ⟨-, rfl⟩ := yields_remove.1 yields
  exact ⟨resultWellFormed, fun operator member => (Graph.mem_operators_without.1 member).1, rfl⟩

theorem narrows_connect (source target : PortId) : Ensures Graph.Narrows (connect source target) := by
  intro graph done result yields wellFormed
  have resultWellFormed := (keeps_connect source target).wellFormed wellFormed yields
  obtain ⟨-, -, rfl⟩ := yields_connect yields
  exact ⟨resultWellFormed, fun _ member => member, rfl⟩

theorem narrows_disconnect (source target : PortId) :
    Ensures Graph.Narrows (disconnect source target) := by
  intro graph wasThere result yields wellFormed
  have resultWellFormed := (keeps_disconnect source target).wellFormed wellFormed yields
  obtain rfl := yields_disconnect yields
  exact ⟨resultWellFormed, fun _ member => member, rfl⟩

theorem narrows_bypass (id : OperatorId) : Ensures Graph.Narrows (bypass id) := by
  refine (Ensures.look _).bind fun operator => ?_
  split
  · refine Ensures.get.bind fun _ => Ensures.get.bind fun _ => (narrows_remove id).bind fun _ => ?_
    exact Ensures.forM fun producer _ => Ensures.forM fun consumer _ =>
      narrows_connect producer consumer
  · exact Ensures.fail _

/-! ### Regular graphs stay regular -/

theorem Ensures.regular {edit : Edit α} (narrows : Ensures Graph.Narrows edit) :
    edit.Preserves Graph.Regular :=
  fun graph value result yields regular => regular.of_narrows (narrows graph value result yields)

theorem regular_add {blueprint : Blueprint} (fresh : blueprint.serial = none)
    (singlePorts : blueprint.kind.marker?.isSome = true →
      blueprint.inputs.length = 1 ∧ blueprint.outputs.length = 1) :
    (add blueprint).Preserves Graph.Regular := by
  intro graph id result yields regular
  obtain ⟨-, rfl⟩ := yields_add.1 yields
  exact regular.add fresh singlePorts

theorem regular_insertBefore (input : PortId) {blueprint : Blueprint}
    (fresh : blueprint.serial = none) :
    (insertBefore input blueprint).Preserves Graph.Regular := by
  intro graph id result yields regular
  obtain ⟨_, _, checked, -⟩ := yields_bind.1 yields
  exact regular.of_added fresh (yields_requirePassThrough.1 checked).1
    (yields_insertBefore regular.wellFormed yields).1
    ((keeps_insertBefore input blueprint).wellFormed regular.wellFormed yields)

theorem regular_insertAfter (output : PortId) {blueprint : Blueprint}
    (fresh : blueprint.serial = none) :
    (insertAfter output blueprint).Preserves Graph.Regular := by
  intro graph id result yields regular
  obtain ⟨_, _, checked, -⟩ := yields_bind.1 yields
  exact regular.of_added fresh (yields_requirePassThrough.1 checked).1
    (yields_insertAfter regular.wellFormed yields).1
    ((keeps_insertAfter output blueprint).wellFormed regular.wellFormed yields)

/-- A rebuilt operator keeps its serial number, and so does the counter, since it is above. -/
theorem regular_rebuild (id : OperatorId) {change : Blueprint → Blueprint}
    (serial : ∀ blueprint, (change blueprint).serial = blueprint.serial)
    (kind : ∀ blueprint, (change blueprint).kind = blueprint.kind) :
    (rebuild id change).Preserves Graph.Regular := by
  intro graph copy result yields regular
  obtain ⟨old, sameId, wellFormed, replaced⟩ := replaced_of_rebuild regular.wellFormed yields
  have chosen : (change old.blueprint).serial = some old.serial := serial old.blueprint
  refine regular.replaced replaced wellFormed ?_ (kind old.blueprint) ?_
  · rw [Graph.added, chosen]
    rfl
  obtain ⟨found, _, looked, rest⟩ := yields_bind.1 yields
  obtain ⟨isFound, rfl⟩ := yields_look.1 looked
  obtain rfl : old = found := regular.wellFormed.operator_unique replaced.member
    (Graph.mem_of_operator isFound).1 (sameId.trans (Graph.mem_of_operator isFound).2.symm)
  obtain ⟨-, afterCheck⟩ := yields_check.1 rest
  obtain ⟨_, _, added, mirrored⟩ := yields_bind.1 afterCheck
  obtain ⟨-, rfl⟩ := yields_add.1 added
  have narrows : Graph.Narrows (graph.add (change old.blueprint)).2 result := by
    refine (?_ : Ensures Graph.Narrows _) _ _ _ mirrored
    refine (Ensures.look _).bind fun new => ?_
    refine (Ensures.forM fun pair _ => ?_).bind fun _ => (Ensures.forM fun pair _ => ?_).bind fun _ =>
      (narrows_remove id).bind fun _ => Ensures.pure _
    · exact Ensures.get.bind fun _ => Ensures.forM fun producer _ => narrows_connect producer _
    · exact Ensures.get.bind fun _ => Ensures.forM fun consumer _ => narrows_connect _ consumer
  rw [(narrows (regular.wellFormed.add _)).2.2, Graph.add, chosen]
  exact if_neg (Nat.not_le.2 (regular.serialsBelow old replaced.member))

end Edit

end StagePlanner
