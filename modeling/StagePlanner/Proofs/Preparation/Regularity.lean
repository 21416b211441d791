import StagePlanner.Proofs.Graph.Regularity
import StagePlanner.Proofs.Marking.Insertion
import StagePlanner.Proofs.Preparation.Closure

/-!
# Prepared graphs are regular

Every pass of preparation adds operators without serial numbers of their own, rebuilds operators
with the number that they had, or takes operators away. `Graph.Lasting` says that a property of
graphs is kept by what the passes add and take away; preparation keeps such a property when fixing
units and the simplifier do (`Graph.Lasting.prepare`). So the graph that preparation leaves is
regular when the one that it got was (`Planner.regular_prepare`), provided that the simplifier keeps
graphs regular, as the one does that planning uses unless it is told otherwise. In the same way
preparation keeps what holds of every operator whatever its edges are (`Planner.all_prepare`).
-/

namespace StagePlanner

namespace Edit

/-! ### Passes that only take away -/

theorem narrows_detachRedundant (terminator : Marker) (port : PortId) (opposites : List PortId) :
    Ensures Graph.Narrows (detachRedundant terminator port opposites) := by
  induction opposites with
  | nil => exact Ensures.pure _
  | cons opposite rest ih =>
    refine Ensures.get.bind fun graph => ?_
    split
    · dsimp only
      split
      · exact (narrows_disconnect port opposite).bind fun _ => ih
      · exact (narrows_disconnect opposite port).bind fun _ => ih
    · exact ih.bind fun _ => Ensures.pure _

theorem narrows_simplifyTerminators : Ensures Graph.Narrows simplifyTerminators := by
  refine Ensures.get.bind fun _ => Ensures.countChanges fun id _ => Ensures.get.bind fun graph => ?_
  split
  · exact Ensures.pure _
  · next terminator port _ =>
    refine (narrows_detachRedundant terminator port _).bind fun isNeeded => ?_
    split
    · exact Ensures.pure _
    · exact (narrows_remove id).bind fun _ => Ensures.pure _

theorem narrows_rule (rule : SimplificationRule) : Ensures Graph.Narrows rule.apply := by
  cases rule with
  | trivialProjections =>
    exact Ensures.get.bind fun _ => (Ensures.forM fun id _ => narrows_bypass id).bind fun _ =>
      Ensures.pure _
  | stackedCheckpoints =>
    refine Ensures.get.bind fun _ => (Ensures.countChanges fun id _ => ?_).bind fun _ =>
      Ensures.pure _
    refine Ensures.get.bind fun graph => ?_
    split
    · exact (narrows_bypass id).bind fun _ => Ensures.pure _
    · exact Ensures.pure _

/-- Rules only take operators away, whichever they are. -/
theorem narrows_ofRules (rules : List SimplificationRule) :
    Ensures Graph.Narrows (Simplifier.ofRules rules) :=
  Ensures.forM fun rule _ => (narrows_rule rule).bind fun _ => Ensures.pure _

theorem ensures_validateAcyclic {relates : Graph → Graph → Prop} [IsPreorder Graph relates] :
    Ensures relates validateAcyclic := by
  refine Ensures.get.bind fun graph => ?_
  split
  · exact Ensures.pure _
  · exact Ensures.fail _

end Edit

/-! ## Properties that last -/

/-- A property of graphs that is kept when operators are taken away and when terminators and
boundaries are added. -/
structure Graph.Lasting (property : Graph → Prop) : Prop where
  narrows : ∀ {graph result : Graph}, graph.Narrows result → property graph → property result
  terminator : ∀ {marker : Marker}, marker = .begin ∨ marker = .finish → ∀ dataType,
    (Edit.add (.marker marker dataType)).Preserves property
  before : ∀ input {blueprint : Blueprint}, blueprint.IsBoundary →
    (Edit.insertBefore input blueprint).Preserves property
  after : ∀ output {blueprint : Blueprint}, blueprint.IsBoundary →
    (Edit.insertAfter output blueprint).Preserves property

namespace Graph.Lasting

open Edit

variable {property : Graph → Prop} (lasting : Graph.Lasting property)

include lasting

theorem of_narrows {α : Type} {edit : Edit α} (narrows : Ensures Graph.Narrows edit) :
    edit.Preserves property :=
  fun graph value result yields => lasting.narrows (narrows graph value result yields)

theorem attachTerminators : Edit.attachTerminators.Preserves property := by
  refine Ensures.get.bind fun graph => (Ensures.forM fun port _ => ?_).bind fun _ =>
    Ensures.forM fun port _ => ?_
  · exact (lasting.terminator (.inl rfl) _).bind fun _ => (Ensures.look _).bind fun output =>
      lasting.of_narrows (narrows_connect output port.id)
  · exact (lasting.terminator (.inr rfl) _).bind fun _ => (Ensures.look _).bind fun input =>
      lasting.of_narrows (narrows_connect port.id input)

theorem removeDeadFlow : Edit.removeDeadFlow.Preserves property := by
  refine Ensures.get.bind fun graph => (Ensures.forM fun id _ =>
    (lasting.of_narrows (narrows_remove id)).bind fun _ => Ensures.pure _).bind fun _ => ?_
  exact Ensures.optional lasting.attachTerminators (Ensures.pure _)

theorem settle {simplifier : Simplifier} (keeps : simplifier.Preserves property)
    (done remaining : Nat) : (simplifier.settle done remaining).Preserves property :=
  Ensures.settle lasting.removeDeadFlow keeps done remaining

theorem markCheckpoint (id : OperatorId) : (Edit.markCheckpoint id).Preserves property :=
  (Ensures.look _).bind fun input =>
    (ensures_checkpointInput (fun input _ => lasting.before input (.checkpoint _)) input).bind fun _ =>
      lasting.of_narrows (narrows_bypass id)

theorem markCheckpoints : Edit.markCheckpoints.Preserves property :=
  Ensures.get.bind fun _ => Ensures.forM fun operator _ => lasting.markCheckpoint operator.id

variable {ν : Type} [Volume ν] (planner : Planner ν)

theorem bounding : planner.bounding.Preserves property :=
  planner.ensures_bounding (fun input _ boundary => lasting.before input boundary)
    fun output _ boundary => lasting.after output boundary

theorem insertMarkers : planner.insertMarkers.Preserves property := by
  rw [planner.insertMarkers_eq]
  exact lasting.markCheckpoints.bind fun _ => lasting.bounding planner

/-- Preparation keeps a property that lasts when the simplifier and fixing units do. -/
theorem prepare (keeps : planner.simplifier.Preserves property)
    (fixUnits : planner.fixUnits.Preserves property) : planner.prepare.Preserves property :=
  lasting.attachTerminators.bind fun _ =>
    (lasting.settle keeps 0 planner.stepLimit).bind fun _ =>
      ensures_validateAcyclic.bind fun _ =>
        fixUnits.bind fun _ =>
          (lasting.insertMarkers planner).bind fun _ =>
            (lasting.of_narrows narrows_simplifyTerminators).bind fun _ =>
              ensures_validateAcyclic.bind fun _ => .pure _

end Graph.Lasting

/-! ## Regular graphs -/

theorem Graph.lasting_regular : Graph.Lasting Graph.Regular where
  narrows narrows regular := regular.of_narrows narrows
  terminator _ _ := Edit.regular_add rfl fun _ => ⟨rfl, rfl⟩
  before input _ boundary := Edit.regular_insertBefore input boundary.serial
  after output _ boundary := Edit.regular_insertAfter output boundary.serial

namespace Edit

theorem regular_ofRules (rules : List SimplificationRule) :
    (Simplifier.ofRules rules).Preserves Graph.Regular := (narrows_ofRules rules).regular

/-- A simplifier that never comes to rest ensures what dropping an operator and putting a projection
behind an output ensure. -/
theorem ensures_restless {relates : Graph → Graph → Prop} [IsPreorder Graph relates]
    (dropped : ∀ id, Ensures relates (bypass id))
    (added : ∀ output dataType, Ensures relates (insertAfter output (.core .project dataType))) :
    Ensures relates Simplifier.restless := by
  refine Ensures.get.bind fun graph => ?_
  split
  · exact dropped _
  · split
    · exact Ensures.fail _
    · exact (Ensures.look _).bind fun output => (added output _).bind fun _ => Ensures.pure _

theorem regular_restless : Simplifier.restless.Preserves Graph.Regular :=
  ensures_restless (fun id => (narrows_bypass id).regular) fun output _ =>
    regular_insertAfter output rfl

theorem regular_fixUnits (operatorClass : OperatorClass) :
    (fixUnits operatorClass).Preserves Graph.Regular := by
  refine (Ensures.look _).bind fun operator => ?_
  dsimp only
  split
  · exact Ensures.pure _
  · refine Ensures.bind (regular_rebuild operator.id ?_ ?_) fun _ => Ensures.pure _ <;>
      exact fun _ => rfl

end Edit

namespace Planner

variable {ν : Type} [Volume ν] (planner : Planner ν)

theorem regular_fixUnits : planner.fixUnits.Preserves Graph.Regular :=
  Edit.Ensures.get.bind fun _ => Edit.Ensures.countChanges fun operatorClass _ =>
    Edit.regular_fixUnits operatorClass

/-- The graph that preparation leaves is regular when the one that it got was. -/
theorem regular_prepare (keeps : planner.simplifier.Preserves Graph.Regular) :
    planner.prepare.Preserves Graph.Regular :=
  Graph.lasting_regular.prepare planner keeps planner.regular_fixUnits

end Planner

/-! ## Properties of all operators

A property that every operator of a graph has is kept by preparation when it does not depend on
edges: the passes only add terminators and the markers that bound inputs, rebuild operators with
other units, and take operators away. `Marked` and `Passed` say what a property has to allow for this,
and `Planner.all_prepare` is the result. -/

/-- A well-formed graph whose operators all have a property. -/
structure Graph.All (property : Operator → Prop) (graph : Graph) : Prop where
  wellFormed : graph.WellFormed
  each : ∀ operator ∈ graph.operators, property operator

/-- A property that the markers have which preparation adds. -/
structure Operator.Marked (property : Operator → Prop) : Prop where
  terminator : ∀ (graph : Graph) marker dataType, marker = .begin ∨ marker = .finish →
    property (graph.added (.marker marker dataType))
  boundary : ∀ (graph : Graph) blueprint, blueprint.IsBoundary → property (graph.added blueprint)

/-- A property that moreover does not depend on units. -/
structure Operator.Passed (property : Operator → Prop) : Prop extends Operator.Marked property where
  rebuilt : ∀ (graph : Graph) operator units, property operator →
    property (graph.added (operator.blueprint.withUnits units))

namespace Graph.All

variable {property : Operator → Prop} {graph result : Graph} (all : graph.All property)

include all

theorem of_narrows (narrows : graph.Narrows result) : result.All property := by
  obtain ⟨wellFormed, fewer, -⟩ := narrows all.wellFormed
  exact ⟨wellFormed, fun operator member => all.each operator (fewer operator member)⟩

theorem of_added {blueprint : Blueprint} (new : property (graph.added blueprint))
    (same : (graph.add blueprint).2.SameButEdges result) (wellFormed : result.WellFormed) :
    result.All property := by
  refine ⟨wellFormed, fun operator member => ?_⟩
  rw [same.operators, Graph.operators_add] at member
  rcases List.mem_append.1 member with old | isNew
  · exact all.each operator old
  · exact List.mem_singleton.1 isNew ▸ new

end Graph.All

namespace Edit

variable {α : Type} {property : Operator → Prop}

theorem Ensures.all {edit : Edit α} (narrows : Ensures Graph.Narrows edit) :
    edit.Preserves (Graph.All property) :=
  fun graph value result yields all => all.of_narrows (narrows graph value result yields)

theorem all_addTerminator (marked : Operator.Marked property) {marker : Marker}
    (isTerminator : marker = .begin ∨ marker = .finish) (dataType : DataType) :
    (add (.marker marker dataType)).Preserves (Graph.All property) := by
  intro graph id result yields all
  obtain ⟨-, rfl⟩ := yields_add.1 yields
  exact all.of_added (marked.terminator graph marker dataType isTerminator) (.refl _)
    (all.wellFormed.add _)

theorem all_insertBefore (input : PortId) {blueprint : Blueprint}
    (new : ∀ graph : Graph, property (graph.added blueprint)) :
    (insertBefore input blueprint).Preserves (Graph.All property) :=
  fun graph _ _ yields all => all.of_added (new graph) (yields_insertBefore all.wellFormed yields).1
    ((keeps_insertBefore input blueprint).wellFormed all.wellFormed yields)

theorem all_insertAfter (output : PortId) {blueprint : Blueprint}
    (new : ∀ graph : Graph, property (graph.added blueprint)) :
    (insertAfter output blueprint).Preserves (Graph.All property) :=
  fun graph _ _ yields all => all.of_added (new graph) (yields_insertAfter all.wellFormed yields).1
    ((keeps_insertAfter output blueprint).wellFormed all.wellFormed yields)

section Passed

variable (passed : Operator.Passed property)

include passed

theorem all_rebuild (id : OperatorId) (units : List (Option InputUnit)) :
    (rebuild id fun blueprint => blueprint.withUnits units).Preserves (Graph.All property) := by
  intro graph copy result yields all
  obtain ⟨old, -, wellFormed, replaced⟩ := replaced_of_rebuild all.wellFormed yields
  refine ⟨wellFormed, fun operator member => ?_⟩
  rcases (replaced.operators operator).1 member with ⟨isOld, -⟩ | rfl
  · exact all.each operator isOld
  · exact passed.rebuilt graph old units (all.each old replaced.member)

theorem all_fixUnits (operatorClass : OperatorClass) :
    (fixUnits operatorClass).Preserves (Graph.All property) := by
  refine (Ensures.look _).bind fun operator => ?_
  dsimp only
  split
  · exact Ensures.pure _
  · exact (all_rebuild passed operator.id _).bind fun _ => Ensures.pure _

end Passed

theorem all_ofRules (rules : List SimplificationRule) :
    (Simplifier.ofRules rules).Preserves (Graph.All property) := (narrows_ofRules rules).all

end Edit

theorem Operator.Marked.lasting {property : Operator → Prop} (marked : Operator.Marked property) :
    Graph.Lasting (Graph.All property) where
  narrows narrows all := all.of_narrows narrows
  terminator isTerminator dataType := Edit.all_addTerminator marked isTerminator dataType
  before input blueprint boundary :=
    Edit.all_insertBefore input fun graph => marked.boundary graph blueprint boundary
  after output blueprint boundary :=
    Edit.all_insertAfter output fun graph => marked.boundary graph blueprint boundary

namespace Planner

variable {ν : Type} [Volume ν] (planner : Planner ν) {property : Operator → Prop}
  (passed : Operator.Passed property)

include passed

theorem all_fixUnits : planner.fixUnits.Preserves (Graph.All property) :=
  Edit.Ensures.get.bind fun _ => Edit.Ensures.countChanges fun operatorClass _ =>
    Edit.all_fixUnits passed operatorClass

/-- Preparation keeps a property of all operators when the simplifier does. -/
theorem all_prepare (keeps : planner.simplifier.Preserves (Graph.All property)) :
    planner.prepare.Preserves (Graph.All property) :=
  passed.toMarked.lasting.prepare planner keeps (planner.all_fixUnits passed)

end Planner

end StagePlanner
