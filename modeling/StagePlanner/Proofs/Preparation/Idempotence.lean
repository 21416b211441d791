import StagePlanner.Proofs.Estimate.Splicing
import StagePlanner.Proofs.Preparation.Regularity
import StagePlanner.Proofs.Preparation.Saturation

/-!
# Inserting markers twice

Preparation leaves a graph in which markers need not be inserted again
(`Planner.insertMarkers_prepared`). Operators of users have the units that their classes require, and
they are classified as before, since markers change no estimate; the ports of external operators stay
checkpointed, and no broadcast becomes cyclic when terminators are taken away.
-/

namespace StagePlanner

open Relation

/-! ### Cyclic broadcasts -/

namespace Graph

variable {graph result : Graph}

/-- A broadcast is cyclic when data go from one of its producers to one of its consumers without a
marker in between. -/
theorem WellFormed.isCyclicBroadcast_iff (wellFormed : graph.WellFormed) (acyclic : graph.Acyclic)
    {broadcast : OperatorId} :
    graph.isCyclicBroadcast broadcast = true ↔ ∃ producer consumer,
      graph.FeedsBy (fun operator => !operator.isMarker) producer broadcast ∧
        graph.Feeds broadcast consumer ∧
          graph.holds (fun operator => !operator.isMarker) consumer = true ∧
            TransGen (graph.FeedsBy fun operator => !operator.isMarker) producer consumer := by
  simp only [isCyclicBroadcast, withoutMarkers, List.any_eq_true, OrderedSet.mem_toList,
    OrderedSet.mem_filter, OrderedSet.meets_iff, mem_successors wellFormed, mem_predecessors wellFormed,
    mem_ancestors wellFormed (acyclic.feedsBy _ _), FeedsBy]
  constructor
  · rintro ⟨consumer, ⟨reads, unmarked⟩, producer, way, gives, alsoUnmarked⟩
    exact ⟨producer, consumer, ⟨alsoUnmarked, gives⟩, reads, unmarked, way⟩
  · rintro ⟨producer, consumer, ⟨alsoUnmarked, gives⟩, reads, unmarked, way⟩
    exact ⟨consumer, ⟨reads, unmarked⟩, producer, way, gives, alsoUnmarked⟩

namespace Pares

variable (pares : graph.Pares result)

include pares

theorem feeds {source target : OperatorId} (feeds : result.Feeds source target) :
    graph.Feeds source target := by
  obtain ⟨output, input, isEdge, ⟨producer, isProducer, first, gives⟩, consumer, isConsumer, second,
    takes⟩ := feeds_iff_exists_edge.1 feeds
  exact feeds_iff_exists_edge.2 ⟨output, input, pares.edges _ isEdge,
    ⟨producer, pares.operators producer isProducer, first, gives⟩, consumer,
    pares.operators consumer isConsumer, second, takes⟩

theorem holds (wellFormed : graph.WellFormed) {test : Operator → Bool} {id : OperatorId}
    (passes : result.holds test id = true) : graph.holds test id = true := by
  obtain ⟨operator, member, same, passes⟩ := (holds_iff pares.closed.wellFormed).1 passes
  exact (holds_iff wellFormed).2 ⟨operator, pares.operators operator member, same, passes⟩

/-- No broadcast becomes cyclic when terminators are taken away. -/
theorem cyclicBroadcast?_eq_none (wellFormed : graph.WellFormed) (acyclic : graph.Acyclic)
    (resultAcyclic : result.Acyclic) (unbroken : graph.cyclicBroadcast? = none) :
    result.cyclicBroadcast? = none := by
  refine List.find?_eq_none.2 fun operator member isCyclic => ?_
  refine List.find?_eq_none.1 unbroken operator (pares.operators operator member) ?_
  rw [Bool.and_eq_true] at isCyclic ⊢
  refine ⟨isCyclic.1, (wellFormed.isCyclicBroadcast_iff acyclic).2 ?_⟩
  obtain ⟨producer, consumer, gives, reads, unmarked, way⟩ :=
    (pares.closed.wellFormed.isCyclicBroadcast_iff resultAcyclic).1 isCyclic.2
  have step : ∀ source target, result.FeedsBy (fun operator => !operator.isMarker) source target →
      graph.FeedsBy (fun operator => !operator.isMarker) source target :=
    fun source target feedsBy => ⟨pares.holds wellFormed feedsBy.1, pares.feeds feedsBy.2⟩
  exact ⟨producer, consumer, step _ _ gives, pares.feeds reads, pares.holds wellFormed unmarked,
    TransGen.mono step producer consumer way⟩

end Pares

end Graph

namespace Edit

variable {graph result : Graph}

theorem cyclicBroadcast?_of_converged {done remaining : Nat} {outcome : LoopOutcome}
    (yields : (breakBroadcasts done remaining).Yields graph outcome result)
    (converged : outcome.converged = true) : result.cyclicBroadcast? = none := by
  induction remaining generalizing done graph with
  | zero =>
    obtain ⟨_, _, seen, returned⟩ := yields_bind.1 yields
    obtain ⟨rfl, rfl⟩ := yields_get.1 seen
    obtain ⟨rfl, rfl⟩ := yields_pure.1 returned
    exact Option.isNone_iff_eq_none.1 converged
  | succ remaining ih =>
    obtain ⟨_, _, seen, rest⟩ := yields_bind.1 yields
    obtain ⟨rfl, rfl⟩ := yields_get.1 seen
    split at rest
    · next none =>
      obtain ⟨-, rfl⟩ := yields_pure.1 rest
      exact none
    · obtain ⟨_, _, -, later⟩ := yields_bind.1 rest
      exact ih later

theorem yields_optional {α : Type} {condition : Prop} [Decidable condition] {edit : Edit PUnit}
    {next : Edit α} {value : α}
    (yields : (if condition then (do edit; next) else next).Yields graph value result) :
    ∃ middle, (condition → edit.Yields graph PUnit.unit middle) ∧ (¬ condition → graph = middle) ∧
      next.Yields middle value result := by
  split at yields
  · next holds =>
    obtain ⟨_, middle, first, later⟩ := yields_bind.1 yields
    exact ⟨middle, fun _ => first, fun without => absurd holds without, later⟩
  · next without => exact ⟨graph, fun holds => absurd holds without, fun _ => rfl, yields⟩

end Edit

/-! ### Preparation -/

/-- Markers say nothing of how they consume their inputs. -/
theorem Operator.marked_undeclared : Operator.Marked Operator.Undeclared where
  terminator graph marker dataType _ _ input isInput := by
    cases List.mem_singleton.1 isInput
    rfl
  boundary graph blueprint boundary _ input isInput := by
    cases boundary <;> cases List.mem_singleton.1 isInput <;> rfl

namespace Planner

variable {ν : Type} [Volume ν] {planner : Planner ν}

/-- Bounding checkpoints external operators and breaks broadcasts as the options ask. -/
theorem checkpointed_bounding {graph result : Graph} (wellFormed : graph.WellFormed)
    (acyclic : graph.Acyclic) {outcome : Option LoopOutcome}
    (yields : planner.bounding.Yields graph outcome result) :
    (planner.isEnabled .checkpointAfterExternalInputs = true →
      result.Checkpointed OperatorKind.isInput .output) ∧
    (planner.isEnabled .checkpointBeforeExternalOutputs = true →
      result.Checkpointed OperatorKind.isOutput .input) ∧
    (planner.isEnabled .removeCyclicBroadcasts = true →
      ∃ loop, outcome = some loop ∧ (loop.converged = true → result.cyclicBroadcast? = none)) := by
  obtain ⟨_, _, seen, rest⟩ := Edit.yields_bind.1 yields
  obtain ⟨rfl, rfl⟩ := Edit.yields_get.1 seen
  obtain ⟨_, start, bounds, afterBounding⟩ := Edit.yields_bind.1 rest
  have keepsFlow : Edit.KeepsFlow ((planner.classes graph).forM Edit.boundInputs) :=
    Edit.Ensures.forM fun operatorClass _ => Edit.ensures_boundInputs
      (fun input _ boundary => Edit.keepsFlow_insertBefore input boundary.isMarker) operatorClass
  have startWellFormed := (keepsFlow _ _ _ bounds wellFormed acyclic).wellFormed
  obtain ⟨first, inputs, sameFirst, afterInputs⟩ := Edit.yields_optional afterBounding
  obtain ⟨second, outputs, sameSecond, afterOutputs⟩ := Edit.yields_optional afterInputs
  have toFirst : start.Checkpoints first := by
    by_cases enabled : planner.isEnabled .checkpointAfterExternalInputs = true
    · exact Edit.ensures_checkpointExternalInputs Edit.checkpoints_insertAfter _ _ _ (inputs enabled)
        startWellFormed
    · exact sameFirst enabled ▸ .refl startWellFormed
  have toSecond : first.Checkpoints second := by
    by_cases enabled : planner.isEnabled .checkpointBeforeExternalOutputs = true
    · exact Edit.ensures_checkpointExternalOutputs Edit.checkpoints_insertBefore _ _ _ (outputs enabled)
        toFirst.wellFormed
    · exact sameSecond enabled ▸ .refl toFirst.wellFormed
  have broken : second.Checkpoints result ∧ (planner.isEnabled .removeCyclicBroadcasts = true →
      ∃ loop, outcome = some loop ∧ (loop.converged = true → result.cyclicBroadcast? = none)) := by
    split at afterOutputs
    · obtain ⟨loop, _, breaks, returned⟩ := Edit.yields_bind.1 afterOutputs
      obtain ⟨rfl, rfl⟩ := Edit.yields_pure.1 returned
      exact ⟨Edit.ensures_breakBroadcasts Edit.checkpoints_insertBefore 0 planner.stepLimit _ _ _ breaks
        toSecond.wellFormed, fun _ => ⟨loop, rfl, Edit.cyclicBroadcast?_of_converged breaks⟩⟩
    · next disabled =>
      obtain ⟨-, rfl⟩ := Edit.yields_pure.1 afterOutputs
      exact ⟨.refl toSecond.wellFormed, fun enabled => absurd enabled disabled⟩
  refine ⟨fun enabled => ?_, fun enabled => ?_, broken.2⟩
  · exact (Edit.checkpointed_checkpointExternalInputs startWellFormed (inputs enabled)).of_checkpoints
      (fun _ => Operator.not_marker_of_isInput) (toSecond.trans broken.1)
  · exact (Edit.checkpointed_checkpointExternalOutputs toFirst.wellFormed (outputs enabled)).of_checkpoints
      (fun _ => Operator.not_marker_of_isOutput) broken.1

namespace Prepares

variable {graph prepared : Graph} {report : PreparationReport}
  (prepares : planner.Prepares graph report prepared)

include prepares

/-- Only operators of users say how they consume their inputs if this was so from the start. -/
theorem undeclared (standard : planner.simplifier = .standard) (all : graph.All Operator.Undeclared) :
    prepares.bounded.All Operator.Undeclared := by
  have attached := Operator.marked_undeclared.lasting.attachTerminators _ _ _ prepares.attaches all
  have optimizes := prepares.optimizes
  rw [optimize, standard] at optimizes
  have optimized := Operator.marked_undeclared.lasting.settle (Edit.all_ofRules _) _ _ _ _ _
    optimizes attached
  obtain ⟨becomes, rename, fixes⟩ :=
    Edit.fixes_fixAllUnits prepares.closed.wellFormed prepares.fixes
  have renamed := fixes.renamed
  have fixed : prepares.fixed.All Operator.Undeclared := by
    refine ⟨renamed.wellFormed, fun operator member notUser => ?_⟩
    obtain ⟨old, isOld, rfl⟩ := (renamed.operators operator).1 member
    have wasNotUser : old.kind.user? = none := by
      cases renamed.alike old isOld with
      | same kind => rwa [kind] at notUser
      | marked isCore => rw [isCore]; rfl
    rw [(fixes.untouched prepares.closed.wellFormed isOld wasNotUser).1] at notUser ⊢
    exact optimized.each old isOld notUser
  exact Operator.marked_undeclared.lasting.bounding planner _ _ _ prepares.bounds
    (Operator.marked_undeclared.lasting.markCheckpoints _ _ _ prepares.marks fixed)

variable (sums : planner.config.broadcastLimit = none ∨ Volume.Additive ν)

include sums

/-- Operators of users are classified in the end as when their units were fixed. -/
theorem settled : ∀ operator ∈ prepared.operators,
    operator.Settled planner.config.broadcastLimit planner.estimator prepared := by
  have exactly := sums.imp_right fun additive : Volume.Additive ν => additive.exact
  have bounded := prepares.bounded_marked exactly
  obtain ⟨pares, -⟩ := prepares.pares bounded.closed
  intro operator member definition isUser
  have notMarker : ¬ operator.isMarker = true := by
    rw [Operator.isMarker, Operator.marker?, isUser]
    exact Bool.false_ne_true
  have isBounded := pares.operators operator member
  have isMarked := (bounded.new operator isBounded).resolve_right notMarker
  obtain ⟨becomes, rename, renamed, isFixed, stays⟩ :=
    prepares.untouched_user exactly isMarked isUser
  have settledMarked := settled_untouched exactly renamed (prepares.fixedClosed exactly).wellFormed
    (prepares.fixedAcyclic exactly) isFixed stays (Edit.settled_fixAllUnits prepares.closed prepares.acyclic
      exactly prepares.fixes operator isFixed)
  have settledBounded : operator.Settled planner.config.broadcastLimit planner.estimator
      prepares.bounded := settledMarked.congr (sums.imp_right fun additive =>
    (planner.sameVolumes_bounding additive _ _ _ prepares.bounds (prepares.markedClosed exactly).wellFormed
      (prepares.markedAcyclic exactly)).inputs operator isMarked)
  refine settledBounded.congr (sums.imp_right fun additive input owned => ?_) definition isUser
  exact Estimator.input?_estimate_pared pares bounded.closed additive bounded.acyclic
    prepares.preparedAcyclic planner.estimator member (operator.not_markerOf notMarker .finish) owned

/-- The graph that preparation leaves has all markers. -/
theorem saturates (standard : planner.simplifier = .standard) (all : graph.All Operator.Undeclared)
    (converged : ∀ outcome, report.broadcasts = some outcome → outcome.converged = true) :
    planner.Saturates prepared := by
  have exactly := sums.imp_right fun additive : Volume.Additive ν => additive.exact
  have bounded := prepares.bounded_marked exactly
  have wellFormed := bounded.closed.wellFormed
  obtain ⟨pares, -⟩ := prepares.pares bounded.closed
  obtain ⟨inputs, outputs, broken⟩ := checkpointed_bounding (prepares.markedClosed exactly).wellFormed
    (prepares.markedAcyclic exactly) prepares.bounds
  exact {
    ready := prepares.ready exactly
    settled := prepares.settled sums
    undeclared := fun operator member =>
      (prepares.undeclared standard all).each operator (pares.operators operator member)
    inputs := fun enabled =>
      (inputs enabled).of_pares (fun _ => Operator.not_marker_of_isInput) wellFormed pares
    outputs := fun enabled =>
      (outputs enabled).of_pares (fun _ => Operator.not_marker_of_isOutput) wellFormed pares
    unbroken := fun enabled => by
      obtain ⟨outcome, isOutcome, none⟩ := broken enabled
      exact pares.cyclicBroadcast?_eq_none wellFormed bounded.acyclic prepares.preparedAcyclic
        (none (converged outcome isOutcome)) }

end Prepares

/-- Markers that are inserted into a prepared graph leave it as it is, unless the loop that breaks cyclic
broadcasts came to its limit. -/
theorem insertMarkers_prepared {document : Document} {named : NamedGraph}
    (described : document.build = .ok named) (standard : planner.simplifier = .standard)
    (sums : planner.config.broadcastLimit = none ∨ Volume.Additive ν) {report : PreparationReport}
    {prepared : Graph} (succeeds : planner.prepare.apply named.graph = (.ok report, prepared))
    (converged : ∀ outcome, report.broadcasts = some outcome → outcome.converged = true) :
    planner.insertMarkers.apply prepared =
      (.ok (if planner.isEnabled .removeCyclicBroadcasts then
        some { steps := 0, converged := true } else none), prepared) := by
  have unmarked := Document.unmarked_build described
  obtain ⟨prepares⟩ := planner.exists_prepares standard (Document.framed_build described) succeeds
  exact insertMarkers_of_saturates
    (prepares.saturates sums standard ⟨unmarked.regular.wellFormed, unmarked.undeclared⟩ converged)

/-- The planner that counts whole bytes prepares the sample of a join with the standard options, and
inserts nothing more. -/
theorem insertMarkers_prepared_joinSample : ∃ named report prepared,
    joinSample.build = .ok named ∧ Volume.Additive Nat ∧
      (({ config := .standard } : Planner Nat).prepare.apply named.graph = (.ok report, prepared)) ∧
      (∀ outcome, report.broadcasts = some outcome → outcome.converged = true) ∧
      (({ config := .standard } : Planner Nat).insertMarkers.apply prepared).2 = prepared := by
  obtain ⟨named, described⟩ := exists_of_isOk (by decide +kernel : joinSample.build.isOk = true)
  have settles : (joinSample.build.toOption.any fun named =>
      match (({ config := .standard } : Planner Nat).prepare.apply named.graph).1 with
      | .ok report => report.broadcasts.all LoopOutcome.converged
      | .error _ => false) = true := by decide +kernel
  rw [described] at settles
  cases isReport : (({ config := .standard } : Planner Nat).prepare.apply named.graph).1 with
  | error => simp [Except.toOption, isReport] at settles
  | ok report =>
    have converged : ∀ outcome, report.broadcasts = some outcome → outcome.converged = true := by
      simpa [Except.toOption, isReport, Option.all_eq_true] using settles
    exact ⟨named, report, _, described, Volume.additive_nat, Prod.ext isReport rfl, converged,
      congrArg Prod.snd (insertMarkers_prepared described rfl (.inr Volume.additive_nat)
        (Prod.ext isReport rfl) converged)⟩

end Planner

end StagePlanner
