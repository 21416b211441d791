import StagePlanner.Proofs.Dependency.Circuit
import StagePlanner.Proofs.Document.Building
import StagePlanner.Proofs.Preparation.Demands
import StagePlanner.Proofs.Preparation.Regularity
import StagePlanner.Proofs.Preparation.Reporting
import StagePlanner.Proofs.Preparation.Terminators

/-!
# Prepared graphs are ready to be cut

What cutting relies on (`Graph.Ready`) holds of the graph that preparation leaves, provided that
sizes do not depend on the order in which they are added up. Terminators close the graph and every
pass keeps it closed; units are fixed by classes that stay the same while checkpoints become
markers, so markers are inserted where the units ask for them. From everything in such a graph a way
leads to an `END` (`Planner.prepare_leadsToEnd`).
-/

namespace StagePlanner

open Relation

/-- A graph that can be cut into stages: it is closed and has no circuit, terminators stand where
nothing else does, checkpoints are markers, and what an operator of a user reads in groups or whole
comes through a marker for these data. -/
structure Graph.Ready (graph : Graph) : Prop where
  wellFormed : graph.WellFormed
  acyclic : graph.Acyclic
  fed : ∀ operator ∈ graph.operators, operator.isMarkerOf .begin = false →
    ∀ input ∈ operator.inputs, ∃ source, ⟨source, input.id⟩ ∈ graph.edges
  read : ∀ operator ∈ graph.operators, operator.isMarkerOf .finish = false →
    ∀ output ∈ operator.outputs, ∃ target, ⟨output.id, target⟩ ∈ graph.edges
  /-- An input that a `BEGIN` feeds has no other producer. -/
  beginAlone : ∀ operator ∈ graph.operators, operator.isMarkerOf .begin = true →
    ∀ output ∈ operator.outputs, ∀ target, ⟨output.id, target⟩ ∈ graph.edges →
      ∀ source, ⟨source, target⟩ ∈ graph.edges → source = output.id
  /-- An output that an `END` reads has no other consumer. -/
  finishAlone : ∀ operator ∈ graph.operators, operator.isMarkerOf .finish = true →
    ∀ input ∈ operator.inputs, ∀ source, ⟨source, input.id⟩ ∈ graph.edges →
      ∀ target, ⟨source, target⟩ ∈ graph.edges → target = input.id
  unchecked : ∀ operator ∈ graph.operators, operator.isCore .checkpoint = false
  grouped : ∀ operator ∈ graph.operators, ∀ definition, operator.kind = .user definition →
    ∀ input ∈ operator.inputs, input.unit = some .group →
      ∀ producer ∈ graph.operators, ∀ output ∈ producer.outputs,
        ⟨output.id, input.id⟩ ∈ graph.edges → producer.isMarkerOf .begin = true ∨
          producer.isMarkerOf .gather = true ∧ producer.traits.crossing = some {
            dataType := input.dataType
            group := input.group
            aggregation :=
              if definition.partialAggregation && definition.kind.supportsPartialReduction then
                some operator.serial
              else none }
  whole : ∀ operator ∈ graph.operators, ∀ definition, operator.kind = .user definition →
    ∀ input ∈ operator.inputs, input.unit = some .whole →
      ∀ producer ∈ graph.operators, ∀ output ∈ producer.outputs,
        ⟨output.id, input.id⟩ ∈ graph.edges → producer.isMarkerOf .begin = true ∨
          producer.isMarkerOf .broadcast = true ∧ producer.traits.crossing = some {
            dataType := input.dataType
            group := input.group
            aggregation := none }

namespace Edit

variable {graph result : Graph}

theorem acyclic_validateAcyclic (wellFormed : graph.WellFormed) {done : Unit}
    (yields : validateAcyclic.Yields graph done result) : graph = result ∧ graph.Acyclic := by
  obtain ⟨_, _, seen, tested⟩ := yields_bind.1 yields
  obtain ⟨rfl, rfl⟩ := yields_get.1 seen
  split at tested
  · next valid =>
    obtain ⟨-, rfl⟩ := yields_pure.1 tested
    refine ⟨rfl, (Graph.circuitless_dependencies_iff wellFormed).1
      ((DependencyGraph.circuits_eq_nil_iff Graph.dependencies_wellFormed).1 ?_)⟩
    rw [Graph.validateAcyclic] at valid
    split at valid
    · next none => exact List.map_eq_nil_iff.1 none
    · cases valid
  · cases tested

end Edit

namespace Planner

variable {ν : Type} [Volume ν] (planner : Planner ν)

/-- The graphs that preparation passes through: with terminators, optimized, with its units fixed, without
core checkpoints, and bounded. -/
structure Prepares (graph : Graph) (report : PreparationReport) (prepared : Graph) where
  attached : Graph
  optimized : Graph
  fixed : Graph
  marked : Graph
  bounded : Graph
  attaches : Edit.attachTerminators.Yields graph () attached
  optimizes : planner.optimize.Yields attached report.optimization optimized
  fixes : planner.fixUnits.Yields optimized report.rebuilt fixed
  marks : Edit.markCheckpoints.Yields fixed () marked
  bounds : planner.bounding.Yields marked report.broadcasts bounded
  simplifies : ∃ count, Edit.simplifyTerminators.Yields bounded count prepared
  closed : optimized.Closed
  acyclic : optimized.Acyclic
  preparedAcyclic : prepared.Acyclic

theorem exists_prepares (standard : planner.simplifier = .standard) {graph prepared : Graph}
    (framed : graph.Framed) {report : PreparationReport}
    (succeeds : planner.prepare.Yields graph report prepared) :
    Nonempty (planner.Prepares graph report prepared) := by
  obtain ⟨_, attached, attaches, afterAttaching⟩ := Edit.yields_bind.1 succeeds
  obtain ⟨_, optimized, optimizes, afterOptimizing⟩ := Edit.yields_bind.1 afterAttaching
  obtain ⟨_, _, validates, afterValidating⟩ := Edit.yields_bind.1 afterOptimizing
  obtain ⟨_, fixed, fixes, afterFixing⟩ := Edit.yields_bind.1 afterValidating
  obtain ⟨_, bounded, inserts, afterInserting⟩ := Edit.yields_bind.1 afterFixing
  obtain ⟨count, simplified, simplifies, afterSimplifying⟩ := Edit.yields_bind.1 afterInserting
  obtain ⟨_, _, finallyValidates, returned⟩ := Edit.yields_bind.1 afterSimplifying
  obtain ⟨rfl, rfl⟩ := Edit.yields_pure.1 returned
  rw [insertMarkers_eq] at inserts
  obtain ⟨_, marked, marks, bounds⟩ := Edit.yields_bind.1 inserts
  have closed : optimized.Closed := by
    have isStandard := optimizes
    rw [optimize, standard] at isStandard
    exact Edit.closed_settle 0 planner.stepLimit _ _ _ isStandard
      (Edit.closed_attachTerminators framed attaches)
  obtain ⟨rfl, acyclic⟩ := Edit.acyclic_validateAcyclic closed.wellFormed validates
  obtain ⟨_, _, fixesBy⟩ := Edit.fixes_fixAllUnits closed.wellFormed fixes
  have renamed := fixesBy.renamed
  obtain ⟨sameFlow, -⟩ := Edit.yields_markCheckpoints renamed.wellFormed
    (renamed.acyclic closed.wellFormed acyclic) marks
  have wellFormed := (planner.keepsFlow_bounding _ _ _ bounds sameFlow.wellFormed
    sameFlow.acyclic).wellFormed
  obtain ⟨rfl, preparedAcyclic⟩ := Edit.acyclic_validateAcyclic
    (Edit.narrows_simplifyTerminators _ _ _ simplifies wellFormed).1 finallyValidates
  exact ⟨{
    attached, optimized, fixed, marked, bounded, attaches, optimizes, fixes, marks, bounds, closed, acyclic,
    preparedAcyclic, simplifies := ⟨count, simplifies⟩ }⟩

namespace Prepares

variable {planner} {graph prepared : Graph} {report : PreparationReport}
  (prepares : planner.Prepares graph report prepared)
  (sums : planner.config.broadcastLimit = none ∨ Volume.Exact ν)

include prepares

/-- Terminators that stand beside others are gone, and no others are redundant. -/
theorem pares (closed : prepares.bounded.Closed) : prepares.bounded.Pares prepared ∧
    ∀ operator ∈ prepared.operators, ∀ terminator side, terminator.facing? = some side →
      operator.isMarkerOf terminator = true → ∀ port ∈ (operator.portsOn side).map Port.id,
        ∀ opposite, side.edge port opposite ∈ prepared.edges → ∀ other,
          side.edge other opposite ∈ prepared.edges → other = port := by
  obtain ⟨count, simplifies⟩ := prepares.simplifies
  exact Edit.alone_simplifyTerminators closed simplifies

include sums

theorem fixedClosed : prepares.fixed.Closed :=
  (Edit.aligned_fixAllUnits prepares.closed prepares.acyclic sums prepares.fixes).1

theorem fixedAcyclic : prepares.fixed.Acyclic :=
  (Edit.aligned_fixAllUnits prepares.closed prepares.acyclic sums prepares.fixes).2.1

/-- While core checkpoints are marked other operators stay as they are. -/
theorem relabels : prepares.fixed.Relabels prepares.marked
    fun operator => operator.isCore .checkpoint = false :=
  (Edit.yields_markCheckpoints (prepares.fixedClosed sums).wellFormed (prepares.fixedAcyclic sums)
    prepares.marks).2.1

theorem unchecked : ∀ operator ∈ prepares.marked.operators, operator.isCore .checkpoint = false :=
  (Edit.yields_markCheckpoints (prepares.fixedClosed sums).wellFormed (prepares.fixedAcyclic sums)
    prepares.marks).2.2

theorem markedClosed : prepares.marked.Closed := by
  obtain ⟨becomes, rename, renamed, -⟩ := prepares.relabels sums
  exact (prepares.fixedClosed sums).renamed renamed

theorem markedAcyclic : prepares.marked.Acyclic := by
  obtain ⟨becomes, rename, renamed, -⟩ := prepares.relabels sums
  exact renamed.acyclic (prepares.fixedClosed sums).wellFormed (prepares.fixedAcyclic sums)

/-- The operators of users are those of the graph whose units are fixed. -/
theorem untouched_user {operator : Operator} (member : operator ∈ prepares.marked.operators)
    {definition : UserOperator} (isUser : operator.kind = .user definition) :
    ∃ becomes rename, prepares.fixed.Renamed prepares.marked becomes rename ∧
      operator ∈ prepares.fixed.operators ∧ Graph.Untouched becomes rename operator := by
  obtain ⟨becomes, rename, renamed, untouched⟩ := prepares.relabels sums
  obtain ⟨old, isOld, rfl⟩ := (renamed.operators operator).1 member
  have kind : (becomes old).kind = old.kind :=
    (renamed.alike old isOld).user (by rw [isUser]; rfl)
  have stays := untouched old isOld (decide_eq_false (by
    rw [← kind, isUser]
    nofun))
  refine ⟨becomes, rename, renamed, ?_, ?_⟩ <;> rwa [stays.1]

theorem aligned : ∀ operator ∈ prepares.marked.operators,
    operator.Aligned planner.config.broadcastLimit planner.estimator prepares.marked := by
  intro operator member definition isUser
  obtain ⟨becomes, rename, renamed, isOld, stays⟩ := prepares.untouched_user sums member isUser
  obtain ⟨closed, acyclic, aligned⟩ :=
    Edit.aligned_fixAllUnits prepares.closed prepares.acyclic sums prepares.fixes
  exact aligned_untouched sums renamed closed.wellFormed acyclic isOld stays (aligned operator isOld)
    definition isUser

theorem bounded_marked : prepares.marked.Bounded prepares.bounded :=
  planner.bounded_bounding (prepares.markedClosed sums) (prepares.markedAcyclic sums)
    (prepares.aligned sums) prepares.bounds

/-- The graph that preparation leaves is ready to be cut. -/
theorem ready : prepared.Ready := by
  have bounded := prepares.bounded_marked sums
  obtain ⟨pares, alone⟩ := prepares.pares bounded.closed
  have unchecked : ∀ operator ∈ prepared.operators, operator.isCore .checkpoint = false := by
    intro operator isThere
    rcases bounded.new operator (pares.operators operator isThere) with old | isMarker
    · exact prepares.unchecked sums operator old
    · exact Bool.eq_false_iff.2 fun isCheckpoint =>
        Operator.not_marker_of_core isCheckpoint isMarker
  have meets : ∀ operator ∈ prepared.operators, ∀ {input marker crossing},
      operator.Demands input marker crossing → ∀ producer ∈ prepared.operators,
        ∀ output ∈ producer.outputs, ⟨output.id, input.id⟩ ∈ prepared.edges →
          producer.isMarkerOf .begin = true ∨
            producer.isMarkerOf marker = true ∧ producer.traits.crossing = some crossing := by
    intro operator isThere input marker crossing demands producer isProducer output gives isEdge
    -- Only operators of users demand something, and those were there before markers were inserted.
    obtain ⟨definition, isUser⟩ := demands.isUser
    have old := (bounded.new operator (pares.operators operator isThere)).resolve_right (by
      rw [Operator.isMarker, Operator.marker?, isUser]
      exact Bool.false_ne_true)
    obtain ⟨found, isFound, alsoGives, isBound⟩ :=
      bounded.bounds operator old input marker crossing demands _ (pares.edges _ isEdge)
    obtain rfl := bounded.closed.wellFormed.owner_unique (pares.operators producer isProducer) isFound
      (Operator.mem_ports_of_mem_portsOn .output (List.mem_map_of_mem gives))
      (Operator.mem_ports_of_mem_portsOn .output alsoGives)
    exact isBound
  exact {
    wellFormed := pares.closed.wellFormed
    acyclic := prepares.preparedAcyclic
    fed := fun operator isThere notBegin input owned =>
      pares.closed.fed operator isThere notBegin input.id (List.mem_map_of_mem owned)
    read := fun operator isThere notFinish output owned =>
      pares.closed.read operator isThere notFinish output.id (List.mem_map_of_mem owned)
    beginAlone := fun operator isThere isBegin output owned =>
      alone operator isThere .begin .output rfl isBegin output.id (List.mem_map_of_mem owned)
    finishAlone := fun operator isThere isFinish input owned =>
      alone operator isThere .finish .input rfl isFinish input.id (List.mem_map_of_mem owned)
    unchecked
    grouped := fun operator isThere definition isUser input owned isGroup =>
      meets operator isThere (.gathered isUser owned isGroup)
    whole := fun operator isThere definition isUser input owned isWhole =>
      meets operator isThere (.broadcast isUser owned isWhole) }

end Prepares

/-- The graph that preparation leaves is ready to be cut. -/
theorem prepare_ready {document : Document} {named : NamedGraph}
    (described : document.build = .ok named) (standard : planner.simplifier = .standard)
    (sums : planner.config.broadcastLimit = none ∨ Volume.Exact ν) {report : PreparationReport}
    {prepared : Graph} (succeeds : planner.prepare.apply named.graph = (.ok report, prepared)) :
    prepared.Ready := by
  obtain ⟨prepares⟩ := planner.exists_prepares standard (Document.framed_build described) succeeds
  exact prepares.ready sums

/-- Sales that are stored and joined with a small table of rates. -/
def joinSample : Document where
  operators := [
    { id := "rates", kind := "input", type := some (.named "rate"), size := some 512 },
    { id := "sales", kind := "input", type := some (.named "sale") },
    { id := "stored", kind := "checkpoint", type := some (.named "sale") },
    { id := "priced", kind := "master_join"
      inputs := [{ name := "rate", type := .named "rate" }, { name := "sale", type := .named "sale" }]
      outputs := [{ name := "hit", type := .named "sale" }, { name := "miss", type := .named "sale" }] },
    { id := "result", kind := "output", type := some (.named "sale") }]
  edges := [⟨"rates", "priced.rate"⟩, ⟨"sales", "stored"⟩, ⟨"stored", "priced.sale"⟩,
    ⟨"priced.hit", "result"⟩]

/-- The planner that counts whole bytes leaves a graph of the sample that is ready. -/
theorem prepare_ready_joinSample : ∃ named report prepared,
    joinSample.build = .ok named ∧ Volume.Exact Nat ∧
      (({ config := .standard } : Planner Nat).prepare.apply named.graph =
        (.ok report, prepared)) ∧ prepared.Ready := by
  obtain ⟨named, described⟩ := exists_of_isOk (by decide +kernel : joinSample.build.isOk = true)
  obtain ⟨report, isReport⟩ := exists_of_isOk (by decide +kernel : (joinSample.build >>= fun named =>
    (({ config := .standard } : Planner Nat).prepare.apply named.graph).1).isOk = true)
  rw [described] at isReport
  exact ⟨named, report, _, described, Volume.exact_nat, Prod.ext isReport rfl,
    prepare_ready _ described rfl (.inr Volume.exact_nat) (Prod.ext isReport rfl)⟩

end Planner

/-! ### Every operator leads to an `END`

Simplification leaves only what leads out to a dataset, and what writes one has an output of its own,
so every operator but `END` has outputs. The passes after it keep that, and in a closed graph without
circuits each of these outputs is read on the way to an `END`. -/

namespace Operator

/-- The operator is an `END` or has an output. -/
def Onward (operator : Operator) : Prop := operator.isMarkerOf .finish = true ∨ operator.outputs ≠ []

theorem outputs_ne_nil_added {graph : Graph} {blueprint : Blueprint} (writes : blueprint.outputs ≠ []) :
    (graph.added blueprint).outputs ≠ [] :=
  List.ne_nil_of_length_pos (Graph.length_assignPorts.symm ▸ List.length_pos_of_ne_nil writes)

theorem outputs_ne_nil_rebuilt {graph : Graph} {operator : Operator} (units : List (Option InputUnit))
    (writes : operator.outputs ≠ []) :
    (graph.added (operator.blueprint.withUnits units)).outputs ≠ [] :=
  outputs_ne_nil_added (List.map_eq_nil_iff.not.2 writes)

theorem passed_activates : Passed Activates where
  terminator _ _ _ _ isOutput := nomatch isOutput
  boundary _ _ boundary isOutput := by cases boundary <;> cases isOutput
  rebuilt _ _ units activates isOutput := outputs_ne_nil_rebuilt units (activates isOutput)

theorem passed_onward : Passed Onward where
  terminator _ _ _ _ := .inr (outputs_ne_nil_added (List.cons_ne_nil _ _))
  boundary _ _ boundary := by
    refine .inr (outputs_ne_nil_added ?_)
    cases boundary <;> exact List.cons_ne_nil _ _
  rebuilt _ _ units onward := onward.imp_right (outputs_ne_nil_rebuilt units)

end Operator

namespace Graph

variable {graph : Graph}

/-- In a graph without idle operators every operator but `END` has an output. -/
theorem Lively.onward (lively : graph.Lively) (framed : graph.Framed)
    (activates : ∀ operator ∈ graph.operators, operator.Activates) :
    ∀ operator ∈ graph.operators, operator.Onward := by
  intro operator member
  by_cases terminates : operator.IsTerminator
  · refine terminates.symm.imp id fun isBegin => ?_
    exact List.ne_nil_of_length_eq_add_one (framed.oneOutput operator member isBegin)
  · obtain ⟨output, isThere, isOutput, way⟩ := lively operator member terminates
    right
    rcases ReflTransGen.cases_head way with same | ⟨next, feeds, -⟩
    · obtain rfl := framed.wellFormed.operator_unique isThere member same.symm
      exact activates output isThere isOutput
    · obtain ⟨output, -, -, ⟨producer, isProducer, same, gives⟩, -⟩ := feeds_iff_exists_edge.1 feeds
      obtain rfl := framed.wellFormed.operator_unique isProducer member same
      exact List.map_eq_nil_iff.not.1 (List.ne_nil_of_mem gives)

/-- In a graph that is ready every operator leads to an `END` when all others have outputs. -/
theorem Ready.leadsToEnd (ready : graph.Ready)
    (onward : ∀ operator ∈ graph.operators, operator.Onward) : ∀ id ∈ graph.operatorIds,
      ∃ finish, graph.isMarkerOf .finish finish = true ∧ ReflTransGen graph.Feeds id finish := by
  have founded := ready.acyclic.wellFounded graph.operatorIds
    fun _ _ feeds => mem_operatorIds.2 feeds.operators.2
  intro id isThere
  induction id using founded.induction with
  | _ id ih =>
    obtain ⟨operator, member, rfl⟩ := mem_operatorIds.1 isThere
    cases isFinish : operator.isMarkerOf .finish with
    | true => exact ⟨operator.id, (holds_id ready.wellFormed member).trans isFinish, .refl⟩
    | false =>
      have writes := (onward operator member).resolve_left (by rw [isFinish]; exact Bool.false_ne_true)
      obtain ⟨output, gives⟩ := List.exists_mem_of_ne_nil _ writes
      obtain ⟨target, isEdge⟩ := ready.read operator member isFinish output gives
      obtain ⟨reader, isReader, takes⟩ := ready.wellFormed.targets _ isEdge
      have feeds : graph.Feeds operator.id reader.id := feeds_iff_exists_edge.2 ⟨_, _, isEdge,
        ⟨operator, member, rfl, List.mem_map_of_mem gives⟩, reader, isReader, rfl, takes⟩
      obtain ⟨finish, isEnd, way⟩ := ih reader.id feeds (mem_operatorIds.2 ⟨reader, isReader, rfl⟩)
      exact ⟨finish, isEnd, way.head feeds⟩

end Graph

namespace Planner

variable {ν : Type} [Volume ν] (planner : Planner ν)

/-- In the graph that preparation leaves every operator leads to an `END`. -/
theorem prepare_leadsToEnd {document : Document} {named : NamedGraph}
    (described : document.build = .ok named) (standard : planner.simplifier = .standard)
    (sums : planner.config.broadcastLimit = none ∨ Volume.Exact ν) {report : PreparationReport}
    {prepared : Graph} (succeeds : planner.prepare.Yields named.graph report prepared) :
    ∀ id ∈ prepared.operatorIds, ∃ finish, prepared.isMarkerOf .finish finish = true ∧
      ReflTransGen prepared.Feeds id finish := by
  have framed := Document.framed_build described
  have unmarked := Document.unmarked_build described
  obtain ⟨prepares⟩ := planner.exists_prepares standard framed succeeds
  refine (prepares.ready sums).leadsToEnd ?_
  have lively : prepares.optimized.Lively := by
    have ends := planner.ends_optimize standard framed unmarked.slender
    have both : (do Edit.attachTerminators; planner.optimize).Yields named.graph report.optimization
        prepares.optimized := Edit.yields_bind.2 ⟨_, _, prepares.attaches, prepares.optimizes⟩
    rw [Edit.Ends, both] at ends
    exact ends.1.lively
  have activates : prepares.optimized.All Operator.Activates := by
    have lasting := Operator.passed_activates.lasting
    have isStandard := prepares.optimizes
    rw [optimize, standard] at isStandard
    exact lasting.settle (Edit.all_ofRules _) 0 planner.stepLimit _ _ _ isStandard
      (lasting.attachTerminators _ _ _ prepares.attaches ⟨framed.wellFormed, unmarked.activates⟩)
  have lasting := Operator.passed_onward.lasting
  have optimized : prepares.optimized.All Operator.Onward :=
    ⟨prepares.closed.wellFormed, lively.onward prepares.closed.toFramed activates.each⟩
  have fixed := planner.all_fixUnits Operator.passed_onward _ _ _ prepares.fixes optimized
  have marked := lasting.markCheckpoints _ _ _ prepares.marks fixed
  have bounded := lasting.bounding planner _ _ _ prepares.bounds marked
  obtain ⟨count, simplifies⟩ := prepares.simplifies
  exact (lasting.of_narrows Edit.narrows_simplifyTerminators _ _ _ simplifies bounded).each

end Planner

end StagePlanner
