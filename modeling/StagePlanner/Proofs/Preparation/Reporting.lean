import StagePlanner.Preparation
import StagePlanner.Proofs.Dependency.Circuit
import StagePlanner.Proofs.Dependency.Countdown
import StagePlanner.Proofs.Document.Building
import StagePlanner.Proofs.Estimate.Invariance
import StagePlanner.Proofs.Preparation.Rounds

/-!
# Circuits of documents

Preparation ends with one finding for every circuit of the graph that simplification leaves, and a
circuit of the document that leads out leaves one there (`Planner.prepare_circuit`). There is one
exception: a circuit of projections that change nothing makes simplification fail before circuits are
looked for.
-/

namespace StagePlanner

open Relation

namespace Graph

variable {graph : Graph}

/-- All operators that some operator reaches and is reached by. -/
def IsCircuit (graph : Graph) (circuit : OrderedSet OperatorId) : Prop :=
  ∃ id ∈ circuit, ∀ other, other ∈ circuit ↔
    TransGen graph.Feeds id other ∧ TransGen graph.Feeds other id

/-- Ways of dependencies are ways of data, backwards. -/
theorem transGen_depends (wellFormed : graph.WellFormed) {source target : OperatorId} :
    TransGen graph.dependencies.Depends target source ↔ TransGen graph.Feeds source target := by
  have same : graph.dependencies.Depends = Function.swap graph.Feeds := by
    funext target source
    exact propext (depends_dependencies wellFormed)
  rw [same, transGen_swap]

theorem mem_circuits (wellFormed : graph.WellFormed) {circuit : OrderedSet OperatorId} :
    circuit ∈ graph.dependencies.circuits ↔ graph.IsCircuit circuit := by
  rw [DependencyGraph.mem_circuits_iff dependencies_wellFormed]
  simp only [DependencyGraph.Mutual, transGen_depends wellFormed, IsCircuit, and_comm]

theorem HasLiveCircuit.exists_circuit (wellFormed : graph.WellFormed) {pass : Operator → Bool}
    (live : graph.HasLiveCircuit pass) : graph.dependencies.circuits ≠ [] := by
  obtain ⟨id, circuit, -⟩ := live
  obtain ⟨_, listed, -⟩ := DependencyGraph.exists_circuit_of_transGen dependencies_wellFormed
    ((transGen_depends wellFormed).2 (TransGen.mono (fun _ _ => And.right) _ _ circuit))
  exact List.ne_nil_of_mem listed

/-- A graph with circuits is refused with the findings about them, and no other graph is. -/
theorem validateAcyclic_eq_error_iff {fault : Fault} :
    graph.validateAcyclic = .error fault ↔
      graph.circuitFindings ≠ [] ∧ fault = .diagnostics graph.circuitFindings := by
  rw [validateAcyclic]
  split
  · next none => exact iff_of_false (fun failed => by cases failed) fun both => both.1 none
  · next some =>
    exact ⟨fun failed => ⟨some, (Except.error.inj failed).symm⟩, fun both => both.2 ▸ rfl⟩

/-- The circuits among the strongly connected components of a dependency graph are its circuits, each
once and in ascending order, and there is none exactly when the graph has an order, which counting down
finds as well. An operator graph is refused exactly when it has a circuit, with one finding for every
circuit among the components of its dependencies. -/
theorem circuitsAmong_exact {α : Type} [Ord α] [DecidableEq α] [Std.TransOrd α] [Std.LawfulEqOrd α]
    {dependencies : DependencyGraph α} (wellFormed : dependencies.WellFormed)
    {components : List (List α)} (listed : dependencies.ListsComponents components)
    (operatorsWellFormed : graph.WellFormed) {groups : List (List OperatorId)}
    (grouped : graph.dependencies.ListsComponents groups) :
    dependencies.ListsCircuits (dependencies.circuitsAmong components) ∧
    dependencies.circuitsAmong components = dependencies.circuits ∧
    (dependencies.circuitsAmong components = [] ↔ ∃ order, dependencies.order = .ok order) ∧
    dependencies.countedOrder (fun vertex => vertex) = some dependencies.order ∧
    ∀ fault, graph.validateAcyclic = .error fault ↔ ¬ graph.Acyclic ∧
      fault = .diagnostics ((graph.dependencies.circuitsAmong groups).map graph.circuitFinding) := by
  have orders : dependencies.circuits = [] ↔ ∃ order, dependencies.order = .ok order :=
    (DependencyGraph.circuits_eq_nil_iff wellFormed).trans
      (DependencyGraph.orderBy_isOk_iff wellFormed).symm
  have findings : graph.circuitFindings = [] ↔ graph.Acyclic :=
    List.map_eq_nil_iff.trans <|
      (DependencyGraph.circuits_eq_nil_iff dependencies_wellFormed).trans
        (circuitless_dependencies_iff operatorsWellFormed)
  rw [listed.circuitsAmong_eq wellFormed, grouped.circuitsAmong_eq dependencies_wellFormed,
    ← findings]
  exact ⟨DependencyGraph.listsCircuits wellFormed, rfl, orders,
    DependencyGraph.countedOrder_eq wellFormed _, fun _ => validateAcyclic_eq_error_iff⟩

/-- Four projections: two that feed each other, one that the second of them and itself feed, and one
behind that. -/
def circuitSample : Graph :=
  let projections : Graph := (List.range 4).foldl
    (fun graph _ => (graph.add (.core .project (.named "t"))).2) .empty
  ((((projections.link ⟨1⟩ ⟨2⟩).link ⟨3⟩ ⟨0⟩).link ⟨3⟩ ⟨4⟩).link ⟨5⟩ ⟨4⟩).link ⟨5⟩ ⟨6⟩

theorem wellFormed_circuitSample : circuitSample.WellFormed := by
  have empty : Graph.empty.WellFormed := wellFormed_of_no_operators rfl rfl
  have projections := (((empty.add (.core .project (.named "t"))).add (.core .project (.named "t"))).add
    (.core .project (.named "t"))).add (.core .project (.named "t"))
  refine .link (.link (.link (.link (.link projections ?_ ?_) ?_ ?_) ?_ ?_) ?_ ?_) ?_ ?_
  all_goals decide +kernel

/-- The components of the sample, as a search that lists dependencies last may find them. -/
def componentsSample : List (List OperatorId) := [[⟨3⟩], [⟨2⟩], [⟨1⟩, ⟨0⟩]]

/-- The sample is refused for the two projections that feed each other and for the one that feeds
itself. -/
theorem circuitsAmong_exact_circuitSample :
    circuitSample.dependencies.ListsCircuits
      (circuitSample.dependencies.circuitsAmong componentsSample) ∧
    circuitSample.dependencies.circuitsAmong componentsSample =
      [.ofList [⟨0⟩, ⟨1⟩], .ofList [⟨2⟩]] ∧
    circuitSample.validateAcyclic = .error (.diagnostics [
      "operator graph must be acyclic: [core:Project#0, core:Project#1]",
      "operator graph must be acyclic: [core:Project#2]"]) := by
  have listed : circuitSample.dependencies.ListsComponents componentsSample :=
    .of_reachable dependencies_wellFormed (by decide) (by decide +kernel) (by decide)
      (by decide +kernel)
  obtain ⟨circuits, same, -, -, fails⟩ :=
    circuitsAmong_exact dependencies_wellFormed listed wellFormed_circuitSample listed
  have computed : circuitSample.dependencies.circuits = [.ofList [⟨0⟩, ⟨1⟩], .ofList [⟨2⟩]] := by
    decide +kernel
  have cyclic : ¬ circuitSample.Acyclic := by
    rw [← circuitless_dependencies_iff wellFormed_circuitSample,
      ← DependencyGraph.circuits_eq_nil_iff dependencies_wellFormed, computed]
    exact List.cons_ne_nil _ _
  refine ⟨circuits, same.trans computed, (fails _).2 ⟨cyclic, ?_⟩⟩
  rw [same, computed]
  decide +kernel

end Graph

namespace Edit

variable {graph : Graph}

/-- A graph with circuits is refused with the findings about them. -/
theorem fails_validateAcyclic (circuits : graph.dependencies.circuits ≠ [])
    {after : Unit → Graph → Prop} :
    validateAcyclic.Ends graph after fun fault _ => fault = .diagnostics graph.circuitFindings := by
  refine Ends.get_bind ?_
  rw [Graph.validateAcyclic_eq_error_iff.2 ⟨List.map_eq_nil_iff.not.2 circuits, rfl⟩]
  exact Ends.fail rfl

end Edit

namespace Planner

variable {ν : Type} [Volume ν] (planner : Planner ν) {document : Document} {named : NamedGraph}

omit [Volume ν] in
/-- Simplifying a graph keeps its circuits that lead out and fails at those of projections that change
nothing. -/
theorem ends_optimize (standard : planner.simplifier = .standard) {graph : Graph} (framed : graph.Framed)
    (slender : ∀ operator ∈ graph.operators, operator.Slender) :
    (do Edit.attachTerminators; planner.optimize).Ends graph
      (fun _ result => graph.Reduces result ∧
        (planner.stepLimit = 0 ∨ ¬ graph.HasLiveCircuit Operator.isTrivialProjection))
      fun fault _ => Edit.IsUnknownPort fault ∧ planner.stepLimit ≠ 0 ∧
        graph.HasLiveCircuit Operator.isTrivialProjection := by
  have wellFormed := framed.wellFormed
  refine ((Edit.ends_attachTerminators framed).mono fun _ middle yields ⟨attaches, closed⟩ =>
    And.intro attaches (And.intro closed (Operator.passed_slender.lasting.attachTerminators
      _ _ _ yields ⟨wellFormed, slender⟩).each)).bind fun _ middle ⟨attaches, closed, slender⟩ => ?_
  rw [optimize, Simplifier.optimize, standard]
  have circuits : ∀ pass, middle.HasLiveCircuit pass ↔ graph.HasLiveCircuit pass :=
    fun pass => attaches.hasLiveCircuit_iff wellFormed
  rw [← circuits]
  exact (Edit.ends_settle 0 planner.stepLimit closed slender).mono fun _ result _ ⟨reduces, hollow⟩ =>
    ⟨⟨reduces.closed, reduces.lively, reduces.slender, reduces.circuits.trans (circuits _)⟩, hollow⟩

/-- A circuit of a document from which data reach an external output makes preparation fail: with one
finding for every circuit of the graph that simplification leaves, of which there is at least one, or,
if simplification gets to work on a circuit of projections that change nothing, because it asks for
a port that is gone. -/
theorem prepare_circuit (described : document.build = .ok named)
    (standard : planner.simplifier = .standard)
    (circuit : named.graph.HasLiveCircuit fun _ => true) :
    (planner.stepLimit = 0 ∨ ¬ named.graph.HasLiveCircuit Operator.isTrivialProjection →
      ∃ outcome optimized circuits,
        (do Edit.attachTerminators; planner.optimize).Yields named.graph outcome optimized ∧
        circuits ≠ [] ∧ circuits.Nodup ∧ (∀ circuit, circuit ∈ circuits ↔ optimized.IsCircuit circuit) ∧
        (planner.prepare.apply named.graph).1 =
          .error (.diagnostics (circuits.map optimized.circuitFinding))) ∧
    (planner.stepLimit ≠ 0 → named.graph.HasLiveCircuit Operator.isTrivialProjection →
      ∃ port, (planner.prepare.apply named.graph).1 = .error (.graph (.unknownPort port))) := by
  have slender := (Document.unmarked_build described).slender
  have ends := planner.ends_optimize standard (Document.framed_build described) slender
  have fails : planner.prepare.Ends named.graph (fun _ _ => False) fun fault _ =>
      (Edit.IsUnknownPort fault ∧ planner.stepLimit ≠ 0 ∧
        named.graph.HasLiveCircuit Operator.isTrivialProjection) ∨
      ∃ outcome optimized,
        (do Edit.attachTerminators; planner.optimize).Yields named.graph outcome optimized ∧
        named.graph.Reduces optimized ∧
        (planner.stepLimit = 0 ∨ ¬ named.graph.HasLiveCircuit Operator.isTrivialProjection) ∧
        fault = .diagnostics optimized.circuitFindings := by
    rw [prepare, ← bind_assoc]
    refine ((ends.weaken fun _ _ => .inl).mono fun outcome optimized yields after =>
      And.intro yields after).bind fun outcome optimized ⟨yields, reduces, notHollow⟩ => ?_
    have circuits := (reduces.circuits.2 circuit).exists_circuit reduces.closed.wellFormed
    exact ((Edit.fails_validateAcyclic circuits).weaken fun fault _ same =>
      .inr ⟨outcome, optimized, yields, reduces, notHollow, same⟩).bind fun _ _ => False.elim
  obtain ⟨fault, result, failed, ⟨⟨port, rfl⟩, limit, hollow⟩ |
    ⟨outcome, optimized, yields, reduces, notHollow, rfl⟩⟩ := fails.fails
  · exact ⟨fun notHollow => absurd hollow (notHollow.resolve_left limit),
      fun _ _ => ⟨port, congrArg Prod.fst failed⟩⟩
  · have wellFormed := reduces.closed.wellFormed
    exact ⟨fun _ => ⟨outcome, optimized, optimized.dependencies.circuits, yields,
      (reduces.circuits.2 circuit).exists_circuit wellFormed, DependencyGraph.nodup_circuits,
      fun _ => Graph.mem_circuits wellFormed, congrArg Prod.fst failed⟩,
      fun limit hollow => absurd hollow (notHollow.resolve_left limit)⟩

/-- Rows that a projection that changes nothing passes to itself and to a dataset. -/
def hollowSample : Document where
  operators := [
    { id := "in", kind := "input", type := some (.named "t") },
    { id := "p", kind := "project", type := some (.named "t") },
    { id := "out", kind := "output", type := some (.named "t") }]
  edges := [⟨"in", "p"⟩, ⟨"p", "p"⟩, ⟨"p", "out"⟩]

/-- The projection is a circuit of its own, and it feeds the dataset. -/
theorem exists_hollowSample : ∃ named, hollowSample.build = .ok named ∧
    named.graph.HasLiveCircuit Operator.isTrivialProjection ∧
    named.graph.HasLiveCircuit fun _ => true := by
  have computed : (hollowSample.build.map fun named => decide
      ((named.graph.holds Operator.isTrivialProjection ⟨1⟩ = true ∧
          named.graph.holds (fun _ => true) ⟨1⟩ = true) ∧
        (named.graph.Wired ⟨⟨1⟩, 0⟩ ⟨⟨1⟩, 0⟩ ∧ named.graph.Wired ⟨⟨1⟩, 0⟩ ⟨⟨2⟩, 0⟩) ∧
        ∃ output ∈ named.graph.operators, output.kind.isOutput = true ∧ output.id = ⟨2⟩)).toOption =
      some true := by decide +kernel
  obtain ⟨named, described, holds⟩ := exists_of_map_toOption computed
  obtain ⟨⟨isTrivial, isThere⟩, ⟨loop, leaves⟩, output, member, isOutput, same⟩ :=
    of_decide_eq_true holds
  have leadsOut : named.graph.LeadsOut ⟨1⟩ := ⟨output, member, isOutput, .single (same ▸ leaves.feeds)⟩
  exact ⟨named, described, ⟨⟨1⟩, .single ⟨isTrivial, loop.feeds⟩, leadsOut⟩,
    ⟨1⟩, .single ⟨isThere, loop.feeds⟩, leadsOut⟩

/-- Rows that an extraction passes to a dataset and, by way of a projection that changes nothing, back
to itself. -/
def feedbackSample : Document where
  operators := [
    { id := "in", kind := "input", type := some (.named "t") },
    { id := "a", kind := "extract"
      inputs := [{ name := "i", type := .named "t" }]
      outputs := [{ name := "o", type := .named "t" }] },
    { id := "p", kind := "project", type := some (.named "t") },
    { id := "out", kind := "output", type := some (.named "t") }]
  edges := [⟨"in", "a"⟩, ⟨"a", "p"⟩, ⟨"p", "a"⟩, ⟨"a", "out"⟩]

/-- The extraction and the projection are on a circuit, but the projection does not feed itself. -/
theorem exists_feedbackSample : ∃ named, feedbackSample.build = .ok named ∧
    ¬ named.graph.HasLiveCircuit Operator.isTrivialProjection ∧
    named.graph.HasLiveCircuit fun _ => true := by
  have computed : (feedbackSample.build.map fun named => decide
      ((named.graph.holds (fun _ => true) ⟨1⟩ = true ∧ named.graph.holds (fun _ => true) ⟨2⟩ = true) ∧
        (named.graph.Wired ⟨⟨1⟩, 0⟩ ⟨⟨2⟩, 0⟩ ∧ named.graph.Wired ⟨⟨2⟩, 0⟩ ⟨⟨1⟩, 0⟩ ∧
          named.graph.Wired ⟨⟨1⟩, 0⟩ ⟨⟨3⟩, 0⟩) ∧
        (∃ output ∈ named.graph.operators, output.kind.isOutput = true ∧ output.id = ⟨3⟩) ∧
        ∀ operator ∈ named.graph.operators, operator.isTrivialProjection = true →
          ∀ target ∈ named.graph.successors operator.id,
            named.graph.holds Operator.isTrivialProjection target = false)).toOption =
      some true := by decide +kernel
  obtain ⟨named, described, holds⟩ := exists_of_map_toOption computed
  obtain ⟨⟨first, second⟩, ⟨onward, back, leaves⟩, ⟨output, member, isOutput, same⟩, apart⟩ :=
    of_decide_eq_true holds
  have wellFormed := (Document.regular_build described).wellFormed
  refine ⟨named, described, fun live => ?_, ⟨1⟩, .head ⟨first, onward.feeds⟩ (.single ⟨second, back.feeds⟩),
    output, member, isOutput, .single (same ▸ leaves.feeds)⟩
  obtain ⟨_, target, step, isTrivial⟩ := live.exists_step
  obtain ⟨feeds, operator, isThere, rfl, passes⟩ := (Graph.feedsBy_iff_exists wellFormed).1 step
  rw [apart operator isThere passes target ((Graph.mem_successors wellFormed).2 feeds)] at isTrivial
  cases isTrivial

/-- Without rounds the circuit of the projection that feeds itself is found; with rounds preparation
fails before. The circuit of the extraction is found with the usual number of rounds. -/
theorem prepare_circuit_samples :
    (∃ named, hollowSample.build = .ok named ∧ named.graph.HasLiveCircuit (fun _ => true) ∧
      (∃ outcome optimized circuits,
        (do Edit.attachTerminators
            ({ config := .standard, stepLimit := 0 } : Planner Nat).optimize).Yields named.graph
          outcome optimized ∧
        circuits ≠ [] ∧ circuits.Nodup ∧ (∀ circuit, circuit ∈ circuits ↔ optimized.IsCircuit circuit) ∧
        (({ config := .standard, stepLimit := 0 } : Planner Nat).prepare.apply named.graph).1 =
          .error (.diagnostics (circuits.map optimized.circuitFinding))) ∧
      ∃ port, (({ config := .standard } : Planner Nat).prepare.apply named.graph).1 =
        .error (.graph (.unknownPort port))) ∧
    ∃ named, feedbackSample.build = .ok named ∧ named.graph.HasLiveCircuit (fun _ => true) ∧
      ¬ named.graph.HasLiveCircuit Operator.isTrivialProjection ∧
      ∃ outcome optimized circuits,
        (do Edit.attachTerminators
            ({ config := .standard } : Planner Nat).optimize).Yields named.graph outcome optimized ∧
        circuits ≠ [] ∧ circuits.Nodup ∧ (∀ circuit, circuit ∈ circuits ↔ optimized.IsCircuit circuit) ∧
        (({ config := .standard } : Planner Nat).prepare.apply named.graph).1 =
          .error (.diagnostics (circuits.map optimized.circuitFinding)) ∧
        circuits.map optimized.circuitFinding = ["operator graph must be acyclic: [a[Extract]#1]"] := by
  constructor
  · obtain ⟨named, described, hollow, circuit⟩ := exists_hollowSample
    exact ⟨named, described, circuit,
      (prepare_circuit { config := .standard, stepLimit := 0 } described rfl circuit).1 (.inl rfl),
      (prepare_circuit { config := .standard } described rfl circuit).2 (Nat.succ_ne_zero _) hollow⟩
  · obtain ⟨named, described, notHollow, circuit⟩ := exists_feedbackSample
    obtain ⟨outcome, optimized, circuits, yields, nonempty, once, exactly, failed⟩ :=
      (prepare_circuit ({ config := .standard } : Planner Nat) described rfl circuit).1 (.inr notHollow)
    refine ⟨named, described, circuit, notHollow, outcome, optimized, circuits, yields, nonempty,
      once, exactly, failed, ?_⟩
    have computed : (feedbackSample.build.map fun named =>
        match (({ config := .standard } : Planner Nat).prepare.apply named.graph).1 with
        | .error (.diagnostics findings) => findings
        | _ => []).toOption = some ["operator graph must be acyclic: [a[Extract]#1]"] := by
      decide +kernel
    rw [described] at computed
    obtain ⟨_, same, findings⟩ := exists_of_map_toOption computed
    obtain rfl := Except.ok.inj same
    rw [failed] at findings
    exact findings

/-- A circuit from which data reach an external output need not be reported: no finding comes of a
projection that feeds itself. -/
theorem not_prepare_reports : ¬ ∀ (document : Document) (named : NamedGraph) (planner : Planner Nat),
    document.build = .ok named → planner.simplifier = .standard →
      named.graph.HasLiveCircuit (fun _ => true) →
        ∃ findings, (planner.prepare.apply named.graph).1 = .error (.diagnostics findings) := by
  intro reports
  obtain ⟨named, described, -, circuit⟩ := exists_hollowSample
  obtain ⟨findings, reported⟩ :=
    reports hollowSample named { config := .standard } described rfl circuit
  have computed : (hollowSample.build.map fun named =>
      match (({ config := .standard } : Planner Nat).prepare.apply named.graph).1 with
      | .error (.graph (.unknownPort port)) => port.index
      | _ => 0).toOption = some 2 := by decide +kernel
  rw [described] at computed
  obtain ⟨_, same, atPort⟩ := exists_of_map_toOption computed
  obtain rfl := Except.ok.inj same
  rw [reported] at atPort
  cases atPort

end Planner

end StagePlanner
