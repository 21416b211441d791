import Mathlib.Data.List.Perm.Basic
import StagePlanner.Proofs.Dependency.Circuit
import StagePlanner.Proofs.Estimate.Equations

/-!
# Estimates do not depend on orders and identifiers

The equations of a graph without circuits have one solution (`Estimator.output?_unique`), so it does
not matter in which order independent operators are visited (`Estimator.estimate_unique`), and a
graph in which operators and ports have other identifiers has the same estimates
(`Estimator.input?_estimate_renamed`). Other identifiers change the order in which volumes are added
up, so sums must not depend on it.
-/

namespace StagePlanner

variable {ν : Type} [Volume ν]

namespace Volume

/-- Sums do not depend on the order in which volumes are added, as those of exact numbers do not. -/
def Exact (ν : Type) [Volume ν] : Prop :=
  ∀ first second third : ν, add (add first second) third = add (add first third) second

omit [Volume ν] in
theorem mapM_id_eq (volumes : List (Option ν)) :
    volumes.mapM id =
      if volumes.all Option.isSome then some (volumes.filterMap id) else none := by
  induction volumes with
  | nil => rfl
  | cons volume rest ih =>
    rw [List.mapM_cons, ih]
    cases volume with
    | none => rfl
    | some known =>
      rw [List.all_cons, List.filterMap_cons_some (rfl : id (some known) = some known)]
      cases rest.all Option.isSome <;> rfl

theorem sum?_perm (exact : Exact ν) {volumes others : List (Option ν)}
    (perm : volumes.Perm others) : sum? volumes = sum? others := by
  have commutes : RightCommutative (add : ν → ν → ν) := ⟨exact⟩
  rw [sum?, sum?, mapM_id_eq, mapM_id_eq, perm.all_eq]
  split
  · exact congrArg some ((perm.filterMap id).foldl_eq emptySum)
  · rfl

end Volume

/-- Volumes in whole bytes; shares are rounded down. -/
instance : Volume Nat where
  ofBytes bytes := bytes
  emptySum := 0
  add := Nat.add
  share
    | .tenth, bytes => bytes / 10
    | .quarter, bytes => bytes / 4
    | .twoFifths, bytes => bytes * 2 / 5
    | .half, bytes => bytes / 2
  atMost left right := left ≤ right

theorem Volume.exact_nat : Volume.Exact Nat := Nat.add_right_comm

namespace Graph

variable {graph result : Graph} {becomes : Operator → Operator} {rename : PortId → PortId}

/-- In a graph without circuits everything can be shown of an operator from what feeds it. -/
theorem Acyclic.induction (acyclic : graph.Acyclic) (holds : Operator → Prop)
    (step : ∀ operator ∈ graph.operators,
      (∀ producer ∈ graph.operators, graph.Feeds producer.id operator.id → holds producer) →
        holds operator) :
    ∀ operator ∈ graph.operators, holds operator := by
  have founded := Circuitless.wellFounded (Circuitless.converse acyclic) graph.operatorIds
    fun _ _ feeds => mem_operatorIds.2 feeds.operators.1
  intro operator member
  generalize isId : operator.id = id
  induction id using founded.induction generalizing operator with
  | _ id ih =>
    subst isId
    exact step operator member fun producer isProducer feeds => ih producer.id feeds producer isProducer rfl

theorem nodup_producers (graph : Graph) (port : PortId) : (graph.producers port).Nodup := by
  refine List.Nodup.map_on (fun left isLeft right isRight same => ?_)
    (graph.edges.nodup.filter _)
  have leftEnds := of_decide_eq_true (List.mem_filter.1 isLeft).2
  have rightEnds := of_decide_eq_true (List.mem_filter.1 isRight).2
  cases left
  cases right
  exact Edge.mk.injEq .. ▸ ⟨same, leftEnds.trans rightEnds.symm⟩

/-- What feeds a renamed input is what fed it under other names. -/
theorem Renamed.perm_producers (renamed : graph.Renamed result becomes rename)
    (wellFormed : graph.WellFormed) {operator : Operator} (member : operator ∈ graph.operators)
    {input : PortId} (owned : input ∈ operator.inputs.map Port.id) :
    ((graph.producers input).map rename).Perm (result.producers (rename input)) := by
  refine (List.perm_ext_iff_of_nodup ?_ (result.nodup_producers _)).2 fun source => ?_
  · refine List.Nodup.map_on (fun left isLeft right isRight same => ?_) (graph.nodup_producers input)
    obtain ⟨producer, isProducer, gives⟩ := wellFormed.sources _ (mem_producers.1 isLeft)
    obtain ⟨other, isOther, alsoGives⟩ := wellFormed.sources _ (mem_producers.1 isRight)
    exact renamed.rename_injective .output isProducer isOther gives alsoGives same
  · rw [mem_producers, List.mem_map]
    simp only [mem_producers]
    exact (renamed.edges_at wellFormed .input member owned).symm

end Graph

/-- Inputs get the same volume when the same volumes are added up there. -/
theorem Estimates.input?_of_perm {ours theirs : Estimates ν} (exact : Volume.Exact ν)
    {graph result : Graph} {input other : PortId}
    (volumes : ((graph.producers input).map ours.output?).Perm
      ((result.producers other).map theirs.output?)) :
    theirs.input? result other = ours.input? graph input := by
  rw [input?, input?]
  cases producers : graph.producers input with
  | nil =>
    rw [producers, List.map_nil] at volumes
    rw [List.map_eq_nil_iff.1 volumes.nil_eq.symm]
  | cons first rest =>
    rw [producers] at volumes
    cases others : result.producers other with
    | nil =>
      rw [others] at volumes
      cases volumes.eq_nil
    | cons another more =>
      rw [others] at volumes
      exact (Volume.sum?_perm exact volumes).symm

namespace Estimator

section Uniqueness

variable {hints : List (String × Nat)} {graph : Graph}

/-- The estimates at all outputs are what the operators make of the estimates at their inputs. -/
def Balanced (hints : List (String × Nat)) (graph : Graph) (estimates : Estimates ν) : Prop :=
  ∀ operator ∈ graph.operators, ∀ output ∈ operator.outputs.map Port.id,
    estimates.output? output = outputVolume? hints graph estimates operator

/-- In a graph without circuits there is one way to balance the outputs. -/
theorem output?_unique (wellFormed : graph.WellFormed) (acyclic : graph.Acyclic)
    {ours theirs : Estimates ν} (balanced : Balanced hints graph ours)
    (alsoBalanced : Balanced hints graph theirs) :
    ∀ operator ∈ graph.operators, ∀ output ∈ operator.outputs.map Port.id,
      ours.output? output = theirs.output? output := by
  refine acyclic.induction _ fun operator member before output owned => ?_
  rw [balanced operator member output owned, alsoBalanced operator member output owned]
  refine outputVolume?_congr (.refl operator) (List.map_congr_left fun port isPort => ?_)
  refine input?_congr fun source isEdge => ?_
  obtain ⟨producer, isProducer, gives⟩ := wellFormed.sources _ isEdge
  exact before producer isProducer (Graph.feeds_iff_exists_edge.2 ⟨_, _, isEdge,
    ⟨producer, isProducer, rfl, gives⟩, operator, member, rfl, List.mem_map_of_mem isPort⟩) source gives

/-- The estimates of a graph without circuits balance its outputs, there are none elsewhere, they are
the only ones that do so, and every order in which nothing comes before what feeds it leads to
them. -/
theorem estimate_unique (wellFormed : graph.WellFormed) (acyclic : graph.Acyclic)
    (hints : List (String × Nat)) :
    Balanced hints graph ((flowing hints).estimate graph : Estimates ν) ∧
    (∀ port, (∀ operator ∈ graph.operators, port ∉ operator.outputs.map Port.id) →
      ((flowing hints).estimate graph : Estimates ν).output? port = none) ∧
    (∀ estimates : Estimates ν, Balanced hints graph estimates →
      ∀ operator ∈ graph.operators, ∀ output ∈ operator.outputs.map Port.id,
        estimates.output? output = ((flowing hints).estimate graph : Estimates ν).output? output) ∧
    ∀ order, graph.Downstream order → ∀ port,
      (order.foldl (visit hints graph) ({} : Estimates ν)).output? port =
        ((flowing hints).estimate graph : Estimates ν).output? port := by
  have balanced : Balanced hints graph ((flowing hints).estimate graph : Estimates ν) :=
    fun operator member output owned => output?_estimate wellFormed acyclic member owned
  have inOrder := downstream_visitOrder wellFormed acyclic
  have unknown : ∀ port, (∀ operator ∈ graph.operators, port ∉ operator.outputs.map Port.id) →
      ((flowing hints).estimate graph : Estimates ν).output? port = none := fun port unowned =>
    (solves_estimate wellFormed acyclic).unknown port fun operator visited =>
      unowned operator (inOrder.perm.mem_iff.1 visited)
  refine ⟨balanced, unknown, fun estimates alsoBalanced =>
    output?_unique wellFormed acyclic alsoBalanced balanced, fun order downstream port => ?_⟩
  have solves : Solves hints graph order (order.foldl (visit hints graph) ({} : Estimates ν)) :=
    solves_foldl wellFormed acyclic downstream
  by_cases owned : ∃ operator ∈ graph.operators, port ∈ operator.outputs.map Port.id
  · obtain ⟨operator, member, gives⟩ := owned
    exact output?_unique wellFormed acyclic (fun other isOther =>
      solves.equation other (downstream.perm.mem_iff.2 isOther)) balanced operator member port gives
  · have unowned := fun operator member gives => owned ⟨operator, member, gives⟩
    rw [unknown port unowned]
    exact solves.unknown port fun operator visited =>
      unowned operator (downstream.perm.mem_iff.1 visited)

end Uniqueness

/-- Two tables, one of which declares its size, are read together. -/
def unionSample : Graph :=
  let rows : DataType := .named "row"
  let row : PortShape := { name := "row", dataType := rows }
  let blueprints : List Blueprint :=
    [.marker .begin Blueprint.activationType, (Blueprint.externalInput "old" rows).withDeclaredSize 1000,
      .externalInput "new" rows, ((Blueprint.user "clean" .extract).withInput row).withOutput row,
      .externalOutput "result" rows, .marker .finish Blueprint.activationType]
  let edges : List (Nat × Nat) := [(1, 2), (1, 4), (3, 6), (5, 6), (7, 8), (9, 10)]
  let operators := blueprints.foldl (fun graph blueprint => (graph.add blueprint).2) Graph.empty
  edges.foldl (fun graph (source, target) => graph.link ⟨source⟩ ⟨target⟩) operators

theorem wellFormed_unionSample : unionSample.WellFormed where
  ascending := by decide +kernel
  operatorsBelow := by decide +kernel
  ports := by decide +kernel
  portsBelow := by decide +kernel
  sources := by
    change ∀ edge ∈ unionSample.edges.toList, _
    decide +kernel
  targets := by
    change ∀ edge ∈ unionSample.edges.toList, _
    decide +kernel

/-- The tables of the sample may be visited in both orders. -/
theorem estimate_unique_unionSample : unionSample.WellFormed ∧ unionSample.Acyclic ∧
    ((flowing [("new", 40)]).estimate unionSample : Estimates Nat).output? ⟨7⟩ = some 1040 ∧
    ∃ order, unionSample.Downstream order ∧ order ≠ visitOrder unionSample ∧ ∀ port,
      (order.foldl (visit [("new", 40)] unionSample) ({} : Estimates Nat)).output? port =
        ((flowing [("new", 40)]).estimate unionSample : Estimates Nat).output? port := by
  have acyclic : unionSample.Acyclic := (Graph.circuitless_dependencies_iff wellFormed_unionSample).1
    ((DependencyGraph.circuits_eq_nil_iff Graph.dependencies_wellFormed).1 (by decide +kernel))
  have downstream : unionSample.Downstream
      ([⟨0⟩, ⟨2⟩, ⟨1⟩, ⟨3⟩, ⟨4⟩, ⟨5⟩].filterMap unionSample.operator?) := by
    refine ⟨by decide +kernel, ?_⟩
    simp only [← Graph.mem_successors wellFormed_unionSample]
    decide +kernel
  exact ⟨wellFormed_unionSample, acyclic, by decide +kernel, _, downstream, by decide +kernel,
    (estimate_unique wellFormed_unionSample acyclic [("new", 40)]).2.2.2 _ downstream⟩

variable {graph result : Graph} {becomes : Operator → Operator} {rename : PortId → PortId}
  (renamed : graph.Renamed result becomes rename) (wellFormed : graph.WellFormed)
  (exact : Volume.Exact ν)

include renamed wellFormed exact

/-- A renamed input gets the same volume when its producers give the same volumes. -/
theorem input?_renamed {ours theirs : Estimates ν} {operator : Operator}
    (member : operator ∈ graph.operators) {input : PortId}
    (owned : input ∈ operator.inputs.map Port.id)
    (same : ∀ source, ⟨source, input⟩ ∈ graph.edges →
      theirs.output? (rename source) = ours.output? source) :
    theirs.input? result (rename input) = ours.input? graph input := by
  refine Estimates.input?_of_perm exact (List.Perm.trans (List.Perm.of_eq ?_)
    ((renamed.perm_producers wellFormed member owned).map theirs.output?))
  rw [List.map_map]
  exact List.map_congr_left fun source isProducer => (same source (Graph.mem_producers.1 isProducer)).symm

/-- A renamed graph has the same estimates at its outputs. -/
theorem output?_estimate_renamed (acyclic : graph.Acyclic) (hints : List (String × Nat))
    {operator : Operator} (member : operator ∈ graph.operators) {output : PortId}
    (owned : output ∈ operator.outputs.map Port.id) :
    ((flowing hints).estimate result : Estimates ν).output? (rename output) =
      ((flowing hints).estimate graph : Estimates ν).output? output := by
  refine acyclic.induction (fun operator => ∀ output ∈ operator.outputs.map Port.id,
    ((flowing hints).estimate result : Estimates ν).output? (rename output) =
      ((flowing hints).estimate graph : Estimates ν).output? output)
    (fun operator member before output owned => ?_) operator member output owned
  rw [output?_estimate wellFormed acyclic member owned,
    output?_estimate renamed.wellFormed (renamed.acyclic wellFormed acyclic)
      (renamed.mem_becomes member) (renamed.mem_portsOn .output member owned)]
  refine (outputVolume?_congr (renamed.alike operator member) ?_).symm
  have ports : (becomes operator).inputs.map Port.id =
      (operator.inputs.map Port.id).map rename := renamed.ports operator member .input
  have theirs := congrArg (List.map
    (((flowing hints).estimate result : Estimates ν).input? result)) ports
  simp only [List.map_map] at theirs
  refine Eq.trans (List.map_congr_left fun port isPort => ?_) theirs.symm
  refine (input?_renamed renamed wellFormed exact member (List.mem_map_of_mem isPort)
    fun source isEdge => ?_).symm
  obtain ⟨producer, isProducer, gives⟩ := wellFormed.sources _ isEdge
  exact before producer isProducer (Graph.feeds_iff_exists_edge.2 ⟨_, _, isEdge,
    ⟨producer, isProducer, rfl, gives⟩, operator, member, rfl, List.mem_map_of_mem isPort⟩) source gives

/-- A renamed graph has the same estimates at its inputs. -/
theorem input?_estimate_renamed (acyclic : graph.Acyclic) (estimator : Estimator)
    {operator : Operator} (member : operator ∈ graph.operators) {input : PortId}
    (owned : input ∈ operator.inputs.map Port.id) :
    (estimator.estimate result : Estimates ν).input? result (rename input) =
      (estimator.estimate graph : Estimates ν).input? graph input := by
  refine input?_renamed renamed wellFormed exact member owned fun source isEdge => ?_
  cases estimator with
  | unknown => rfl
  | flowing hints =>
    obtain ⟨producer, isProducer, gives⟩ := wellFormed.sources _ isEdge
    exact output?_estimate_renamed renamed wellFormed exact acyclic hints isProducer gives

end Estimator

end StagePlanner
