import StagePlanner.Proofs.Preparation.Totality

/-!
# Dropping terminators once

Redundant terminators are dropped one after the other, while what is redundant changes with every
edge that is cut. In the end every terminator is connected and alone at its opposites
(`Graph.Trim`), and that is all that the pass looks at: in such a graph it finds nothing to do.

* `yields_simplifyTerminators_of_trim`: a trim graph is left as it is.
* `simplifyTerminators_clears`: the pass takes away terminators and edges of terminators only,
  leaves a trim graph, and does nothing when it is repeated.
-/

namespace StagePlanner.Edit

variable {graph : Graph}

/-- A terminator that is redundant nowhere is not detached. -/
theorem yields_detachRedundant_of_needed {terminator : Marker} {port : PortId} {items : List PortId}
    (needed : ∀ item ∈ items, graph.isRedundantAt terminator port item = false) :
    (detachRedundant terminator port items).Yields graph (!items.isEmpty) graph := by
  induction items with
  | nil => exact yields_pure.2 ⟨rfl, rfl⟩
  | cons item rest ih =>
    obtain ⟨atItem, atRest⟩ := List.forall_mem_cons.1 needed
    refine yields_bind.2 ⟨graph, graph, yields_get.2 ⟨rfl, rfl⟩, ?_⟩
    rw [if_neg (by simp [atItem])]
    exact yields_bind.2 ⟨_, _, ih atRest, yields_pure.2 ⟨rfl, rfl⟩⟩

/-- A terminator that is connected and alone at its opposites stays. -/
theorem yields_simplifyTerminator_of_trim (framed : graph.Framed) (trim : graph.Trim)
    (id : OperatorId) : (simplifyTerminator id).Yields graph false graph := by
  have wellFormed := framed.wellFormed
  refine yields_bind.2 ⟨graph, graph, yields_get.2 ⟨rfl, rfl⟩, ?_⟩
  split
  · exact yields_pure.2 ⟨rfl, rfl⟩
  · next terminator port found =>
    obtain ⟨operator, isThere, isSome⟩ := Option.bind_eq_some_iff.1 found
    obtain ⟨member, rfl⟩ := wellFormed.operator?_eq_some_iff.1 isThere
    obtain ⟨side, faces, isTerminator, isPort⟩ := Operator.terminator?_eq_some.1 isSome
    have owned : port ∈ (operator.portsOn side).map Port.id := by
      rw [← List.head?_map] at isPort
      exact List.mem_of_head? isPort
    have listed : ∀ opposite, opposite ∈ graph.opposites port ↔
        side.edge port opposite ∈ graph.edges := fun opposite =>
      wellFormed.mem_opposites side member owned
    have needed : ∀ item ∈ graph.opposites port, graph.isRedundantAt terminator port item = false := by
      intro item isItem
      have isEdge := (listed item).1 isItem
      have owner := wellFormed.owner_of_edge side.opposite
        (side.edge_opposite port item ▸ isEdge)
      rw [← Bool.not_eq_true, wellFormed.isRedundantAt_iff owner]
      rintro ⟨-, -, other, -, isOther, differs, -⟩
      exact differs (trim.alone operator member terminator side faces isTerminator port owned item
        isEdge other isOther)
    obtain ⟨opposite, isEdge⟩ :=
      trim.connected operator member terminator side faces isTerminator port owned
    have connected : graph.opposites port ≠ [] := List.ne_nil_of_mem ((listed opposite).2 isEdge)
    refine yields_bind.2 ⟨_, _, yields_detachRedundant_of_needed needed, ?_⟩
    rw [if_pos (by simp [connected])]
    exact yields_pure.2 ⟨rfl, rfl⟩

/-- A trim graph is left as it is. -/
theorem yields_simplifyTerminators_of_trim (framed : graph.Framed) (trim : graph.Trim) :
    simplifyTerminators.Yields graph 0 graph :=
  yields_bind.2 ⟨graph, graph, yields_get.2 ⟨rfl, rfl⟩,
    yields_countChanges_idle fun id _ => yields_simplifyTerminator_of_trim framed trim id⟩

/-- Dropping redundant terminators takes away terminators and edges of terminators only, and counts
the operators that it takes away; what is left stays connected. A terminator that is left is
connected, and it is the only producer or the only consumer of its opposites. A second time nothing
is dropped. -/
theorem simplifyTerminators_clears (framed : graph.Framed) :
    ∃ count result, simplifyTerminators.apply graph = (.ok count, result) ∧
      graph.Clears result count ∧ result.Trim ∧
        simplifyTerminators.apply result = (.ok 0, result) := by
  obtain ⟨count, result, yields⟩ := succeeds_simplifyTerminators framed.wellFormed
  obtain ⟨clears, trim⟩ := trim_simplifyTerminators framed yields
  exact ⟨count, result, yields, clears, trim, yields_simplifyTerminators_of_trim clears.framed trim⟩

/-- A producer with a consumer and an `END`, a `BEGIN` at the same consumer, and two instances of
`BEGIN` before another `END`. -/
def terminatorSample : Graph :=
  let row : PortShape := { name := "rows", dataType := .named "row" }
  let operators := [(Blueprint.user "produce" .extract).withOutput row,
    (Blueprint.user "consume" .extract).withInput row, .marker .finish (.named "row"),
    .marker .begin (.named "row"), .marker .begin (.named "row"),
    .marker .finish (.named "row")].foldl (fun graph blueprint => (graph.add blueprint).2) Graph.empty
  [(0, 1), (0, 2), (5, 1), (5, 8), (7, 8)].foldl
    (fun graph (source, target) => graph.link ⟨source⟩ ⟨target⟩) operators

theorem framed_terminatorSample : terminatorSample.Framed where
  wellFormed := {
    ascending := by decide +kernel
    operatorsBelow := by decide +kernel
    ports := by decide +kernel
    portsBelow := by decide +kernel
    sources := by
      change ∀ edge ∈ terminatorSample.edges.toList, _
      decide +kernel
    targets := by
      change ∀ edge ∈ terminatorSample.edges.toList, _
      decide +kernel }
  oneOutput := by decide +kernel
  oneInput := by decide +kernel
  unfed operator member isBegin input owned source isEdge := by
    have apart : ∀ operator ∈ terminatorSample.operators, operator.isMarkerOf .begin = true →
        ∀ edge ∈ terminatorSample.edges.toList, edge.target ∉ operator.inputs.map Port.id := by
      decide +kernel
    exact apart operator member isBegin _ isEdge owned
  unread operator member isFinish output owned target isEdge := by
    have apart : ∀ operator ∈ terminatorSample.operators, operator.isMarkerOf .finish = true →
        ∀ edge ∈ terminatorSample.edges.toList, edge.source ∉ operator.outputs.map Port.id := by
      decide +kernel
    exact apart operator member isFinish _ isEdge owned

/-- The `END` behind the producer and the second `BEGIN` go, and the first `BEGIN` leaves the
consumer. -/
theorem simplifyTerminators_clears_terminatorSample : terminatorSample.Framed ∧
    ∃ result, simplifyTerminators.apply terminatorSample = (.ok 2, result) ∧
      terminatorSample.Clears result 2 ∧
        result.edges.toList = [⟨⟨0⟩, ⟨1⟩⟩, ⟨⟨5⟩, ⟨8⟩⟩] := by
  obtain ⟨count, result, applies, clears, -⟩ := simplifyTerminators_clears framed_terminatorSample
  have counts : (simplifyTerminators.apply terminatorSample).1.toOption = some 2 := by decide +kernel
  have edges : (simplifyTerminators.apply terminatorSample).2.edges.toList =
      [⟨⟨0⟩, ⟨1⟩⟩, ⟨⟨5⟩, ⟨8⟩⟩] := by decide +kernel
  rw [applies] at counts edges
  obtain rfl : count = 2 := Option.some.inj counts
  exact ⟨framed_terminatorSample, result, applies, clears, edges⟩

end StagePlanner.Edit
