import StagePlanner.Proofs.Graph.Completion

/-!
# Rebuilt operators

While an operator is rebuilt its edges are copied to the new operator, first those of the inputs and then
those of the outputs; an edge between ports of its own is met twice, the second time from the new
operator. Once the old operator is gone, what is left is the graph as it was with other names for one
operator and its ports (`Edit.rebuild_renames_ports`).
-/

namespace StagePlanner

namespace Graph

variable {graph : Graph}

/-- The second graph is the first one with a new operator, behind all others, in the place of an old
one, and with the ports of the new operator in the places of those of the old one. -/
structure Rebuilt (graph result : Graph) (old new : Operator) : Prop where
  operators : result.operators = graph.operators.erase old ++ [new]
  freshOperator : new.id ∉ graph.operatorIds
  freshPorts : ∀ port ∈ new.ports.map Port.id, port ∉ graph.portIds
  /-- Every port of the old operator becomes the one at the same position of the new operator. -/
  ports : ∀ side, ((old.portsOn side).map Port.id).map (old.replacing new) =
    (new.portsOn side).map Port.id
  otherPorts : ∀ port ∉ old.ports.map Port.id, old.replacing new port = port
  edges : result.edges = .ofList (graph.edges.toList.map fun edge =>
    ⟨old.replacing new edge.source, old.replacing new edge.target⟩)
  otherEdges : ∀ edge : Edge,
    edge ∈ result.edges ∧ edge.source ∉ new.ports.map Port.id ∧ edge.target ∉ new.ports.map Port.id ↔
      edge ∈ graph.edges ∧ edge.source ∉ old.ports.map Port.id ∧ edge.target ∉ old.ports.map Port.id
  isomorphic : graph.Isomorphic result (fun operator => if operator = old then new else operator)
    (old.replacing new)

/-- Edges that are at no port of the old operator stay. -/
theorem Replaced.mem_edges_apart_iff {result : Graph} {old new : Operator}
    (replaced : graph.Replaced result old new) (wellFormed : graph.WellFormed)
    (fresh : ∀ port ∈ new.ports.map Port.id, port ∉ graph.portIds) (edge : Edge) :
    edge ∈ result.edges ∧ edge.source ∉ new.ports.map Port.id ∧ edge.target ∉ new.ports.map Port.id ↔
      edge ∈ graph.edges ∧ edge.source ∉ old.ports.map Port.id ∧
        edge.target ∉ old.ports.map Port.id := by
  have ports := Operator.map_replacing (wellFormed.nodup_ports replaced.member)
    replaced.inputs replaced.outputs
  have renewed : ∀ port ∈ old.ports.map Port.id, old.replacing new port ∈ new.ports.map Port.id :=
    fun port owned => Operator.map_ports_of_sides (fun side => (ports side).symm) ▸
      List.mem_map_of_mem owned
  rw [replaced.edges edge.source edge.target]
  constructor
  · rintro ⟨⟨⟨source, target⟩, isEdge, starts, ends⟩, notSource, notTarget⟩
    have sourceStays : source ∉ old.ports.map Port.id :=
      fun owned => notSource (starts ▸ renewed source owned)
    have targetStays : target ∉ old.ports.map Port.id :=
      fun owned => notTarget (ends ▸ renewed target owned)
    obtain ⟨_, _⟩ := edge
    rw [Operator.replacing_of_not_mem sourceStays] at starts
    rw [Operator.replacing_of_not_mem targetStays] at ends
    obtain rfl := starts
    obtain rfl := ends
    exact ⟨isEdge, sourceStays, targetStays⟩
  · rintro ⟨isEdge, notSource, notTarget⟩
    obtain ⟨producer, isProducer, gives⟩ := wellFormed.sources edge isEdge
    obtain ⟨consumer, isConsumer, takes⟩ := wellFormed.targets edge isEdge
    exact ⟨⟨edge, isEdge, Operator.replacing_of_not_mem notSource,
      Operator.replacing_of_not_mem notTarget⟩,
      fun isNew => fresh _ isNew ⟨producer, isProducer, Operator.mem_ports_of_mem_portsOn .output gives⟩,
      fun isNew => fresh _ isNew ⟨consumer, isConsumer, Operator.mem_ports_of_mem_portsOn .input takes⟩⟩

/-- An operator that was added last stands behind all others. -/
theorem Replaced.operators_eq {result : Graph} {old : Operator} {blueprint : Blueprint}
    (replaced : graph.Replaced result old (graph.added blueprint)) (wellFormed : graph.WellFormed)
    (resultWellFormed : result.WellFormed) :
    result.operators = graph.operators.erase old ++ [graph.added blueprint] := by
  have stillThere : old ∈ (graph.add blueprint).2.operators :=
    List.mem_append_left _ replaced.member
  have listed : ((graph.add blueprint).2.without old).operators =
      graph.operators.erase old ++ [graph.added blueprint] := by
    rw [(wellFormed.add blueprint).operators_without stillThere, operators_add,
      List.erase_append_left _ replaced.member]
  refine (resultWellFormed.operators_ext ((wellFormed.add blueprint).without stillThere)
    fun operator => ?_).trans listed
  rw [replaced.operators, listed, List.mem_append, List.mem_singleton,
    wellFormed.nodup_operators.mem_erase_iff, and_comm]

theorem Replaced.rebuilt {result : Graph} {old : Operator} {blueprint : Blueprint}
    (replaced : graph.Replaced result old (graph.added blueprint)) (wellFormed : graph.WellFormed)
    (resultWellFormed : result.WellFormed) : graph.Rebuilt result old (graph.added blueprint) := by
  have fresh : ∀ port ∈ (graph.added blueprint).ports.map Port.id, port ∉ graph.portIds :=
    fun port isNew ⟨operator, isThere, owned⟩ => wellFormed.ne_added isThere owned isNew rfl
  refine ⟨replaced.operators_eq wellFormed resultWellFormed, fresh_added wellFormed blueprint, fresh,
    Operator.map_replacing (wellFormed.nodup_ports replaced.member)
      replaced.inputs replaced.outputs,
    fun _ => Operator.replacing_of_not_mem, ?_, replaced.mem_edges_apart_iff wellFormed fresh,
    replaced.isomorphic wellFormed resultWellFormed⟩
  refine OrderedSet.ext fun ⟨source, target⟩ => ?_
  rw [OrderedSet.mem_ofList, List.mem_map, replaced.edges]
  simp only [OrderedSet.mem_toList, Edge.mk.injEq]

end Graph

namespace Edit

variable {graph : Graph}

theorem copy_of_rebuild {result : Graph} {id copy : OperatorId} {change : Blueprint → Blueprint}
    (yields : (rebuild id change).Yields graph copy result) : copy = graph.nextOperator := by
  simp only [rebuild, yields_bind, yields_look, yields_check, yields_add, yields_remove,
    yields_pure] at yields
  obtain ⟨_, _, ⟨-, rfl⟩, -, _, _, ⟨rfl, rfl⟩, _, _, -, _, _, -, _, _, -, _, _, -, rfl, -⟩ := yields
  rfl

/-- An operator that keeps the number of its inputs and outputs can be rebuilt, and doing so gives the
same graph up to the names of the operator and its ports: edges go over port by port, also those
between ports of the operator, and everything else stays. -/
theorem rebuild_renames_ports (wellFormed : graph.WellFormed) {old : Operator}
    (member : old ∈ graph.operators) {change : Blueprint → Blueprint}
    (inputs : (change old.blueprint).inputs.length = old.inputs.length)
    (outputs : (change old.blueprint).outputs.length = old.outputs.length) :
    ∃ result, (rebuild old.id change).Yields graph graph.nextOperator result ∧
      graph.Rebuilt result old (graph.added (change old.blueprint)) := by
  obtain ⟨copy, result, yields⟩ := succeeds_rebuild wellFormed member inputs outputs
  obtain ⟨rebuilt, sameId, resultWellFormed, replaced⟩ := replaced_of_rebuild wellFormed yields
  obtain rfl := wellFormed.operator_unique replaced.member member sameId
  exact ⟨result, copy_of_rebuild yields ▸ yields, replaced.rebuilt wellFormed resultWellFormed⟩

end Edit

/-- A projection with two inputs that feeds both of them, beside another one that feeds it and that it
feeds. -/
def Graph.rebuildSample : Graph :=
  let projection := Blueprint.core .project (.named "t")
  let graph := (Graph.empty.add (projection.withInput { name := "more", dataType := .named "t" })).2
  (((((graph.add projection).2.link ⟨2⟩ ⟨0⟩).link ⟨2⟩ ⟨1⟩).link ⟨4⟩ ⟨0⟩).link ⟨2⟩ ⟨3⟩)

theorem Graph.wellFormed_rebuildSample : Graph.rebuildSample.WellFormed := by
  have empty : Graph.empty.WellFormed := Graph.wellFormed_of_no_operators rfl rfl
  refine .link (.link (.link (.link ((empty.add _).add _) ?_ ?_) ?_ ?_) ?_ ?_) ?_ ?_
  all_goals decide

/-- The projection gets an argument; its edges to itself now lie at the new ports. -/
theorem Edit.rebuild_renames_ports_rebuildSample : ∃ result,
    (Edit.rebuild ⟨0⟩ fun blueprint => blueprint.withArgument "key" (.text "a")).Yields
      Graph.rebuildSample ⟨2⟩ result ∧
    result.edges = .ofList [⟨⟨7⟩, ⟨5⟩⟩, ⟨⟨7⟩, ⟨6⟩⟩, ⟨⟨4⟩, ⟨5⟩⟩, ⟨⟨7⟩, ⟨3⟩⟩] := by
  have member : Graph.empty.added ((Blueprint.core .project (.named "t")).withInput
      { name := "more", dataType := .named "t" }) ∈ Graph.rebuildSample.operators := List.mem_cons_self
  obtain ⟨result, yields, rebuilt⟩ : ∃ result,
      (Edit.rebuild ⟨0⟩ fun blueprint => blueprint.withArgument "key" (.text "a")).Yields
        Graph.rebuildSample ⟨2⟩ result ∧ Graph.rebuildSample.Rebuilt result _ _ :=
    rebuild_renames_ports Graph.wellFormed_rebuildSample member rfl rfl
  exact ⟨result, yields, rebuilt.edges.trans (by decide)⟩

end StagePlanner
