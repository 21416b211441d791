import StagePlanner.Document.Building
import StagePlanner.Proofs.Fallible
import StagePlanner.Proofs.Graph.Regularity
import StagePlanner.Proofs.Preparation.Closure

/-!
# Graphs of documents

A document describes operators of every kind but markers and leaves their serial numbers to the
graph. So terminators stand at the ends of the graph that it describes (`Document.framed_build`),
for there are none, and the graph is regular (`Document.regular_build`).
-/

namespace StagePlanner

/-- Only operators of users say how they consume their inputs. -/
def Operator.Undeclared (operator : Operator) : Prop :=
  operator.kind.user? = none → ∀ input ∈ operator.inputs, input.unit = none

/-- An operator that writes a dataset has an output, on which it tells when it is done. -/
def Operator.Activates (operator : Operator) : Prop :=
  operator.kind.isOutput = true → operator.outputs ≠ []

/-! ### Fresh blueprints -/

namespace Blueprint

/-- The operator is no marker, gets its serial number from the graph, has one input and one output if it
is an operator of the planner, says how it consumes its inputs only if it is one of a user, and has
an output if it writes a dataset. -/
structure Fresh (blueprint : Blueprint) : Prop where
  marker? : blueprint.kind.marker? = none
  serial : blueprint.serial = none
  slender : ∀ kind, blueprint.kind = .core kind → blueprint.inputs.length = 1 ∧ blueprint.outputs.length = 1
  undeclared : blueprint.kind.user? = none → ∀ input ∈ blueprint.inputs, input.unit = none
  activates : blueprint.kind.isOutput = true → blueprint.outputs ≠ []

variable {blueprint : Blueprint}

theorem Fresh.withPath (fresh : blueprint.Fresh) (path : String) : (blueprint.withPath path).Fresh := by
  rw [Blueprint.withPath]
  split
  · next isInput =>
    exact ⟨rfl, fresh.serial, nofun, fun _ => fresh.undeclared (by rw [isInput]; rfl), nofun⟩
  · next isOutput =>
    exact ⟨rfl, fresh.serial, nofun, fun _ => fresh.undeclared (by rw [isOutput]; rfl),
      fun _ => fresh.activates (by rw [isOutput]; rfl)⟩
  · exact fresh

theorem Fresh.withDeclaredSize (fresh : blueprint.Fresh) (bytes : Nat) :
    (blueprint.withDeclaredSize bytes).Fresh := by
  rw [Blueprint.withDeclaredSize]
  split
  · next isInput =>
    exact ⟨rfl, fresh.serial, nofun, fun _ => fresh.undeclared (by rw [isInput]; rfl), nofun⟩
  · exact fresh

theorem Fresh.withPartialAggregation (fresh : blueprint.Fresh) (enabled : Bool) :
    (blueprint.withPartialAggregation enabled).Fresh := by
  rw [Blueprint.withPartialAggregation]
  split
  · exact ⟨rfl, fresh.serial, nofun, nofun, nofun⟩
  · exact fresh

/-- Operators of users get their ports one by one. -/
theorem Fresh.of_user (isUser : ∃ definition, blueprint.kind = .user definition)
    (serial : blueprint.serial = none) : blueprint.Fresh := by
  obtain ⟨definition, isUser⟩ := isUser
  have notCore : ∀ kind, blueprint.kind ≠ .core kind := fun kind isCore => by
    rw [isUser] at isCore
    cases isCore
  have notOther : blueprint.kind.user? ≠ none := by
    rw [isUser]
    nofun
  have notOutput : blueprint.kind.isOutput ≠ true := by
    rw [isUser]
    exact Bool.false_ne_true
  exact ⟨by rw [isUser]; rfl, serial, fun kind isCore => absurd isCore (notCore kind),
    fun notUser => absurd notUser notOther, fun isOutput => absurd isOutput notOutput⟩

end Blueprint

namespace OperatorDefinition

variable {definition : OperatorDefinition} {blueprint : Blueprint}

theorem fresh_kindBlueprint (isBlueprint : definition.kindBlueprint = .ok blueprint) :
    blueprint.Fresh := by
  have typed : ∀ {next : DataType → Blueprint}, (∀ type, (next type).Fresh) →
      (definition.requiredType >>= fun type => pure (next type)) = .ok blueprint →
        blueprint.Fresh := by
    intro next fresh succeeds
    obtain ⟨type, -, same⟩ := bind_eq_ok_iff.1 succeeds
    cases same
    exact fresh type
  have undeclared : ∀ {kind : OperatorKind} {name : String} {dataType : DataType},
      kind.user? = none → ∀ input ∈ [({ name, dataType } : PortShape)], input.unit = none :=
    fun _ => List.forall_mem_singleton.2 rfl
  simp only [kindBlueprint] at isBlueprint
  split at isBlueprint
  · cases size : definition.size with
    | none =>
      rw [size] at isBlueprint
      exact typed (fun _ => ⟨rfl, rfl, fun _ isCore => (by cases isCore), undeclared,
        fun isOutput => (by cases isOutput)⟩) isBlueprint
    | some bytes =>
      rw [size] at isBlueprint
      exact typed (fun _ => Blueprint.Fresh.withDeclaredSize
        ⟨rfl, rfl, fun _ isCore => (by cases isCore), undeclared, fun isOutput => (by cases isOutput)⟩
          bytes) isBlueprint
  · split at isBlueprint
    · exact typed (fun _ => ⟨rfl, rfl, fun _ isCore => (by cases isCore), undeclared,
        fun _ => List.cons_ne_nil _ _⟩) isBlueprint
    · split at isBlueprint
      · exact typed (fun _ => ⟨rfl, rfl, fun _ _ => ⟨rfl, rfl⟩, undeclared,
          fun isOutput => (by cases isOutput)⟩) isBlueprint
      · next kind _ _ =>
        cases isBlueprint
        let isUser (blueprint : Blueprint) : Prop :=
          (∃ user, blueprint.kind = .user user) ∧ blueprint.serial = none
        have bare : isUser (.user (definition.name.getD definition.id) kind) := ⟨⟨_, rfl⟩, rfl⟩
        have withInputs := List.foldlRecOn (motive := isUser) definition.inputs
          (fun blueprint port => blueprint.withInput port.input) bare fun _ still _ _ => still
        have withPorts := List.foldlRecOn (motive := isUser) definition.outputs
          (fun blueprint port => blueprint.withOutput port.output) withInputs fun _ still _ _ => still
        exact (Blueprint.Fresh.of_user withPorts.1 withPorts.2).withPartialAggregation _
      · cases isBlueprint

theorem fresh_blueprint (isBlueprint : definition.blueprint = .ok blueprint) : blueprint.Fresh := by
  obtain ⟨start, isKind, rest⟩ := bind_eq_ok_iff.1 isBlueprint
  have withArguments : ∀ placed : Blueprint, placed.Fresh →
      (definition.arguments.foldl (fun blueprint (argument : String × ArgumentValue) =>
        blueprint.withArgument argument.1 argument.2) placed).Fresh := fun placed fresh =>
    List.foldlRecOn (motive := Blueprint.Fresh) definition.arguments _ fresh
      fun _ fresh _ _ =>
        ⟨fresh.marker?, fresh.serial, fresh.slender, fresh.undeclared, fresh.activates⟩
  have iterated : ∀ (blueprint : Blueprint) iteration, blueprint.Fresh →
      (blueprint.withIteration iteration).Fresh :=
    fun _ _ fresh => ⟨fresh.marker?, fresh.serial, fresh.slender, fresh.undeclared, fresh.activates⟩
  have fresh := fresh_kindBlueprint isKind
  dsimp only at rest
  split at rest <;> split at rest <;> cases rest
  · exact iterated _ _ (withArguments _ (fresh.withPath _))
  · exact iterated _ _ (withArguments _ fresh)
  · exact withArguments _ (fresh.withPath _)
  · exact withArguments _ fresh

end OperatorDefinition

namespace Graph

/-- A graph without markers has no terminators that could stand elsewhere than at its ends. -/
theorem WellFormed.framed {graph : Graph} (wellFormed : graph.WellFormed)
    (unmarked : ∀ operator ∈ graph.operators, operator.marker? = none) : graph.Framed := by
  have notMarker : ∀ operator ∈ graph.operators, ∀ marker, operator.isMarkerOf marker ≠ true := by
    intro operator member marker
    rw [Operator.isMarkerOf, unmarked operator member]
    exact Bool.false_ne_true
  exact ⟨wellFormed,
    fun operator member isBegin => absurd isBegin (notMarker operator member _),
    fun operator member isFinish => absurd isFinish (notMarker operator member _),
    fun operator member isBegin => absurd isBegin (notMarker operator member _),
    fun operator member isFinish => absurd isFinish (notMarker operator member _)⟩

end Graph

/-- A regular graph without markers, in which operators of the planner have single ports, only those of
users say how they consume their inputs, and those that write datasets have outputs. -/
structure NamedGraph.Unmarked (named : NamedGraph) : Prop where
  regular : named.graph.Regular
  marker? : ∀ operator ∈ named.graph.operators, operator.marker? = none
  slender : ∀ operator ∈ named.graph.operators, operator.Slender
  undeclared : ∀ operator ∈ named.graph.operators, operator.Undeclared
  activates : ∀ operator ∈ named.graph.operators, operator.Activates

namespace NamedGraph

variable {named result : NamedGraph}

/-- An operator is added under a name that is new. -/
theorem of_addOperator {definition : OperatorDefinition}
    (succeeds : named.addOperator definition = .ok result) :
    ∃ blueprint, definition.blueprint = .ok blueprint ∧ named.operator? definition.id = none ∧
      result.graph = (named.graph.add blueprint).2 ∧
      ∀ name, result.operator? name =
        if name = definition.id then some named.graph.nextOperator else named.operator? name := by
  rw [NamedGraph.addOperator] at succeeds
  split at succeeds
  · cases succeeds
  · next taken =>
    have isNew : named.operator? definition.id = none := by simpa using taken
    split at succeeds
    · cases succeeds
    · next blueprint isBlueprint =>
      cases succeeds
      refine ⟨blueprint, isBlueprint, isNew, rfl, fun name => ?_⟩
      rw [operator?, List.lookup_append, ← operator?]
      split
      · next same => subst same; simp [isNew]
      · next differs => simp [List.lookup_cons, beq_eq_false_iff_ne.2 differs]

/-- An edge is added between the ports that its endpoints mean. -/
theorem of_addEdge {definition : EdgeDefinition} (succeeds : named.addEdge definition = .ok result) :
    ∃ source target, named.outputAt definition.source = .ok source ∧
      named.inputAt definition.target = .ok target ∧
      (Edit.connect source target).Yields named.graph () result.graph ∧ result.names = named.names := by
  simp only [NamedGraph.addEdge] at succeeds
  split at succeeds
  · next graph edited =>
    cases succeeds
    obtain ⟨source, _, found, rest⟩ := Edit.yields_bind.1 edited
    obtain ⟨isSource, rfl⟩ := Edit.yields_look.1 found
    obtain ⟨target, _, alsoFound, connected⟩ := Edit.yields_bind.1 rest
    obtain ⟨isTarget, rfl⟩ := Edit.yields_look.1 alsoFound
    exact ⟨source, target, isSource, isTarget, connected, rfl⟩
  · cases succeeds

theorem Unmarked.addOperator (unmarked : named.Unmarked) {definition : OperatorDefinition}
    (succeeds : named.addOperator definition = .ok result) : result.Unmarked := by
  obtain ⟨blueprint, isBlueprint, -, same, -⟩ := of_addOperator succeeds
  have fresh := OperatorDefinition.fresh_blueprint isBlueprint
  constructor <;> rw [same]
  · have unmarkedKind : ¬ blueprint.kind.marker?.isSome = true := by rw [fresh.marker?]; nofun
    exact unmarked.regular.add fresh.serial fun isMarker => absurd isMarker unmarkedKind
  · intro operator member
    rcases List.mem_append.1 member with old | new
    · exact unmarked.marker? operator old
    · rw [List.mem_singleton.1 new]
      exact fresh.marker?
  · intro operator member
    rcases List.mem_append.1 member with old | new
    · exact unmarked.slender operator old
    · rw [List.mem_singleton.1 new]
      intro kind isCore
      obtain ⟨inputs, outputs⟩ := fresh.slender kind isCore
      exact ⟨Graph.length_assignPorts.trans inputs, Graph.length_assignPorts.trans outputs⟩
  · intro operator member
    rcases List.mem_append.1 member with old | new
    · exact unmarked.undeclared operator old
    · obtain rfl : operator = named.graph.added blueprint := List.mem_singleton.1 new
      intro notUser input isInput
      have shapes : (named.graph.added blueprint).inputs.map (fun port => port.toPortShape) =
        blueprint.inputs := Graph.map_toPortShape_assignPorts
      exact fresh.undeclared notUser _ (shapes ▸ List.mem_map_of_mem isInput)
  · intro operator member
    rcases List.mem_append.1 member with old | new
    · exact unmarked.activates operator old
    · obtain rfl : operator = named.graph.added blueprint := List.mem_singleton.1 new
      intro isOutput
      exact List.ne_nil_of_length_pos (Graph.length_assignPorts.symm ▸
        List.length_pos_of_ne_nil (fresh.activates isOutput))

theorem Unmarked.addEdge (unmarked : named.Unmarked) {definition : EdgeDefinition}
    (succeeds : named.addEdge definition = .ok result) : result.Unmarked := by
  obtain ⟨source, target, -, -, connected, -⟩ := of_addEdge succeeds
  have regular := (Edit.narrows_connect source target).regular _ _ _ connected unmarked.regular
  obtain ⟨-, -, same⟩ := Edit.yields_connect connected
  constructor
  · exact regular
  all_goals rw [← same]
  · exact unmarked.marker?
  · exact unmarked.slender
  · exact unmarked.undeclared
  · exact unmarked.activates

end NamedGraph

namespace Document

variable {document : Document} {named : NamedGraph}

theorem unmarked_build (succeeds : document.build = .ok named) : named.Unmarked := by
  obtain ⟨withOperators, operators, edges⟩ := bind_eq_ok_iff.1 succeeds
  have start : NamedGraph.Unmarked {} := ⟨Graph.regular_empty,
    fun _ member => absurd member List.not_mem_nil, fun _ member => absurd member List.not_mem_nil,
    fun _ member => absurd member List.not_mem_nil, fun _ member => absurd member List.not_mem_nil⟩
  have middle := of_foldlM (fun _ _ _ added unmarked => unmarked.addOperator added) operators start
  exact of_foldlM (fun _ _ _ added unmarked => unmarked.addEdge added) edges middle

/-- Terminators stand at the ends of the graph of a document. -/
theorem framed_build (succeeds : document.build = .ok named) : named.graph.Framed :=
  have unmarked := unmarked_build succeeds
  unmarked.regular.wellFormed.framed unmarked.marker?

/-- The graph of a document is regular. -/
theorem regular_build (succeeds : document.build = .ok named) : named.graph.Regular :=
  (unmarked_build succeeds).regular

end Document

end StagePlanner
