import StagePlanner.Proofs.Assembly.Step

/-!
# What an input receives, and faithful plans

The data that arrive at an input are named by the outputs from which they come: outputs of
operators that are no markers, found by walking upstream. In a graph the walk passes through
markers (`Graph.Receives`); in a plan it passes through the copies of markers inside a stage and,
at an input of the stage, goes on at every output of any stage with a common origin
(`Plan.Receives`). A plan whose ports tell the truth about a graph is faithful to it
(`Plan.Faithful`), and then both walks lead to the same outputs (`Faithful.receives_iff`).
-/

namespace StagePlanner

open Relation

/-- Walking upstream from an input through markers leads to an output of an operator that is no
marker. -/
inductive Graph.Receives (graph : Graph) : Terminal → Terminal → Prop
  | operator {target source : Terminal} (wired : graph.Wired source target)
      (noMarker : graph.isMarker source.operator = false) : Receives graph target source
  | marker {target marker source : Terminal} {index : Nat} (wired : graph.Wired marker target)
      (isMarker : graph.isMarker marker.operator = true)
      (before : Receives graph ⟨marker.operator, index⟩ source) : Receives graph target source

/-- Walking upstream from an input of a stage leads to a copy of an output of an operator that is no
marker. The walk passes through markers of the stage and from an input of the stage to the outputs
that feed it. -/
inductive Plan.Receives (plan : Plan) : Stage → Terminal → Terminal → Prop
  | operator {stage : Stage} {target copy source : Terminal} (isStage : stage ∈ plan.stages)
      (wired : stage.graph.Wired copy target)
      (noMarker : stage.graph.isMarker copy.operator = false)
      (isCopy : ⟨copy.operator, source.operator⟩ ∈ stage.provenance)
      (sameIndex : copy.index = source.index) : Receives plan stage target source
  | marker {stage : Stage} {target marker source : Terminal} {index : Nat}
      (isStage : stage ∈ plan.stages) (wired : stage.graph.Wired marker target)
      (isMarker : stage.graph.isMarker marker.operator = true)
      (before : Receives plan stage ⟨marker.operator, index⟩ source) :
      Receives plan stage target source
  | port {stage producer : Stage} {input output : StagePort} {source : Terminal}
      {index other : Nat} (isStage : stage ∈ plan.stages) (isInput : input ∈ stage.inputs)
      (isProducer : producer ∈ plan.stages) (isOutput : output ∈ producer.outputs)
      (meets : output.Meets input)
      (before : Receives plan producer ⟨output.marker, other⟩ source) :
      Receives plan stage ⟨input.marker, index⟩ source

/-- A stage of the plan holds a copy of an operator. -/
def Plan.HasCopy (plan : Plan) (id : OperatorId) : Prop :=
  ∃ stage ∈ plan.stages, ∃ pair ∈ stage.provenance,
    pair.source = id ∧ pair.copy ∈ stage.graph.operatorIds

namespace Graph

variable {graph : Graph}

theorem isMarker_of_isMarkerOf {marker : Marker} {id : OperatorId}
    (isMarkerOf : graph.isMarkerOf marker id = true) : graph.isMarker id = true := by
  rw [Graph.isMarkerOf, holds, Option.any_eq_true] at isMarkerOf
  obtain ⟨operator, found, same⟩ := isMarkerOf
  have kind : operator.marker? = some marker := of_decide_eq_true same
  rw [isMarker, holds, found, Option.any_some, Operator.isMarker, kind]
  rfl

/-- What arrives at some input of a marker. -/
def Collects (graph : Graph) (marker : OperatorId) (source : Terminal) : Prop :=
  ∃ index, graph.Receives ⟨marker, index⟩ source

/-- What leaves through an output: the data of an operator, or what a marker collects. -/
def Emits (graph : Graph) (output source : Terminal) : Prop :=
  graph.isMarker output.operator = false ∧ output = source ∨
    graph.isMarker output.operator = true ∧ graph.Collects output.operator source

/-- An input receives what leaves through the outputs that are wired to it. -/
theorem receives_iff {target source : Terminal} :
    graph.Receives target source ↔ ∃ output, graph.Wired output target ∧ graph.Emits output source := by
  constructor
  · intro receives
    cases receives with
    | operator wired noMarker => exact ⟨source, wired, .inl ⟨noMarker, rfl⟩⟩
    | @marker _ marker _ index wired isMarker before =>
      exact ⟨marker, wired, .inr ⟨isMarker, index, before⟩⟩
  · rintro ⟨output, wired, ⟨noMarker, rfl⟩ | ⟨isMarker, index, before⟩⟩
    · exact .operator wired noMarker
    · exact .marker wired isMarker before

end Graph

/-- What a walk through a plan leads to has a copy. -/
theorem Plan.Receives.hasCopy {plan : Plan} {stage : Stage} {target source : Terminal}
    (receives : plan.Receives stage target source) : plan.HasCopy source.operator := by
  induction receives with
  | operator isStage wired noMarker isCopy =>
    exact ⟨_, isStage, _, isCopy, rfl, Graph.mem_operatorIds.2 wired.feeds.operators.1⟩
  | marker _ _ _ _ ih => exact ih
  | port _ _ _ _ _ _ ih => exact ih

/-! ### Stages by themselves -/

namespace Stage

/-- What leaves through an output of an operator of a stage, if every input of the stage delivers
what its origins collect in the graph. -/
def Emits (stage : Stage) (graph : Graph) (output source : Terminal) : Prop :=
  stage.graph.isMarker output.operator = false ∧
      ⟨output.operator, source.operator⟩ ∈ stage.provenance ∧ output.index = source.index ∨
    ∃ input ∈ stage.inputs, input.marker = output.operator ∧
      ∃ origin ∈ input.origins, graph.Collects origin source

/-- What arrives at an input of an operator of a stage. -/
def Gets (stage : Stage) (graph : Graph) (target source : Terminal) : Prop :=
  ∃ output, stage.graph.Wired output target ∧ stage.Emits graph output source

/-- What a stage writes to one of its outputs. -/
def Writes (stage : Stage) (graph : Graph) (output : StagePort) (source : Terminal) : Prop :=
  ∃ index, stage.Gets graph ⟨output.marker, index⟩ source

end Stage

/-- What the outputs that feed an input write. -/
def Plan.Delivers (plan : Plan) (graph : Graph) (input : StagePort) (source : Terminal) : Prop :=
  ∃ producer ∈ plan.stages, ∃ output ∈ producer.outputs,
    output.Meets input ∧ producer.Writes graph output source

namespace Stage

variable {stage : Stage} {graph : Graph}

/-- What a stage writes arrives at the only input of the output. -/
theorem Sound.writes_iff (sound : stage.Sound) {output : StagePort} (isOutput : output ∈ stage.outputs)
    {source : Terminal} :
    stage.Writes graph output source ↔ stage.Gets graph ⟨output.marker, 0⟩ source := by
  constructor
  · rintro ⟨index, start, wired, emits⟩
    have atStart := sound.wired_input_index (List.mem_append_right _ isOutput) wired
    exact ⟨start, atStart ▸ wired, emits⟩
  · exact fun gets => ⟨0, gets⟩

end Stage

/-! ## Faithful plans

A plan is faithful to a graph when the origins of its ports tell the truth: an input gets from the
outputs that feed it exactly what each of its origins collects in the graph, every copy gets in its
stage what its original receives, and whatever an END marker collects is written to an output that
stands for it. These are equations at single ports, so a pass that changes a few ports can be
checked locally. In a plan without circuits they determine all walks (`Faithful.receives_iff`). -/

/-- The origins of the ports of a plan tell the truth about a graph. -/
structure Plan.Faithful (plan : Plan) (graph : Graph) : Prop where
  /-- The outputs that feed an input write what each of its origins collects. -/
  inputs : ∀ stage ∈ plan.stages, ∀ input ∈ stage.inputs, ∀ origin ∈ input.origins, ∀ source,
    graph.Collects origin source ↔ plan.Delivers graph input source
  /-- A copy gets what its original receives. -/
  copies : ∀ stage ∈ plan.stages, ∀ operator ∈ stage.graph.operators, operator.isMarker = false →
    ∀ original, ⟨operator.id, original⟩ ∈ stage.provenance → ∀ index source,
      stage.Gets graph ⟨operator.id, index⟩ source ↔ graph.Receives ⟨original, index⟩ source
  /-- What an END marker collects is written to outputs that stand for it. -/
  ends : ∀ id, graph.isMarkerOf .finish id = true → ∀ source, graph.Collects id source →
    ∃ stage ∈ plan.stages, ∃ output ∈ stage.outputs, stage.marker? output = some .finish ∧
      id ∈ output.origins ∧ stage.Writes graph output source
  /-- A copy is a marker when its original is one. -/
  kinds : ∀ stage ∈ plan.stages, ∀ operator ∈ stage.graph.operators,
    ∀ original, ⟨operator.id, original⟩ ∈ stage.provenance →
      operator.isMarker = graph.isMarker original
  /-- No two operators of a stage have one serial number. -/
  serials : ∀ stage ∈ plan.stages, (stage.graph.operators.map Operator.serial).Nodup

namespace Plan.Faithful

variable {plan : Plan} {graph : Graph} (faithful : plan.Faithful graph) (sound : plan.Sound)

include faithful sound

/-- What a walk through the plan leads to arrives in the stage where the walk starts, or the walk
starts at an input and one of its origins collects it. -/
theorem gets_of_receives {stage : Stage} {target source : Terminal}
    (receives : plan.Receives stage target source) :
    stage.Gets graph target source ∨ ∃ input ∈ stage.inputs, input.marker = target.operator ∧
      ∃ origin ∈ input.origins, graph.Collects origin source := by
  induction receives with
  | operator _ wired noMarker isCopy sameIndex =>
    exact .inl ⟨_, wired, .inl ⟨noMarker, isCopy, sameIndex⟩⟩
  | @marker stage target marker source index isStage wired isMarker _ ih =>
    have stageSound := sound.stages stage isStage
    obtain ⟨operator, member, same⟩ := wired.feeds.operators.1
    rw [← same, Graph.isMarker, Graph.holds_id stageSound.wellFormed member] at isMarker
    obtain ⟨port, isPort, portMarker⟩ := stageSound.port operator member isMarker
    have atMarker := portMarker.trans same
    -- The marker feeds something, so it is an input, and nothing in the stage feeds that.
    have isInput : port ∈ stage.inputs := (List.mem_append.1 isPort).resolve_right fun isOutput =>
      stageSound.idle port isOutput target.operator (atMarker ▸ wired.feeds)
    rcases ih with ⟨output, fed, -⟩ | ⟨input, isInput, atInput, delivers⟩
    · exact absurd fed.feeds (atMarker ▸ stageSound.unfed port isInput output.operator)
    · exact .inl ⟨marker, wired, .inr ⟨input, isInput, atInput, delivers⟩⟩
  | @port stage producer input output source index other isStage isInput isProducer isOutput meets
      _ ih =>
    obtain ⟨origin, inOutput, inInput⟩ := id meets
    refine .inr ⟨input, isInput, rfl, origin, inInput, ?_⟩
    rcases ih with gets | ⟨wrong, isWrong, same, -⟩
    · exact (faithful.inputs stage isStage input isInput origin inInput source).2
        ⟨producer, isProducer, output, isOutput, meets, other, gets⟩
    · exact absurd same ((sound.stages producer isProducer).proper.input_ne_output isWrong isOutput)

variable (circuitless : Circuitless plan.dependencies.Depends)

include circuitless

/-- What arrives in a stage is found by a walk. -/
theorem receives_of_gets {stage : Stage} (isStage : stage ∈ plan.stages) {target source : Terminal}
    (gets : stage.Gets graph target source) : plan.Receives stage target source := by
  have founded : WellFounded fun producer consumer => plan.Links producer consumer := by
    have links := ((circuitless_dependencies_iff sound.distinct).1 circuitless).converse
    exact links.wellFounded plan.stages fun _ _ link => link.1
  induction stage using founded.induction generalizing target with
  | _ stage ih =>
    obtain ⟨output, wired, ⟨noMarker, isCopy, sameIndex⟩ |
      ⟨input, isInput, same, origin, isOrigin, collects⟩⟩ := gets
    · exact .operator isStage wired noMarker isCopy sameIndex
    · have isMarker := (sound.stages stage isStage).proper.isMarker_port (List.mem_append_left _ isInput)
      obtain ⟨producer, isProducer, fed, isFed, meets, index, writes⟩ :=
        (faithful.inputs stage isStage input isInput origin isOrigin source).1 collects
      have before := ih producer ⟨isProducer, isStage, fed, isFed, input, isInput, meets⟩ isProducer
        writes
      have atInput : plan.Receives stage ⟨output.operator, 0⟩ source :=
        same ▸ .port isStage isInput isProducer isFed meets before
      exact .marker isStage wired (same ▸ isMarker) atInput

/-- The copies of operators receive what their originals receive. -/
theorem receives_iff {stage : Stage} (isStage : stage ∈ plan.stages) {operator : Operator}
    (member : operator ∈ stage.graph.operators) {original : OperatorId}
    (isCopy : ⟨operator.id, original⟩ ∈ stage.provenance)
    (noMarker : graph.isMarker original = false) (index : Nat) (source : Terminal) :
    plan.Receives stage ⟨operator.id, index⟩ source ↔ graph.Receives ⟨original, index⟩ source := by
  have stageSound := sound.stages stage isStage
  have copyNoMarker := (faithful.kinds stage isStage operator member original isCopy).trans noMarker
  rw [← faithful.copies stage isStage operator member copyNoMarker original isCopy]
  refine ⟨fun receives => ?_, faithful.receives_of_gets sound circuitless isStage⟩
  rcases faithful.gets_of_receives sound receives with gets | ⟨input, isInput, same, -⟩
  · exact gets
  · have isMarker := stageSound.proper.isMarker_port (List.mem_append_left _ isInput)
    rw [same, Graph.isMarker, Graph.holds_id stageSound.wellFormed member, copyNoMarker] at isMarker
    cases isMarker

/-- Every operator from which a way leads to an END marker has a copy; of a marker on such a way,
everything that it collects does. -/
theorem hasCopy_of_way {id finish : OperatorId} (isEnd : graph.isMarkerOf .finish finish = true)
    (way : ReflTransGen graph.Feeds id finish) :
    (graph.isMarker id = false → plan.HasCopy id) ∧
      (graph.isMarker id = true → ∀ source, graph.Collects id source →
        plan.HasCopy source.operator) := by
  induction way using ReflTransGen.head_induction_on with
  | refl =>
    refine ⟨fun noMarker => ?_, fun _ source collects => ?_⟩
    · rw [Graph.isMarker_of_isMarkerOf isEnd] at noMarker
      cases noMarker
    · obtain ⟨stage, isStage, output, -, -, -, index, gets⟩ := faithful.ends finish isEnd source collects
      exact (faithful.receives_of_gets sound circuitless isStage gets).hasCopy
  | @head id next feeds _ ih =>
    obtain ⟨output, input, wired⟩ := feeds
    -- What arrives at the next operator has a copy, be it a marker or not.
    have arrives : ∀ source, graph.Receives ⟨next, input⟩ source → plan.HasCopy source.operator := by
      intro source receives
      rcases graph.isMarker_eq_true_or next with isMarker | noMarker
      · exact ih.2 isMarker source ⟨input, receives⟩
      · obtain ⟨stage, isStage, pair, isPair, rfl, isThere⟩ := ih.1 noMarker
        obtain ⟨operator, member, same⟩ := Graph.mem_operatorIds.1 isThere
        have isCopy : ⟨operator.id, pair.source⟩ ∈ stage.provenance := same ▸ isPair
        exact ((faithful.receives_iff sound circuitless isStage member isCopy noMarker input
          source).2 receives).hasCopy
    refine ⟨fun noMarker => arrives ⟨id, output⟩ (.operator wired noMarker),
      fun isMarker source collects => ?_⟩
    obtain ⟨index, before⟩ := collects
    exact arrives source (.marker wired isMarker before)

end Plan.Faithful

end StagePlanner
