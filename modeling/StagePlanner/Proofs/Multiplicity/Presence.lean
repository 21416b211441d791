import StagePlanner.Proofs.Multiplicity.Folding

/-!
# What is delivered at all

There is a way upstream to a copy of an output exactly when walking upstream leads to the output
(`Plan.Faithful.nonempty_way_iff`). So in faithful plans, where walks lead to what operators of the
graph receive, whether an output is delivered at all does not depend on the plan.
-/

namespace StagePlanner

namespace Plan

variable {plan : Plan} {graph : Graph} {source : Terminal}

/-- What leaves through an output on the way to a source: its data, or what a marker receives. -/
def Passes (plan : Plan) (stage : Stage) (output source : Terminal) : Prop :=
  stage.graph.isMarker output.operator = false ∧
      ⟨output.operator, source.operator⟩ ∈ stage.provenance ∧ output.index = source.index ∨
    stage.graph.isMarker output.operator = true ∧
      ∃ index, plan.Receives stage ⟨output.operator, index⟩ source

namespace Faithful

variable (faithful : plan.Faithful graph) (sound : plan.Sound)
  (noMarker : graph.isMarker source.operator = false)

include faithful sound noMarker

/-- A copy of an output of an operator that is no marker is no marker. -/
theorem isMarker_eq_false {stage : Stage} (isStage : stage ∈ plan.stages) {id : OperatorId}
    (isPair : ⟨id, source.operator⟩ ∈ stage.provenance) : stage.graph.isMarker id = false := by
  refine (stage.graph.isMarker_eq_true_or id).resolve_left fun isMarker => ?_
  obtain ⟨operator, member, rfl, isOne⟩ :=
    (Graph.holds_iff (sound.stages stage isStage).wellFormed).1 isMarker
  have kinds := faithful.kinds stage isStage operator member source.operator isPair
  rw [isOne, noMarker] at kinds
  cases kinds

/-- A way upstream is a walk upstream. -/
theorem receives_of_way {spot : Spot} (way : plan.Way source spot) {stage : Stage}
    (isStage : stage ∈ plan.stages) (here : stage.id = spot.stage) :
    (spot.side = .input → plan.Receives stage spot.terminal source) ∧
      (spot.side = .output → plan.Passes stage spot.terminal source) := by
  induction way generalizing stage with
  | stop reached =>
    obtain ⟨isOutput, sameIndex, other, isOther, alsoHere, isPair⟩ := reached
    obtain rfl := stage_unique sound.distinct isOther isStage (alsoHere.trans here.symm)
    refine ⟨fun isInput => ?_, fun _ => .inl
      ⟨faithful.isMarker_eq_false sound noMarker isOther isPair, isPair, sameIndex⟩⟩
    rw [isOutput] at isInput
    cases isInput
  | go first rest ih =>
    cases first with
    | wire isOther wired =>
      obtain rfl := stage_unique sound.distinct isOther isStage here.symm
      refine ⟨fun _ => ?_, nofun⟩
      rcases (ih isOther rfl).2 rfl with ⟨isOperator, isPair, sameIndex⟩ | ⟨isMarker, _, before⟩
      · exact .operator isOther wired isOperator isPair sameIndex
      · exact .marker isOther wired isMarker before
    | marker isOther isMarker =>
      obtain rfl := stage_unique sound.distinct isOther isStage here.symm
      exact ⟨nofun, fun _ => .inr ⟨isMarker, _, (ih isOther rfl).1 rfl⟩⟩
    | connection isOther isInput isProducer isOutput meets =>
      obtain rfl := stage_unique sound.distinct isOther isStage here.symm
      refine ⟨fun _ => ?_, nofun⟩
      have isMarker := (sound.stages _ isProducer).proper.isMarker_port (List.mem_append_right _ isOutput)
      rcases (ih isProducer rfl).2 rfl with ⟨isOperator, -⟩ | ⟨-, _, before⟩
      · rw [isMarker] at isOperator
        cases isOperator
      · exact .port isOther isInput isProducer isOutput meets before

end Faithful

/-- A walk upstream is a way upstream. A walk from any input of a marker is one from its only input,
for a walk does not say at which input of a stage port it begins. -/
theorem Sound.nonempty_way_of_receives (sound : plan.Sound) {stage : Stage} {target : Terminal}
    (receives : plan.Receives stage target source) :
    Nonempty (plan.Way source ⟨stage.id, .input, target⟩) ∧
      (stage.graph.isMarker target.operator = true →
        Nonempty (plan.Way source ⟨stage.id, .input, ⟨target.operator, 0⟩⟩)) := by
  have onlyInput : ∀ {stage : Stage} {output target : Terminal}, stage ∈ plan.stages →
      stage.graph.Wired output target → stage.graph.isMarker target.operator = true →
        target = ⟨target.operator, 0⟩ := by
    intro stage output target isStage wired isMarker
    obtain ⟨port, isPort, same⟩ := (sound.stages stage isStage).exists_port isMarker
    obtain ⟨operator, index⟩ := target
    obtain rfl : port.marker = operator := same
    rw [(sound.stages stage isStage).wired_input_index isPort wired]
  induction receives with
  | @operator stage target copy source isStage wired noMarker isCopy sameIndex =>
    have way : plan.Way source ⟨stage.id, .input, target⟩ :=
      .go (.wire isStage wired) (.stop ⟨rfl, sameIndex, stage, isStage, rfl, isCopy⟩)
    exact ⟨⟨way⟩, fun isMarker => ⟨onlyInput isStage wired isMarker ▸ way⟩⟩
  | @marker stage target marker source index isStage wired isMarker _ ih =>
    obtain ⟨rest⟩ := ih.2 isMarker
    obtain ⟨port, isPort, same⟩ := (sound.stages stage isStage).exists_port isMarker
    obtain ⟨_, isAt⟩ := (sound.stages stage isStage).exists_portAt isPort .input
    rw [same] at isAt
    have way : plan.Way source ⟨stage.id, .input, target⟩ :=
      .go (.wire isStage wired) (.go (.marker isStage isMarker isAt.hasPort) rest)
    exact ⟨⟨way⟩, fun isMarker => ⟨onlyInput isStage wired isMarker ▸ way⟩⟩
  | @port stage producer input output source index other isStage isInput isProducer isOutput meets _ ih =>
    have producerSound := sound.stages producer isProducer
    have isPort : output ∈ producer.ports := List.mem_append_right _ isOutput
    obtain ⟨rest⟩ := ih.2 (producerSound.proper.isMarker_port isPort)
    obtain ⟨_, exitAt⟩ := producerSound.exists_portAt isPort .output
    obtain ⟨_, entryAt⟩ := producerSound.exists_portAt isPort .input
    have way : ∀ index, plan.Way source ⟨stage.id, .input, ⟨input.marker, index⟩⟩ := fun _ =>
      .go (.connection isStage isInput isProducer isOutput meets exitAt.hasPort)
        (.go (.marker isProducer (producerSound.proper.isMarker_port isPort) entryAt.hasPort) rest)
    exact ⟨⟨way index⟩, fun _ => ⟨way 0⟩⟩

namespace Faithful

variable (faithful : plan.Faithful graph) (sound : plan.Sound)
  (noMarker : graph.isMarker source.operator = false)

include faithful sound noMarker

/-- There is a way upstream to a copy of an output when walking upstream leads to the output. -/
theorem nonempty_way_iff {stage : Stage} (isStage : stage ∈ plan.stages) {target : Terminal} :
    Nonempty (plan.Way source ⟨stage.id, .input, target⟩) ↔ plan.Receives stage target source := by
  refine ⟨fun ⟨way⟩ => ?_, fun receives => (sound.nonempty_way_of_receives receives).1⟩
  exact (faithful.receives_of_way sound noMarker way isStage rfl).1 rfl

/-- In a faithful plan without circuits an output is delivered to the copies of an operator when the
operator receives it in the graph. -/
theorem card_way_pos_iff (circuitless : Circuitless plan.dependencies.Depends) {stage : Stage}
    (isStage : stage ∈ plan.stages) {operator : Operator} (member : operator ∈ stage.graph.operators)
    {original : OperatorId} (isCopy : ⟨operator.id, original⟩ ∈ stage.provenance)
    (isOperator : operator.isMarker = false) (index : Nat) :
    0 < Nat.card (plan.Way source ⟨stage.id, .input, ⟨operator.id, index⟩⟩) ↔
      graph.Receives ⟨original, index⟩ source := by
  have original_noMarker : graph.isMarker original = false :=
    (faithful.kinds stage isStage operator member original isCopy).symm.trans isOperator
  rw [Nat.card_pos_iff, and_iff_left (Route.finite (sound.finitary_upstream circuitless) _),
    faithful.nonempty_way_iff sound noMarker isStage]
  exact faithful.receives_iff sound circuitless isStage member isCopy original_noMarker index source

end Faithful

end Plan

end StagePlanner
