import StagePlanner.Proofs.Assembly.Schedule
import StagePlanner.Proofs.Route

/-!
# Ways upstream through a plan

How often the data of an output reach a place in a plan is the number of ways upstream that lead
from the place to copies of the output. A way goes from an input to what is wired to it, through
markers from their outputs to their inputs, and from an input of a stage to the outputs of stages
that feed it (`Plan.Upstream`). In a sound plan without circuits there are finitely many ways
(`Plan.Sound.finitary_upstream`), and they can be counted along a list (`Plan.upstreams`).
-/

namespace StagePlanner

open Relation

/-- A terminal of an operator in a stage, on one of its sides. -/
structure Spot where
  stage : StageId
  side : PortSide
  terminal : Terminal
  deriving DecidableEq, Repr

/-- There is a port at a terminal. -/
def Graph.HasPort (graph : Graph) (side : PortSide) (terminal : Terminal) : Prop :=
  ∃ operator ∈ graph.operators, operator.id = terminal.operator ∧
    terminal.index < (operator.portsOn side).length

instance (graph : Graph) (side : PortSide) (terminal : Terminal) :
    Decidable (graph.HasPort side terminal) :=
  List.decidableBEx _ graph.operators

theorem Graph.PortAt.hasPort {graph : Graph} {side : PortSide} {terminal : Terminal} {port : PortId}
    (isAt : graph.PortAt side terminal port) : graph.HasPort side terminal := by
  obtain ⟨operator, member, same, position⟩ := isAt
  obtain ⟨bound, -⟩ := List.getElem?_eq_some_iff.1 position
  exact ⟨operator, member, same, by simpa using bound⟩

theorem Graph.Wired.hasPort_source {graph : Graph} {source target : Terminal}
    (wired : graph.Wired source target) : graph.HasPort .output source := by
  obtain ⟨_, _, isAt, -⟩ := wired
  exact isAt.hasPort

instance (left right : StagePort) : Decidable (left.Meets right) :=
  decidable_of_iff (left.origins.meets right.origins = true) OrderedSet.meets_iff

namespace Plan

/-- One step upstream. -/
inductive Upstream (plan : Plan) : Spot → Spot → Prop
  /-- From an input to an output that is wired to it. -/
  | wire {stage : Stage} {source target : Terminal} (isStage : stage ∈ plan.stages)
      (wired : stage.graph.Wired source target) :
      Upstream plan ⟨stage.id, .input, target⟩ ⟨stage.id, .output, source⟩
  /-- From an output of a marker to an input of it. -/
  | marker {stage : Stage} {id : OperatorId} {output input : Nat} (isStage : stage ∈ plan.stages)
      (isMarker : stage.graph.isMarker id = true) (isPort : stage.graph.HasPort .input ⟨id, input⟩) :
      Upstream plan ⟨stage.id, .output, ⟨id, output⟩⟩ ⟨stage.id, .input, ⟨id, input⟩⟩
  /-- From an input of a stage to an output of a stage that feeds it. -/
  | connection {stage producer : Stage} {input output : StagePort} {index other : Nat}
      (isStage : stage ∈ plan.stages) (isInput : input ∈ stage.inputs)
      (isProducer : producer ∈ plan.stages) (isOutput : output ∈ producer.outputs)
      (meets : output.Meets input) (isPort : producer.graph.HasPort .output ⟨output.marker, other⟩) :
      Upstream plan ⟨stage.id, .input, ⟨input.marker, index⟩⟩
        ⟨producer.id, .output, ⟨output.marker, other⟩⟩

/-- A spot is a copy of an output. -/
def CopyOf (plan : Plan) (source : Terminal) (spot : Spot) : Prop :=
  spot.side = .output ∧ spot.terminal.index = source.index ∧
    ∃ stage ∈ plan.stages, stage.id = spot.stage ∧
      ⟨spot.terminal.operator, source.operator⟩ ∈ stage.provenance

/-- A way upstream from a spot to a copy of an output. -/
abbrev Way (plan : Plan) (source : Terminal) (spot : Spot) : Type :=
  Route plan.Upstream (plan.CopyOf source) spot

variable {plan : Plan}

/-! ### Steps of sound plans -/

/-- Whether a spot is at an output of its stage. -/
def AtOutput (plan : Plan) (spot : Spot) : Prop :=
  ∃ stage ∈ plan.stages, stage.id = spot.stage ∧
    ∃ output ∈ stage.outputs, output.marker = spot.terminal.operator

/-- Whether a spot is at an input of its stage. -/
def AtInput (plan : Plan) (spot : Spot) : Prop :=
  ∃ stage ∈ plan.stages, stage.id = spot.stage ∧
    ∃ input ∈ stage.inputs, input.marker = spot.terminal.operator

open Classical in
/-- A rank that falls on every way within a stage, from its outputs to its inputs. -/
noncomputable def height (plan : Plan) (spot : Spot) : Nat :=
  match spot.side with
  | .output => if plan.AtOutput spot then 3 else 1
  | .input => if plan.AtInput spot then 0 else 2

namespace Sound

variable (sound : plan.Sound)

include sound

theorem exists_output_of_atOutput {stage : Stage} (isStage : stage ∈ plan.stages) {side : PortSide}
    {terminal : Terminal} (isAt : plan.AtOutput ⟨stage.id, side, terminal⟩) :
    ∃ output ∈ stage.outputs, output.marker = terminal.operator := by
  obtain ⟨other, isOther, same, output⟩ := isAt
  obtain rfl := stage_unique sound.distinct isOther isStage same
  exact output

theorem exists_input_of_atInput {stage : Stage} (isStage : stage ∈ plan.stages) {side : PortSide}
    {terminal : Terminal} (isAt : plan.AtInput ⟨stage.id, side, terminal⟩) :
    ∃ input ∈ stage.inputs, input.marker = terminal.operator := by
  obtain ⟨other, isOther, same, input⟩ := isAt
  obtain rfl := stage_unique sound.distinct isOther isStage same
  exact input

/-- A step upstream leads to a stage on which its stage depends, or down in its stage. -/
theorem descends_of_upstream {source target : Spot} (step : plan.Upstream source target) :
    plan.dependencies.Depends source.stage target.stage ∨
      target.stage = source.stage ∧ plan.height target < plan.height source := by
  cases step with
  | @wire stage output input isStage wired =>
    refine .inr ⟨rfl, ?_⟩
    have noOutput : ¬ plan.AtOutput ⟨stage.id, .output, output⟩ := fun isAt => by
      obtain ⟨port, isOutput, same⟩ := sound.exists_output_of_atOutput isStage isAt
      exact (sound.stages stage isStage).idle port isOutput _ (same ▸ wired.feeds)
    have noInput : ¬ plan.AtInput ⟨stage.id, .input, input⟩ := fun isAt => by
      obtain ⟨port, isInput, same⟩ := sound.exists_input_of_atInput isStage isAt
      exact (sound.stages stage isStage).unfed port isInput _ (same ▸ wired.feeds)
    simp [height, noOutput, noInput]
  | @marker stage id output input isStage isMarker isPort =>
    refine .inr ⟨rfl, ?_⟩
    have stageSound := sound.stages stage isStage
    by_cases atInput : plan.AtInput ⟨stage.id, .input, ⟨id, input⟩⟩
    · simp only [height, atInput, if_true]
      split <;> decide
    · obtain ⟨operator, member, same⟩ : ∃ operator ∈ stage.graph.operators, operator.id = id := by
        obtain ⟨operator, member, same, -⟩ := isPort
        exact ⟨operator, member, same⟩
      rw [← same, Graph.isMarker, Graph.holds_id stageSound.wellFormed member] at isMarker
      obtain ⟨port, isPort, atPort⟩ := stageSound.port operator member isMarker
      have isOutput : port ∈ stage.outputs := (List.mem_append.1 isPort).resolve_left fun isInput =>
        atInput ⟨stage, isStage, rfl, port, isInput, atPort.trans same⟩
      have atOutput : plan.AtOutput ⟨stage.id, .output, ⟨id, output⟩⟩ :=
        ⟨stage, isStage, rfl, port, isOutput, atPort.trans same⟩
      simp [height, atInput, atOutput]
  | connection isStage isInput isProducer isOutput meets =>
    exact .inl (depends_of_links isProducer isStage ⟨_, isOutput, _, isInput, meets⟩)

end Sound

/-! ### Listing spots -/

/-- Every port of every operator of every stage. -/
def spots (plan : Plan) : List Spot :=
  plan.stages.flatMap fun stage => stage.graph.operators.flatMap fun operator =>
    [PortSide.input, PortSide.output].flatMap fun side =>
      (List.range (operator.portsOn side).length).map fun index =>
        ⟨stage.id, side, ⟨operator.id, index⟩⟩

theorem mem_spots {stage : Stage} (isStage : stage ∈ plan.stages) {side : PortSide}
    {terminal : Terminal} (isPort : stage.graph.HasPort side terminal) :
    ⟨stage.id, side, terminal⟩ ∈ plan.spots := by
  obtain ⟨operator, member, same, bound⟩ := isPort
  refine List.mem_flatMap.2 ⟨stage, isStage, List.mem_flatMap.2 ⟨operator, member, ?_⟩⟩
  refine List.mem_flatMap.2 ⟨side, by cases side <;> simp, List.mem_map.2 ⟨terminal.index, ?_, ?_⟩⟩
  · exact List.mem_range.2 bound
  · rw [same]

/-- A step upstream leads to a port of the plan. -/
theorem Upstream.mem_spots {source target : Spot} (step : plan.Upstream source target) :
    target ∈ plan.spots := by
  cases step with
  | wire isStage wired => exact Plan.mem_spots isStage wired.hasPort_source
  | marker isStage _ isPort => exact Plan.mem_spots isStage isPort
  | connection _ _ isProducer _ _ isPort => exact Plan.mem_spots isProducer isPort

/-- In a sound plan without circuits there are finitely many ways upstream. -/
theorem Sound.finitary_upstream (sound : plan.Sound)
    (circuitless : Circuitless plan.dependencies.Depends) : Finitary plan.Upstream :=
  .of_circuitless (circuitless.of_levels Spot.stage plan.height fun _ _ =>
    sound.descends_of_upstream) plan.spots fun _ _ => Upstream.mem_spots

theorem upstream_iff {source target : Spot} : plan.Upstream source target ↔
    ∃ stage ∈ plan.stages, source.stage = stage.id ∧
      ((source.side = .input ∧ target.side = .output ∧ target.stage = stage.id ∧
          stage.graph.Wired target.terminal source.terminal) ∨
        (source.side = .output ∧ target.side = .input ∧ target.stage = stage.id ∧
          stage.graph.isMarker source.terminal.operator = true ∧
          target.terminal.operator = source.terminal.operator ∧
          stage.graph.HasPort .input target.terminal) ∨
        (source.side = .input ∧ target.side = .output ∧
          ∃ input ∈ stage.inputs, input.marker = source.terminal.operator ∧
            ∃ producer ∈ plan.stages, target.stage = producer.id ∧
              ∃ output ∈ producer.outputs, output.marker = target.terminal.operator ∧
                output.Meets input ∧ producer.graph.HasPort .output target.terminal)) := by
  constructor
  · intro step
    cases step with
    | wire isStage wired => exact ⟨_, isStage, rfl, .inl ⟨rfl, rfl, rfl, wired⟩⟩
    | marker isStage isMarker isPort =>
      exact ⟨_, isStage, rfl, .inr (.inl ⟨rfl, rfl, rfl, isMarker, rfl, isPort⟩)⟩
    | connection isStage isInput isProducer isOutput meets isPort =>
      exact ⟨_, isStage, rfl, .inr (.inr ⟨rfl, rfl, _, isInput, rfl, _, isProducer, rfl, _, isOutput,
        rfl, meets, isPort⟩)⟩
  · obtain ⟨sourceStage, sourceSide, sourceOperator, sourceIndex⟩ := source
    obtain ⟨targetStage, targetSide, targetOperator, targetIndex⟩ := target
    rintro ⟨stage, isStage, rfl, ⟨rfl, rfl, rfl, wired⟩ | ⟨rfl, rfl, rfl, isMarker, rfl, isPort⟩ |
      ⟨rfl, rfl, input, isInput, rfl, producer, isProducer, rfl, output, isOutput, rfl, meets, isPort⟩⟩
    · exact .wire isStage wired
    · exact .marker isStage isMarker isPort
    · exact .connection isStage isInput isProducer isOutput meets isPort

instance (plan : Plan) (source target : Spot) : Decidable (plan.Upstream source target) :=
  decidable_of_iff' _ upstream_iff

instance (plan : Plan) (source : Terminal) (spot : Spot) : Decidable (plan.CopyOf source spot) :=
  inferInstanceAs (Decidable (_ ∧ _ ∧ ∃ stage ∈ plan.stages, _))

/-- The spots to which a step upstream leads. -/
def upstreams (plan : Plan) (source : Spot) : List Spot :=
  plan.spots.dedup.filter fun target => plan.Upstream source target

theorem mem_upstreams {source target : Spot} :
    target ∈ plan.upstreams source ↔ plan.Upstream source target := by
  rw [upstreams, List.mem_filter, List.mem_dedup, decide_eq_true_eq]
  exact and_iff_right_of_imp Upstream.mem_spots

/-- The number of ways upstream from a spot to copies of an output, counted along lists. -/
def ways? (plan : Plan) (source : Terminal) (spot : Spot) : Option Nat :=
  Route.count? plan.upstreams (fun spot => plan.CopyOf source spot) plan.spots.length spot

theorem Sound.card_way_of_ways? (sound : plan.Sound)
    (circuitless : Circuitless plan.dependencies.Depends) {source : Terminal} {spot : Spot}
    {number : Nat} (counted : plan.ways? source spot = some number) :
    Nat.card (plan.Way source spot) = number :=
  Route.card_eq_of_count? (sound.finitary_upstream circuitless) (fun _ _ => mem_upstreams)
    (fun _ => (List.nodup_dedup _).filter _) (fun _ => decide_eq_true_iff) counted

end Plan

end StagePlanner
