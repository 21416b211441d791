import StagePlanner.Proofs.Assembly.Search

/-!
# Taking over from dissolved outputs

When an output that forwards an input is dissolved, the outputs that feed the input get its origins.
`Stage.spread` says what becomes of each stage; then the stage of the dissolved output loses its
marker.

* `Plan.Proper.exists_dissolved`: dissolving succeeds.
* `Plan.Sound.exists_dissolved`: in sound plans the outputs that feed the input take over.
-/

namespace StagePlanner

/-- A port of a stage after the ports at some addresses got further origins. -/
def StagePort.widenedAt (port : StagePort) (stage : StageId) (addresses : List PortAddress)
    (origins : OrderedSet OperatorId) : StagePort :=
  if ⟨stage, port.id⟩ ∈ addresses then port.widened origins else port

theorem StagePort.place_widenedAt (port : StagePort) (stage : StageId)
    (addresses : List PortAddress) (origins : OrderedSet OperatorId) :
    (port.widenedAt stage addresses origins).place = port.place := by
  rw [widenedAt]
  split <;> rfl

/-- Widening a port twice by the same origins is widening it once. -/
theorem StagePort.widenedAt_widenedAt (port : StagePort) (stage : StageId) (address : PortAddress)
    (addresses : List PortAddress) (origins : OrderedSet OperatorId) :
    (port.widenedAt stage [address] origins).widenedAt stage addresses origins =
      port.widenedAt stage (address :: addresses) origins := by
  have twice : (port.widened origins).widened origins = port.widened origins := by
    have same : (port.origins.union origins).union origins = port.origins.union origins :=
      OrderedSet.ext fun origin => by simp
    simp only [widened, same]
  have sameId : (port.widenedAt stage [address] origins).id = port.id :=
    congrArg Prod.fst (port.place_widenedAt stage [address] origins)
  rw [widenedAt, sameId]
  by_cases here : (⟨stage, port.id⟩ : PortAddress) = address
  · have first : port.widenedAt stage [address] origins = port.widened origins :=
      if_pos (List.mem_singleton.2 here)
    have both : port.widenedAt stage (address :: addresses) origins = port.widened origins :=
      if_pos (List.mem_cons.2 (.inl here))
    rw [first, both, twice, ite_self]
  · have first : port.widenedAt stage [address] origins = port :=
      if_neg fun member => here (List.mem_singleton.1 member)
    rw [first, widenedAt]
    simp only [List.mem_cons, here, false_or]

/-- Lets the outputs at some addresses stand for further origins. -/
def Stage.spread (stage : Stage) (addresses : List PortAddress)
    (origins : OrderedSet OperatorId) : Stage :=
  { stage with outputs := stage.outputs.map fun port => port.widenedAt stage.id addresses origins }

namespace Stage

variable {stage : Stage}

theorem spread_nil (origins : OrderedSet OperatorId) : stage.spread [] origins = stage := by
  simp [spread, StagePort.widenedAt]

theorem spread_spread (address : PortAddress) (addresses : List PortAddress)
    (origins : OrderedSet OperatorId) :
    (stage.spread [address] origins).spread addresses origins =
      stage.spread (address :: addresses) origins := by
  have outputs : ((stage.outputs.map fun port => port.widenedAt stage.id [address] origins).map
      fun port => port.widenedAt stage.id addresses origins) =
      stage.outputs.map fun port => port.widenedAt stage.id (address :: addresses) origins := by
    rw [List.map_map]
    exact List.map_congr_left fun port _ => port.widenedAt_widenedAt ..
  exact congrArg (fun outputs => { stage with outputs }) outputs

theorem spread_singleton (address : PortAddress) (origins : OrderedSet OperatorId) :
    stage.spread [address] origins =
      if stage.id = address.stage then stage.widenOutput address.port origins else stage := by
  have same : ∀ port : StagePort, (⟨stage.id, port.id⟩ : PortAddress) ∈ [address] ↔
      stage.id = address.stage ∧ port.id = address.port := by
    intro port
    rw [List.mem_singleton]
    exact ⟨fun equal => equal ▸ ⟨rfl, rfl⟩, fun both => both.1 ▸ both.2 ▸ rfl⟩
  simp only [spread, StagePort.widenedAt, same]
  split
  · next here =>
    obtain ⟨_, port⟩ := address
    cases here
    simp only [true_and]
    rfl
  · next elsewhere => simp [elsewhere]

theorem map_place_spread (addresses : List PortAddress) (origins : OrderedSet OperatorId) :
    (stage.spread addresses origins).outputs.map StagePort.place =
      stage.outputs.map StagePort.place := by
  rw [spread, List.map_map]
  exact List.map_congr_left fun port _ => port.place_widenedAt ..

theorem Proper.spread (proper : stage.Proper) (addresses : List PortAddress)
    (origins : OrderedSet OperatorId) : (stage.spread addresses origins).Proper :=
  proper.of_same_places proper.wellFormed rfl rfl (map_place_spread _ _) proper.unfed proper.idle

theorem Sound.spread (sound : stage.Sound) (addresses : List PortAddress)
    (origins : OrderedSet OperatorId) : (stage.spread addresses origins).Sound :=
  sound.of_same_places rfl rfl (map_place_spread _ _)

/-- In a sound stage nothing but the input feeds a checkpoint that forwards it. -/
theorem Sound.forwards (sound : stage.Sound) {input output : StagePort}
    (isOutput : output ∈ stage.outputs) (forwards : stage.ForwardsCheckpoint input output) :
    stage.Forwards input output := by
  have isInput := List.mem_append_left stage.outputs forwards.isInput
  refine fun source => ⟨fun wired => ?_, ?_⟩
  · obtain ⟨operator, index⟩ := source
    obtain rfl := (forwards.only operator).1 wired.feeds
    rw [sound.wired_output_index isInput wired]
  · rintro rfl
    obtain ⟨first, second, wired⟩ := (forwards.only input.marker).2 rfl
    have atFirst := sound.wired_output_index isInput wired
    have atSecond := sound.wired_input_index (List.mem_append_right _ isOutput) wired
    rwa [atFirst, atSecond] at wired

end Stage

namespace Plan

variable {plan : Plan}

theorem widenOutput_eq (distinct : plan.stageIds.Nodup) (origins : OrderedSet OperatorId)
    (address : PortAddress) : (plan.widenOutput origins address).stages =
      plan.stages.map fun stage => stage.spread [address] origins := by
  simp only [Stage.spread_singleton]
  rw [widenOutput]
  split
  · next stage found =>
    obtain ⟨isStage, same⟩ := (stage?_eq_some_iff distinct).1 found
    refine List.map_congr_left fun other isOther => ?_
    by_cases here : other.id = address.stage
    · obtain rfl := stage_unique distinct isOther isStage (here.trans same.symm)
      rw [if_pos here]
      exact if_pos rfl
    · rw [if_neg here]
      exact if_neg fun equal => here (equal.trans same)
  · next missing =>
    have elsewhere : ∀ stage ∈ plan.stages, stage.id ≠ address.stage := fun stage isStage same => by
      rw [(stage?_eq_some_iff distinct).2 ⟨isStage, same⟩] at missing
      cases missing
    refine (List.map_congr_left fun stage isStage => ?_).trans (List.map_id _) |>.symm
    exact if_neg (elsewhere stage isStage)

/-- Outputs take over origins one by one. -/
theorem foldl_widenOutput_eq (distinct : plan.stageIds.Nodup) (origins : OrderedSet OperatorId)
    (addresses : List PortAddress) :
    (addresses.foldl (fun plan address => plan.widenOutput origins address) plan).stages =
      plan.stages.map fun stage => stage.spread addresses origins := by
  induction addresses generalizing plan with
  | nil => simp [Stage.spread_nil]
  | cons address rest ih =>
    have widened := widenOutput_eq distinct origins address
    have sameIds : (plan.widenOutput origins address).stageIds = plan.stageIds := by
      rw [stageIds, widened, List.map_map]
      rfl
    rw [List.foldl_cons, ih (sameIds ▸ distinct), widened, List.map_map]
    exact List.map_congr_left fun stage _ => Stage.spread_spread address rest origins

/-- Where outputs that feed an input get further origins, they take over. -/
theorem Proper.spread_outputs (proper : plan.Proper) {stage : Stage} (isStage : stage ∈ plan.stages)
    (output input : StagePort) :
    (stage.spread (plan.outputsFrom input.origins) output.origins).outputs =
      stage.outputs.map fun port => port.takingOver output input := by
  refine List.map_congr_left fun port isPort => ?_
  rw [StagePort.widenedAt, StagePort.takingOver]
  refine if_congr ?_ rfl rfl
  rw [proper.mem_outputsFrom_iff isStage isPort, OrderedSet.meets_iff]

/-- Dissolving an output succeeds; in its stage only its marker goes. -/
theorem Proper.exists_dissolved (proper : plan.Proper) {found : Stage} (isFound : found ∈ plan.stages)
    {output : StagePort} (isOutput : output ∈ found.outputs) (input : StagePort) {widened : Plan}
    (spread : widened.stages = plan.stages.map fun stage =>
      stage.spread (plan.outputsFrom input.origins) output.origins) :
    ∃ stage, (widened.stage found.id >>= fun stage => stage.removeOutput output.id) = .ok stage ∧
      stage.Restricts (found.spread (plan.outputsFrom input.origins) output.origins)
        fun id => id ≠ output.marker := by
  let change (stage : Stage) := stage.spread (plan.outputsFrom input.origins) output.origins
  have sameIds : widened.stageIds = plan.stageIds := by
    rw [stageIds, spread, List.map_map]
    rfl
  have isChanged : change found ∈ widened.stages := spread ▸ List.mem_map_of_mem isFound
  have isThere : output.takingOver output input ∈ (change found).outputs :=
    proper.spread_outputs isFound output input ▸ List.mem_map_of_mem isOutput
  obtain ⟨stage, isRemoved, restricts⟩ :=
    ((proper.stages found isFound).spread _ _).exists_removeOutput isThere
  have samePlace := output.place_takingOver output input
  rw [show (output.takingOver output input).id = output.id from congrArg Prod.fst samePlace]
    at isRemoved
  rw [show (output.takingOver output input).marker = output.marker from
    congrArg Prod.snd samePlace] at restricts
  refine ⟨stage, ?_, restricts⟩
  have located : widened.stage? found.id = some (change found) :=
    (stage?_eq_some_iff (sameIds ▸ proper.distinct)).2 ⟨isChanged, rfl⟩
  rw [Plan.stage, located]
  exact isRemoved

/-- A stage other than the one whose output is dissolved only takes over. -/
theorem Sound.takesOver_spread (sound : plan.Sound) {found old : Stage} (isOld : old ∈ plan.stages)
    (differ : old ≠ found) (output input : StagePort) :
    (old.spread (plan.outputsFrom input.origins) output.origins).TakesOver old found output input := by
  refine ⟨rfl, rfl, (sound.stages old isOld).spread _ _, ?_, fun _ => .rfl, fun port => ?_⟩
  · exact (sound.stages old isOld).wellFormed.restricts_refl.congr fun id => by simp [differ]
  · rw [sound.proper.spread_outputs isOld, List.mem_map]
    simp only [differ, false_implies, true_and, eq_comm]

/-- The stage whose output is dissolved takes over with its other outputs. -/
theorem Sound.takesOver_of_restricts (sound : plan.Sound) {found : Stage} (isFound : found ∈ plan.stages)
    {output input : StagePort} (isOutput : output ∈ found.outputs) {stage : Stage}
    (restricts : stage.Restricts (found.spread (plan.outputsFrom input.origins) output.origins)
      fun id => id ≠ output.marker) : stage.TakesOver found found output input := by
  have foundSound := sound.stages found isFound
  have placed : ∀ former : StagePort, (former.takingOver output input).marker = former.marker :=
    fun former => congrArg Prod.snd (former.place_takingOver output input)
  refine ⟨restricts.id, restricts.provenance, restricts.sound (foundSound.spread _ _),
    restricts.graph.congr fun id => by simp, fun port => ?_, fun port => ?_⟩
  · rw [restricts.mem_inputs]
    exact and_iff_left_of_imp fun isInput => foundSound.proper.input_ne_output isInput isOutput
  · rw [restricts.mem_outputs, sound.proper.spread_outputs isFound, List.mem_map]
    constructor
    · rintro ⟨⟨former, isFormer, rfl⟩, stays⟩
      exact ⟨former, isFormer, fun _ same => stays (same ▸ placed output), rfl⟩
    · rintro ⟨former, isFormer, differ, rfl⟩
      refine ⟨⟨former, isFormer, rfl⟩, fun same => differ rfl ?_⟩
      exact foundSound.proper.port_unique_of_marker (List.mem_append_right _ isFormer)
        (List.mem_append_right found.inputs isOutput) ((placed former).symm.trans same)

/-- In a sound plan what feeds the input takes over. -/
theorem Sound.exists_dissolved (sound : plan.Sound) {found : Stage} (isFound : found ∈ plan.stages)
    {output : StagePort} (isOutput : output ∈ found.outputs) (input : StagePort) {widened : Plan}
    (spread : widened.stages = plan.stages.map fun stage =>
      stage.spread (plan.outputsFrom input.origins) output.origins) :
    ∃ stage, (widened.stage found.id >>= fun stage => stage.removeOutput output.id) = .ok stage ∧
      List.Forall₂ (fun old new => new.TakesOver old found output input) plan.stages
        (widened.replace stage).stages := by
  obtain ⟨stage, isRemoved, restricts⟩ := sound.proper.exists_dissolved isFound isOutput input spread
  refine ⟨stage, isRemoved, ?_⟩
  rw [replace, spread, List.map_map, List.forall₂_map_right_iff, List.forall₂_same]
  intro old isOld
  rw [Function.comp_apply]
  by_cases equal : old = found
  · subst equal
    rw [if_pos restricts.id.symm]
    exact sound.takesOver_of_restricts isOld isOutput restricts
  · have elsewhere :
        (old.spread (plan.outputsFrom input.origins) output.origins).id ≠ stage.id := fun same =>
      equal (stage_unique sound.distinct isOld isFound (same.trans restricts.id))
    rw [if_neg elsewhere]
    exact sound.takesOver_spread isOld equal output input

end Plan

end StagePlanner
