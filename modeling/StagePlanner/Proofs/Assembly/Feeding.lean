import StagePlanner.Proofs.Assembly.Agreement

/-!
# What feeds the operators of stages

Steps of assembly remove operators and unite ports, but whatever is left of a stage is fed as it was
in the merged plan: an operator that is no marker keeps the operators that feed it, and it is entered
through inputs of the same kinds of markers (`Stage.FedLike`). Inputs are only merged when they agree,
so a broadcast never comes to stand for a shuffle.
-/

namespace StagePlanner

open Relation

namespace Stage

variable {result middle stage : Stage}

/-- An input of a given kind feeds an operator of the stage. -/
def Enters (stage : Stage) (kind : Option Marker) (target : OperatorId) : Prop :=
  ∃ input ∈ stage.inputs, stage.marker? input = kind ∧ stage.graph.Feeds input.marker target

/-- The first stage is what is left of the second one, and what is left is fed as it was. -/
structure FedLike (result stage : Stage) : Prop extends result.Descends stage where
  inner : ∀ operator ∈ result.graph.operators, operator.isMarker = false →
    ∀ source ∈ stage.graph.operators, source.isMarker = false →
      stage.graph.Feeds source.id operator.id →
        source ∈ result.graph.operators ∧ result.graph.Feeds source.id operator.id
  entered : ∀ operator ∈ result.graph.operators, operator.isMarker = false → ∀ kind,
    result.Enters kind operator.id ↔ stage.Enters kind operator.id
  /-- What passes from an input to an output did so before. -/
  passed : ∀ output ∈ result.outputs, ∀ kind, result.Enters kind output.marker →
    ∃ former ∈ stage.outputs, stage.Enters kind former.marker
  /-- An output to which something was written is written. -/
  written : (∀ output ∈ stage.outputs, ∃ source, stage.graph.Feeds source output.marker) →
    ∀ output ∈ result.outputs, ∃ source, result.graph.Feeds source output.marker

theorem FedLike.refl (stage : Stage) : stage.FedLike stage where
  toDescends := .refl stage
  inner _ _ _ _ member _ feeds := ⟨member, feeds⟩
  entered _ _ _ _ := .rfl
  passed output isOutput _ enters := ⟨output, isOutput, enters⟩
  written written := written

theorem FedLike.trans (later : result.FedLike middle) (earlier : middle.FedLike stage) :
    result.FedLike stage where
  toDescends := later.toDescends.trans earlier.toDescends
  inner operator member noMarker source isSource sourceNoMarker feeds := by
    obtain ⟨inMiddle, stillFeeds⟩ := earlier.inner operator (later.operators operator member) noMarker
      source isSource sourceNoMarker feeds
    exact later.inner operator member noMarker source inMiddle sourceNoMarker stillFeeds
  entered operator member noMarker kind :=
    (later.entered operator member noMarker kind).trans
      (earlier.entered operator (later.operators operator member) noMarker kind)
  passed output isOutput kind enters := by
    obtain ⟨between, isBetween, before⟩ := later.passed output isOutput kind enters
    exact earlier.passed between isBetween kind before
  written written := later.written (earlier.written written)

/-- The marker of a port stays what it was. -/
theorem Derives.marker?_eq (derives : result.Derives stage) (resultSound : result.Sound)
    (sound : stage.Sound) {port former : StagePort} (isPort : port ∈ result.ports)
    (same : former.marker = port.marker) : result.marker? port = stage.marker? former := by
  rw [marker?, marker?, derives.operator?_port resultSound sound isPort same]

/-- Where the wires into operators stay and inputs go only with their markers, operators are entered
through the same kinds of markers. -/
theorem Descends.enters_iff (descends : result.Descends stage) (resultSound : result.Sound)
    (sound : stage.Sound)
    (inputs : ∀ input ∈ stage.inputs, input.marker ∈ result.graph.operatorIds → input ∈ result.inputs)
    {target : OperatorId}
    (feeds : ∀ source, result.graph.Feeds source target ↔ stage.graph.Feeds source target)
    (kind : Option Marker) : result.Enters kind target ↔ stage.Enters kind target := by
  constructor
  · rintro ⟨input, isInput, rfl, isFed⟩
    obtain ⟨former, isFormer, place⟩ := descends.inputs input isInput
    have sameMarker : former.marker = input.marker := congrArg Prod.snd place
    refine ⟨former, isFormer, (descends.marker?_eq resultSound sound (List.mem_append_left _ isInput)
      sameMarker).symm, ?_⟩
    rw [sameMarker]
    exact (feeds _).1 isFed
  · rintro ⟨input, isInput, rfl, wasFed⟩
    have isFed := (feeds _).2 wasFed
    have stillInput := inputs input isInput (Graph.mem_operatorIds.2 isFed.operators.1)
    exact ⟨input, stillInput, descends.marker?_eq resultSound sound (List.mem_append_left _ stillInput) rfl,
      isFed⟩

/-- A stage whose operators keep their wires is fed as it was. -/
theorem Descends.fedLike (descends : result.Descends stage) (resultSound : result.Sound)
    (sound : stage.Sound)
    (inputs : ∀ input ∈ stage.inputs, input.marker ∈ result.graph.operatorIds → input ∈ result.inputs)
    (feeds : ∀ operator ∈ result.graph.operators, operator.isMarker = false → ∀ source,
      result.graph.Feeds source operator.id ↔ stage.graph.Feeds source operator.id)
    (outputs : ∀ output ∈ result.outputs, ∃ former ∈ stage.outputs, ∀ source,
      stage.graph.Feeds source former.marker → result.graph.Feeds source output.marker)
    (passed : ∀ output ∈ result.outputs, ∀ source, result.graph.Feeds source output.marker →
      ∃ former ∈ stage.outputs, stage.graph.Feeds source former.marker) : result.FedLike stage where
  toDescends := descends
  inner operator member noMarker source isSource _ wasFed := by
    have isFed := (feeds operator member noMarker source.id).2 wasFed
    obtain ⟨found, isFound, same⟩ := isFed.operators.1
    obtain rfl := sound.wellFormed.operator_unique (descends.operators found isFound) isSource same
    exact ⟨isFound, isFed⟩
  entered operator member noMarker :=
    descends.enters_iff resultSound sound inputs (feeds operator member noMarker)
  passed output isOutput kind := by
    rintro ⟨input, isInput, rfl, isFed⟩
    obtain ⟨former, isFormer, wasFed⟩ := passed output isOutput _ isFed
    obtain ⟨read, wasInput, place⟩ := descends.inputs input isInput
    have sameMarker : read.marker = input.marker := congrArg Prod.snd place
    exact ⟨former, isFormer, read, wasInput, (descends.marker?_eq resultSound sound
      (List.mem_append_left _ isInput) sameMarker).symm, sameMarker ▸ wasFed⟩
  written written output isOutput := by
    obtain ⟨former, isFormer, stays⟩ := outputs output isOutput
    obtain ⟨source, wasFed⟩ := written former isFormer
    exact ⟨source, stays source wasFed⟩

theorem Trims.fedLike (trims : result.Trims stage) (sound : stage.Sound) : result.FedLike stage := by
  have descends := trims.descends
  obtain ⟨stays, restricts, closed⟩ := trims
  have staying : ∀ id ∈ result.graph.operatorIds, stays id := by
    intro id isThere
    obtain ⟨operator, member, rfl⟩ := Graph.mem_operatorIds.1 isThere
    exact ((restricts.graph.operators operator).1 member).2
  have feeds : ∀ target, stays target → ∀ source,
      result.graph.Feeds source target ↔ stage.graph.Feeds source target := by
    intro target stay source
    rw [restricts.graph.feeds_iff]
    exact and_iff_left_of_imp fun wasFed => ⟨closed source target wasFed stay, stay⟩
  refine descends.fedLike (restricts.sound sound) sound (fun input isInput isThere => ?_)
    (fun operator member _ => feeds _ (staying _ (Graph.mem_operatorIds.2 ⟨operator, member, rfl⟩)))
    (fun output isOutput => ?_) fun output isOutput source isFed => ?_
  · exact (restricts.mem_inputs input).2 ⟨isInput, staying _ isThere⟩
  · obtain ⟨wasOutput, stay⟩ := (restricts.mem_outputs output).1 isOutput
    exact ⟨output, wasOutput, fun source wasFed => (feeds _ stay source).2 wasFed⟩
  · exact ⟨output, ((restricts.mem_outputs output).1 isOutput).1, (restricts.graph.feeds_iff.1 isFed).1⟩

section Merging

variable {kept absorbed : StagePort} (sound : stage.Sound)

include sound

/-- The output that is kept is fed by whatever fed either of the two. -/
theorem MergesOutputs.feeds_iff (merges : result.MergesOutputs stage kept absorbed)
    (isAbsorbed : absorbed ∈ stage.outputs) {source target : OperatorId} :
    result.graph.Feeds source target ↔ target ≠ absorbed.marker ∧
      (stage.graph.Feeds source target ∨
        target = kept.marker ∧ stage.graph.Feeds source absorbed.marker) := by
  constructor
  · rintro ⟨exit, entry, wired⟩
    obtain ⟨differ, was | ⟨atKept, was⟩⟩ := (merges.wired _ _).1 wired
    · exact ⟨differ, .inl ⟨exit, entry, was⟩⟩
    · exact ⟨differ, .inr ⟨congrArg Terminal.operator atKept, exit, 0, was⟩⟩
  · rintro ⟨differ, ⟨exit, entry, was⟩ | ⟨rfl, exit, entry, was⟩⟩
    · exact ⟨exit, entry, (merges.wired _ _).2 ⟨differ, .inl was⟩⟩
    · obtain rfl := sound.wired_input_index (List.mem_append_right _ isAbsorbed) was
      exact ⟨exit, 0, (merges.wired _ _).2 ⟨differ, .inr ⟨rfl, was⟩⟩⟩

/-- The input that is kept feeds whatever either of the two fed. -/
theorem MergesInputs.feeds_iff (merges : result.MergesInputs stage kept absorbed)
    (isAbsorbed : absorbed ∈ stage.inputs) {source target : OperatorId} :
    result.graph.Feeds source target ↔ source ≠ absorbed.marker ∧
      (stage.graph.Feeds source target ∨
        source = kept.marker ∧ stage.graph.Feeds absorbed.marker target) := by
  constructor
  · rintro ⟨exit, entry, wired⟩
    obtain ⟨differ, was | ⟨atKept, was⟩⟩ := (merges.wired _ _).1 wired
    · exact ⟨differ, .inl ⟨exit, entry, was⟩⟩
    · exact ⟨differ, .inr ⟨congrArg Terminal.operator atKept, 0, entry, was⟩⟩
  · rintro ⟨differ, ⟨exit, entry, was⟩ | ⟨rfl, exit, entry, was⟩⟩
    · exact ⟨exit, entry, (merges.wired _ _).2 ⟨differ, .inl was⟩⟩
    · obtain rfl := sound.wired_output_index (List.mem_append_left _ isAbsorbed) was
      exact ⟨0, entry, (merges.wired _ _).2 ⟨differ, .inr ⟨rfl, was⟩⟩⟩

variable (resultSound : result.Sound)

include resultSound

theorem MergesOutputs.fedLike (merges : result.MergesOutputs stage kept absorbed)
    (isKept : kept ∈ stage.outputs) (isAbsorbed : absorbed ∈ stage.outputs) : result.FedLike stage := by
  have keptPort := List.mem_append_right stage.inputs isKept
  have absorbedPort := List.mem_append_right stage.inputs isAbsorbed
  have others : ∀ operator ∈ result.graph.operators, operator.isMarker = false →
      ∀ port ∈ stage.ports, operator.id ≠ port.marker := fun operator member noMarker port isPort =>
    sound.proper.id_ne_marker ((merges.operators operator).1 member).1 noMarker isPort
  refine (merges.descends isKept).fedLike resultSound sound
    (fun input isInput _ => (merges.inputs input).2 isInput) (fun operator member noMarker source => ?_)
    (fun output isOutput => ?_) fun output isOutput source isFed => ?_
  · rw [merges.feeds_iff sound isAbsorbed, and_iff_right (others operator member noMarker _ absorbedPort)]
    exact or_iff_left fun both => others operator member noMarker _ keptPort both.1
  · rcases (merges.outputs output).1 isOutput with ⟨wasOutput, -, notAbsorbed⟩ | rfl
    · refine ⟨output, wasOutput, fun source wasFed =>
        (merges.feeds_iff sound isAbsorbed).2 ⟨fun same => notAbsorbed ?_, .inl wasFed⟩⟩
      exact sound.proper.port_unique_of_marker (List.mem_append_right _ wasOutput) absorbedPort same
    · refine ⟨kept, isKept, fun source wasFed =>
        (merges.feeds_iff sound isAbsorbed).2 ⟨fun same => ?_, .inl wasFed⟩⟩
      obtain ⟨operator, -, member, atPort, -⟩ :=
        resultSound.exists_operator (List.mem_append_right result.inputs isOutput)
      exact ((merges.operators operator).1 member).2 (atPort.trans same)
  · rcases ((merges.feeds_iff sound isAbsorbed).1 isFed).2 with wasFed | ⟨-, wasFed⟩
    · obtain ⟨former, isFormer, place⟩ := (merges.descends isKept).outputs output isOutput
      have sameMarker : former.marker = output.marker := congrArg Prod.snd place
      exact ⟨former, isFormer, sameMarker ▸ wasFed⟩
    · exact ⟨absorbed, isAbsorbed, wasFed⟩

section Inputs

variable (merges : result.MergesInputs stage kept absorbed) (isKept : kept ∈ stage.inputs)
  (isAbsorbed : absorbed ∈ stage.inputs)

include merges

omit sound in
theorem MergesInputs.marker_ne : kept.marker ≠ absorbed.marker := by
  have keptInput := (merges.inputs (kept.widened absorbed.origins)).2 (.inr rfl)
  obtain ⟨operator, -, member, atPort, -⟩ :=
    resultSound.exists_operator (List.mem_append_left result.outputs keptInput)
  exact fun together => ((merges.operators operator).1 member).2 (atPort.trans together)

include isKept isAbsorbed

/-- Where two inputs of one kind are merged, operators are entered through the same kinds. -/
theorem MergesInputs.enters_iff (same : stage.marker? kept = stage.marker? absorbed)
    {target : OperatorId} {kind : Option Marker} :
    result.Enters kind target ↔ stage.Enters kind target := by
  have descends := merges.descends isKept
  have keptStays := merges.marker_ne resultSound
  have keptInput := (merges.inputs (kept.widened absorbed.origins)).2 (.inr rfl)
  have stays : ∀ port former : StagePort, port ∈ result.inputs → former.marker = port.marker →
      result.marker? port = stage.marker? former := fun port former isInput =>
    descends.marker?_eq resultSound sound (List.mem_append_left _ isInput)
  constructor
  · rintro ⟨input, isInput, rfl, isFed⟩
    obtain ⟨former, isFormer, place⟩ := descends.inputs input isInput
    have sameMarker : former.marker = input.marker := congrArg Prod.snd place
    rcases ((merges.feeds_iff sound isAbsorbed).1 isFed).2 with wasFed | ⟨atKept, wasFed⟩
    · exact ⟨former, isFormer, (stays input former isInput sameMarker).symm, sameMarker ▸ wasFed⟩
    · exact ⟨absorbed, isAbsorbed, same.symm.trans (stays input kept isInput atKept.symm).symm, wasFed⟩
  · rintro ⟨input, isInput, rfl, wasFed⟩
    by_cases isGone : input = absorbed
    · rw [isGone] at wasFed ⊢
      exact ⟨_, keptInput, (stays _ kept keptInput rfl).trans same,
        (merges.feeds_iff sound isAbsorbed).2 ⟨keptStays, .inr ⟨rfl, wasFed⟩⟩⟩
    · have differ : input.marker ≠ absorbed.marker := fun together => isGone
        (sound.proper.port_unique_of_marker (List.mem_append_left _ isInput)
          (List.mem_append_left _ isAbsorbed) together)
      by_cases isKeptInput : input = kept
      · rw [isKeptInput] at wasFed ⊢
        exact ⟨_, keptInput, stays _ kept keptInput rfl,
          (merges.feeds_iff sound isAbsorbed).2 ⟨keptStays, .inl wasFed⟩⟩
      · have stillInput := (merges.inputs input).2 (.inl ⟨isInput, isKeptInput, isGone⟩)
        exact ⟨input, stillInput, stays input input stillInput rfl,
          (merges.feeds_iff sound isAbsorbed).2 ⟨differ, .inl wasFed⟩⟩

theorem MergesInputs.fedLike (same : stage.marker? kept = stage.marker? absorbed) :
    result.FedLike stage := by
  have entered : ∀ target kind, result.Enters kind target ↔ stage.Enters kind target :=
    fun _ _ => merges.enters_iff sound resultSound isKept isAbsorbed same
  refine ⟨merges.descends isKept, fun operator member noMarker source isSource sourceNoMarker wasFed => ?_,
    fun operator _ _ kind => entered operator.id kind,
    fun output isOutput kind enters => ⟨output, (merges.outputs output).1 isOutput, (entered _ kind).1 enters⟩,
    fun written output isOutput => ?_⟩
  · have differ := sound.proper.id_ne_marker isSource sourceNoMarker (List.mem_append_left _ isAbsorbed)
    exact ⟨(merges.operators source).2 ⟨isSource, differ⟩,
      (merges.feeds_iff sound isAbsorbed).2 ⟨differ, .inl wasFed⟩⟩
  · obtain ⟨source, wasFed⟩ := written output ((merges.outputs output).1 isOutput)
    by_cases isGone : source = absorbed.marker
    · exact ⟨kept.marker, (merges.feeds_iff sound isAbsorbed).2
        ⟨merges.marker_ne resultSound, .inr ⟨rfl, isGone ▸ wasFed⟩⟩⟩
    · exact ⟨source, (merges.feeds_iff sound isAbsorbed).2 ⟨isGone, .inl wasFed⟩⟩

end Inputs

end Merging

theorem TakesOver.fedLike {found : Stage} {output input : StagePort}
    (takesOver : result.TakesOver stage found output input) (sound : stage.Sound)
    (isOutput : output ∈ found.outputs) : result.FedLike stage := by
  have others : ∀ operator ∈ result.graph.operators, operator.isMarker = false → stage = found →
      operator.id ≠ output.marker := by
    intro operator member noMarker same
    exact sound.proper.id_ne_marker (takesOver.derives.operators operator member) noMarker
      (same ▸ List.mem_append_right _ isOutput)
  have idle : ∀ source target, stage.graph.Feeds source target → stage = found →
      source ≠ output.marker := by
    rintro source target wasFed same rfl
    exact sound.idle output (same ▸ isOutput) target wasFed
  refine takesOver.descends.fedLike takesOver.sound sound (fun port isInput _ => (takesOver.inputs port).2 isInput)
    (fun operator member noMarker source => ?_) (fun port isPort => ?_) fun port isPort source isFed => ?_
  · rw [takesOver.graph.feeds_iff]
    exact and_iff_left_of_imp fun wasFed => ⟨idle _ _ wasFed, others operator member noMarker⟩
  · obtain ⟨former, isFormer, stays, rfl⟩ := (takesOver.outputs port).1 isPort
    have place : (former.takingOver output input).marker = former.marker :=
      congrArg Prod.snd (former.place_takingOver output input)
    refine ⟨former, isFormer, fun source wasFed => place ▸ takesOver.graph.feeds_iff.2
      ⟨wasFed, idle _ _ wasFed, fun same atOutput => stays same ?_⟩⟩
    exact sound.proper.port_unique_of_marker (List.mem_append_right _ isFormer)
      (same ▸ List.mem_append_right _ isOutput) atOutput
  · obtain ⟨former, isFormer, -, rfl⟩ := (takesOver.outputs port).1 isPort
    have place : (former.takingOver output input).marker = former.marker :=
      congrArg Prod.snd (former.place_takingOver output input)
    exact ⟨former, isFormer, place ▸ (takesOver.graph.feeds_iff.1 isFed).1⟩

end Stage

namespace Plan

variable {plan middle result : Plan} {graph : Graph}

/-- Every stage of the first plan is what is left of a stage of the second one, and fed as it was. -/
def FedLike (result plan : Plan) : Prop :=
  ∀ new ∈ result.stages, ∃ old ∈ plan.stages, new.FedLike old

theorem FedLike.refl (plan : Plan) : plan.FedLike plan :=
  fun stage isStage => ⟨stage, isStage, .refl stage⟩

theorem FedLike.trans (later : result.FedLike middle) (earlier : middle.FedLike plan) :
    result.FedLike plan := by
  intro new isNew
  obtain ⟨between, isBetween, second⟩ := later new isNew
  obtain ⟨old, isOld, first⟩ := earlier between isBetween
  exact ⟨old, isOld, second.trans first⟩

/-- Steps of assembly leave stages that are fed as they were. -/
theorem Step.fedLike {equivalence : Equivalence} (step : Step equivalence plan result)
    (sound : plan.Sound) (agrees : plan.Agrees graph) : result.FedLike plan := by
  intro new isNew
  cases step with
  | trim trims =>
    obtain ⟨old, isOld, trimmed⟩ := trims.stages new isNew
    exact ⟨old, isOld, trimmed.fedLike (sound.stages old isOld)⟩
  | mergeOutputs _ isKept isAbsorbed _ _ _ changes =>
    obtain ⟨old, isOld, ⟨rfl, newSound, merges⟩ | ⟨-, rfl⟩⟩ := exists_partner changes isNew
    · exact ⟨old, isOld, merges.fedLike (sound.stages old isOld) newSound isKept isAbsorbed⟩
    · exact ⟨new, isOld, .refl new⟩
  | mergeInputs isStage isKept isAbsorbed differ equivalent _ changes =>
    obtain ⟨old, isOld, ⟨rfl, newSound, merges⟩ | ⟨-, rfl⟩⟩ := exists_partner changes isNew
    · have same := (sound.stages old isOld).exchange?_eq (agrees.identified old isOld)
        (List.mem_append_left _ isKept) (List.mem_append_left _ isAbsorbed) differ equivalent
      refine ⟨old, isOld, merges.fedLike (sound.stages old isOld) newSound isKept isAbsorbed ?_⟩
      rw [Stage.marker?_eq_exchange?, same, ← Stage.marker?_eq_exchange?]
    · exact ⟨new, isOld, .refl new⟩
  | dissolve isFound isOutput _ _ _ changes =>
    obtain ⟨old, isOld, takesOver⟩ := exists_partner changes isNew
    exact ⟨old, isOld, takesOver.fedLike (sound.stages old isOld) isOutput⟩

theorem fedLike_of_steps {equivalence : Equivalence} (sound : plan.Sound) (agrees : plan.Agrees graph)
    (steps : ReflTransGen (Step equivalence) plan result) : result.FedLike plan := by
  induction steps with
  | refl => exact .refl plan
  | tail before last ih =>
    have middleSound := sound_of_steps (fun _ _ sound step => step.sound sound) sound before
    exact (last.fedLike middleSound (agrees_of_steps sound agrees before)).trans ih

/-- Finishing changes nothing about what feeds operators. -/
theorem fedLike_of_finished (sound : plan.Sound) (same : result.stages.Perm plan.tidied.stages) :
    result.FedLike plan := by
  intro new isNew
  obtain ⟨old, isOld, rfl⟩ := List.mem_map.1 (same.mem_iff.1 isNew)
  refine ⟨old, isOld, ⟨derives_pruneProvenance (sound.stages old isOld),
    fun port isInput => ⟨port, isInput, rfl⟩, fun port isOutput => ⟨port, isOutput, rfl⟩⟩,
    fun _ _ _ _ member _ feeds => ⟨member, feeds⟩, fun _ _ _ _ => .rfl,
    fun output isOutput _ enters => ⟨output, isOutput, enters⟩, fun written => written⟩

end Plan

end StagePlanner
