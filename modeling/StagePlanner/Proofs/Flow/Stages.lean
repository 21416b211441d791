import StagePlanner.Proofs.Flow.Faithful

/-!
# What steps change within stages

What leaves through an operator of a stage stays what it was in every kind of step, so it is enough
to follow the wires and the origins that the step changes. `Stage.Keeps` says that copies get what
they got; beside it stands for each kind of step what the stage writes to the outputs that are
left.
-/

namespace StagePlanner

open Relation

namespace Graph

variable {left right : Graph}

/-- Graphs agree on an operator when both or neither have it. -/
theorem operator?_congr (leftWellFormed : left.WellFormed) (rightWellFormed : right.WellFormed)
    {id : OperatorId} (same : ∀ operator, operator.id = id →
      (operator ∈ left.operators ↔ operator ∈ right.operators)) :
    left.operator? id = right.operator? id := by
  refine Option.ext fun operator => ?_
  rw [leftWellFormed.operator?_eq_some_iff, rightWellFormed.operator?_eq_some_iff]
  exact and_congr_left (same operator)

theorem isMarker_congr {id : OperatorId} (same : left.operator? id = right.operator? id) :
    left.isMarker id = right.isMarker id := by
  rw [isMarker, isMarker, holds, holds, same]

end Graph

namespace Stage

variable {result stage : Stage} {graph : Graph}

/-- What leaves through an operator depends only on the operator and on the inputs that it is. -/
theorem emits_congr (provenance : result.provenance = stage.provenance) {output source : Terminal}
    (same : result.graph.operator? output.operator = stage.graph.operator? output.operator)
    (inputs : ∀ port, port.marker = output.operator → (port ∈ result.inputs ↔ port ∈ stage.inputs)) :
    result.Emits graph output source ↔ stage.Emits graph output source := by
  rw [Emits, Emits, provenance, Graph.isMarker_congr same]
  refine or_congr_right (exists_congr fun input => ?_)
  constructor
  · rintro ⟨isInput, atOutput, delivers⟩
    exact ⟨(inputs input atOutput).1 isInput, atOutput, delivers⟩
  · rintro ⟨isInput, atOutput, delivers⟩
    exact ⟨(inputs input atOutput).2 isInput, atOutput, delivers⟩

theorem marker?_congr {port : StagePort}
    (same : result.graph.operator? port.marker = stage.graph.operator? port.marker) :
    result.marker? port = stage.marker? port := by
  rw [marker?, operator?, same, marker?, operator?]

/-- Every operator of the first stage is one of the second stage, and what is no marker gets what it
got there. -/
structure Keeps (result stage : Stage) (graph : Graph) : Prop where
  provenance : ∀ pair ∈ result.provenance, pair ∈ stage.provenance
  operators : ∀ operator ∈ result.graph.operators, operator ∈ stage.graph.operators
  gets : ∀ operator ∈ result.graph.operators, operator.isMarker = false → ∀ index source,
    result.Gets graph ⟨operator.id, index⟩ source ↔ stage.Gets graph ⟨operator.id, index⟩ source

theorem Keeps.refl (stage : Stage) : stage.Keeps stage graph :=
  ⟨fun _ isPair => isPair, fun _ member => member, fun _ _ _ _ _ => .rfl⟩

/-! ### Restricted stages -/

section Restricted

variable {stays : OperatorId → Prop} (sound : stage.Sound)
  (restricts : result.graph.Restricts stage.graph stays)

include sound restricts

theorem operator?_of_restricts {id : OperatorId} (stay : stays id) :
    result.graph.operator? id = stage.graph.operator? id := by
  refine Graph.operator?_congr restricts.wellFormed sound.wellFormed fun operator same => ?_
  rw [restricts.operators]
  exact and_iff_left (same ▸ stay)

variable (provenance : result.provenance = stage.provenance)
  (inputs : ∀ port, port ∈ result.inputs ↔ port ∈ stage.inputs ∧ stays port.marker)
  (closed : ∀ source target, stage.graph.Feeds source target → stays target → stays source)

include provenance inputs closed

/-- An operator that stays with all that feeds it gets what it got. -/
theorem gets_of_restricts {target source : Terminal} (stay : stays target.operator) :
    result.Gets graph target source ↔ stage.Gets graph target source := by
  refine exists_congr fun output => ?_
  constructor
  · rintro ⟨wired, emits⟩
    obtain ⟨wired, outputStays, -⟩ := (restricts.wired _ _).1 wired
    refine ⟨wired, (emits_congr provenance (operator?_of_restricts sound restricts outputStays)
      fun port atOutput => ?_).1 emits⟩
    rw [inputs]
    exact and_iff_left (atOutput ▸ outputStays)
  · rintro ⟨wired, emits⟩
    have outputStays := closed _ _ wired.feeds stay
    refine ⟨(restricts.wired _ _).2 ⟨wired, outputStays, stay⟩, (emits_congr provenance
      (operator?_of_restricts sound restricts outputStays) fun port atOutput => ?_).2 emits⟩
    rw [inputs]
    exact and_iff_left (atOutput ▸ outputStays)

theorem keeps_of_restricts : result.Keeps stage graph where
  provenance _ isPair := provenance ▸ isPair
  operators operator member := ((restricts.operators operator).1 member).1
  gets operator member _ _ _ :=
    gets_of_restricts sound restricts provenance inputs closed ((restricts.operators operator).1 member).2

end Restricted

theorem Trims.keeps (trims : result.Trims stage) (sound : stage.Sound) : result.Keeps stage graph := by
  obtain ⟨stays, restricts, closed⟩ := trims
  exact keeps_of_restricts sound restricts.graph restricts.provenance restricts.mem_inputs closed

/-- An output of a trimmed stage is one of the stage, with the same marker, and what is written to
it is what was written. -/
theorem Trims.output (trims : result.Trims stage) (sound : stage.Sound) {output : StagePort}
    (isOutput : output ∈ result.outputs) :
    output ∈ stage.outputs ∧ result.marker? output = stage.marker? output ∧
      ∀ source, result.Writes graph output source ↔ stage.Writes graph output source := by
  obtain ⟨stays, restricts, closed⟩ := trims
  obtain ⟨old, stay⟩ := (restricts.mem_outputs output).1 isOutput
  refine ⟨old, marker?_congr (operator?_of_restricts sound restricts.graph stay), fun source => ?_⟩
  exact exists_congr fun _ => gets_of_restricts sound restricts.graph restricts.provenance
    restricts.mem_inputs closed stay

/-! ### Stages with merged outputs -/

section MergedOutputs

variable {kept absorbed : StagePort} (merges : result.MergesOutputs stage kept absorbed)
  (sound : stage.Sound) (resultSound : result.Sound)

include merges sound resultSound

theorem MergesOutputs.operator?_eq {id : OperatorId} (differ : id ≠ absorbed.marker) :
    result.graph.operator? id = stage.graph.operator? id := by
  refine Graph.operator?_congr resultSound.wellFormed sound.wellFormed fun operator same => ?_
  rw [merges.operators]
  exact and_iff_left (same ▸ differ)

variable (isAbsorbed : absorbed ∈ stage.outputs)

include isAbsorbed

theorem MergesOutputs.emits_iff {output target source : Terminal}
    (wired : stage.graph.Wired output target) :
    result.Emits graph output source ↔ stage.Emits graph output source := by
  have differ : output.operator ≠ absorbed.marker := fun same =>
    sound.idle absorbed isAbsorbed target.operator (same ▸ wired.feeds)
  exact emits_congr merges.provenance (merges.operator?_eq sound resultSound differ)
    fun port _ => merges.inputs port

/-- What is no output of the two gets what it got. -/
theorem MergesOutputs.gets_iff {target source : Terminal} (notKept : target.operator ≠ kept.marker)
    (notAbsorbed : target.operator ≠ absorbed.marker) :
    result.Gets graph target source ↔ stage.Gets graph target source := by
  refine exists_congr fun output => ?_
  rw [merges.wired]
  constructor
  · rintro ⟨⟨-, wired | ⟨rfl, -⟩⟩, emits⟩
    · exact ⟨wired, (merges.emits_iff sound resultSound isAbsorbed wired).1 emits⟩
    · exact absurd rfl notKept
  · rintro ⟨wired, emits⟩
    exact ⟨⟨notAbsorbed, .inl wired⟩, (merges.emits_iff sound resultSound isAbsorbed wired).2 emits⟩

variable (isKept : kept ∈ stage.outputs)

include isKept

/-- To another output the stage writes what it wrote. -/
theorem MergesOutputs.writes_iff {output : StagePort} (isOutput : output ∈ stage.outputs)
    (notKept : output ≠ kept) (notAbsorbed : output ≠ absorbed) {source : Terminal} :
    result.Writes graph output source ↔ stage.Writes graph output source := by
  have isPort := List.mem_append_right stage.inputs isOutput
  refine exists_congr fun _ => merges.gets_iff sound resultSound isAbsorbed (fun same => notKept ?_)
    fun same => notAbsorbed ?_
  · exact sound.proper.port_unique_of_marker isPort (List.mem_append_right _ isKept) same
  · exact sound.proper.port_unique_of_marker isPort (List.mem_append_right _ isAbsorbed) same

variable (differ : kept ≠ absorbed)

include differ

/-- To the output that is kept the stage writes what it wrote to either of the two. -/
theorem MergesOutputs.writes_kept_iff {source : Terminal} :
    result.Writes graph (kept.widened absorbed.origins) source ↔
      stage.Writes graph kept source ∨ stage.Writes graph absorbed source := by
  have markersDiffer : kept.marker ≠ absorbed.marker := fun same => differ
    (sound.proper.port_unique_of_marker (List.mem_append_right _ isKept) (List.mem_append_right _ isAbsorbed)
      same)
  have isThere : kept.widened absorbed.origins ∈ result.outputs := (merges.outputs _).2 (.inr rfl)
  rw [resultSound.writes_iff isThere, sound.writes_iff isKept, sound.writes_iff isAbsorbed]
  constructor
  · rintro ⟨output, wired, emits⟩
    rcases ((merges.wired _ _).1 wired).2 with old | ⟨-, old⟩
    · exact .inl ⟨output, old, (merges.emits_iff sound resultSound isAbsorbed old).1 emits⟩
    · exact .inr ⟨output, old, (merges.emits_iff sound resultSound isAbsorbed old).1 emits⟩
  · rintro (⟨output, old, emits⟩ | ⟨output, old, emits⟩)
    · exact ⟨output, (merges.wired _ _).2 ⟨markersDiffer, .inl old⟩,
        (merges.emits_iff sound resultSound isAbsorbed old).2 emits⟩
    · exact ⟨output, (merges.wired _ _).2 ⟨markersDiffer, .inr ⟨rfl, old⟩⟩,
        (merges.emits_iff sound resultSound isAbsorbed old).2 emits⟩

omit differ in
theorem MergesOutputs.keeps : result.Keeps stage graph where
  provenance _ isPair := merges.provenance ▸ isPair
  operators operator member := ((merges.operators operator).1 member).1
  gets operator member noMarker index source := by
    have isOld := ((merges.operators operator).1 member).1
    have noPort : ∀ port ∈ stage.outputs, operator.id ≠ port.marker := by
      intro port isOutput same
      have isMarker := sound.proper.isMarker_port (List.mem_append_right _ isOutput)
      rw [← same, Graph.isMarker, Graph.holds_id sound.wellFormed isOld, noMarker] at isMarker
      cases isMarker
    exact merges.gets_iff sound resultSound isAbsorbed (noPort kept isKept) (noPort absorbed isAbsorbed)

end MergedOutputs

/-! ### Stages with merged inputs -/

/-- What leaves through an input is what its origins collect. -/
theorem Sound.emits_input_iff (sound : stage.Sound) {input : StagePort} (isInput : input ∈ stage.inputs)
    {index : Nat} {source : Terminal} : stage.Emits graph ⟨input.marker, index⟩ source ↔
      ∃ origin ∈ input.origins, graph.Collects origin source := by
  constructor
  · rintro (⟨noMarker, -⟩ | ⟨other, isOther, same, delivers⟩)
    · rw [sound.proper.isMarker_port (List.mem_append_left _ isInput)] at noMarker
      cases noMarker
    · obtain rfl := sound.proper.port_unique_of_marker (List.mem_append_left _ isOther)
        (List.mem_append_left _ isInput) same
      exact delivers
  · exact fun delivers => .inr ⟨input, isInput, rfl, delivers⟩

section MergedInputs

variable {kept absorbed : StagePort} (merges : result.MergesInputs stage kept absorbed)
  (resultSound : result.Sound)
  (alike : ∀ source, (∃ origin ∈ kept.origins, graph.Collects origin source) ↔
    ∃ origin ∈ absorbed.origins, graph.Collects origin source)

include merges resultSound

theorem MergesInputs.operator?_eq (sound : stage.Sound) {id : OperatorId}
    (differ : id ≠ absorbed.marker) : result.graph.operator? id = stage.graph.operator? id := by
  refine Graph.operator?_congr resultSound.wellFormed sound.wellFormed fun operator same => ?_
  rw [merges.operators]
  exact and_iff_left (same ▸ differ)

include alike

/-- What leaves through the input that is kept is what left through either of the two. -/
theorem MergesInputs.emits_kept_iff {index : Nat} {source : Terminal} :
    result.Emits graph ⟨kept.marker, index⟩ source ↔
      ∃ origin ∈ kept.origins, graph.Collects origin source := by
  have isThere : kept.widened absorbed.origins ∈ result.inputs := (merges.inputs _).2 (.inr rfl)
  refine (resultSound.emits_input_iff isThere).trans ⟨?_, ?_⟩
  · rintro ⟨origin, isOrigin, collects⟩
    rcases OrderedSet.mem_union.1 isOrigin with inKept | inAbsorbed
    · exact ⟨origin, inKept, collects⟩
    · exact (alike source).2 ⟨origin, inAbsorbed, collects⟩
  · rintro ⟨origin, isOrigin, collects⟩
    exact ⟨origin, OrderedSet.mem_union.2 (.inl isOrigin), collects⟩

variable (sound : stage.Sound) (isKept : kept ∈ stage.inputs)

include sound isKept

theorem MergesInputs.emits_iff {output source : Terminal} (differ : output.operator ≠ absorbed.marker) :
    result.Emits graph output source ↔ stage.Emits graph output source := by
  by_cases atKept : output.operator = kept.marker
  · obtain ⟨operator, index⟩ := output
    obtain rfl : operator = kept.marker := atKept
    rw [merges.emits_kept_iff resultSound alike, sound.emits_input_iff isKept]
  · refine emits_congr merges.provenance (merges.operator?_eq resultSound sound differ)
      fun port atOutput => ?_
    rw [merges.inputs]
    constructor
    · rintro (⟨isInput, -⟩ | rfl)
      · exact isInput
      · exact absurd atOutput.symm atKept
    · exact fun isInput => .inl ⟨isInput, fun same => atKept (same ▸ atOutput.symm),
        fun same => differ (same ▸ atOutput.symm)⟩

variable (isAbsorbed : absorbed ∈ stage.inputs) (differ : kept ≠ absorbed)

include isAbsorbed differ

/-- Everything gets what it got. -/
theorem MergesInputs.gets_iff {target source : Terminal} :
    result.Gets graph target source ↔ stage.Gets graph target source := by
  have markersDiffer : kept.marker ≠ absorbed.marker := fun same => differ
    (sound.proper.port_unique_of_marker (List.mem_append_left _ isKept) (List.mem_append_left _ isAbsorbed)
      same)
  constructor
  · rintro ⟨output, wired, emits⟩
    obtain ⟨apart, old | ⟨rfl, old⟩⟩ := (merges.wired _ _).1 wired
    · exact ⟨output, old, (merges.emits_iff resultSound alike sound isKept apart).1 emits⟩
    · have delivers := (alike source).1 ((merges.emits_kept_iff resultSound alike).1 emits)
      exact ⟨_, old, (sound.emits_input_iff isAbsorbed).2 delivers⟩
  · rintro ⟨⟨operator, index⟩, wired, emits⟩
    by_cases atAbsorbed : operator = absorbed.marker
    · subst atAbsorbed
      obtain rfl := sound.wired_output_index (List.mem_append_left _ isAbsorbed) wired
      have delivers := (alike source).2 ((sound.emits_input_iff isAbsorbed).1 emits)
      exact ⟨⟨kept.marker, 0⟩, (merges.wired _ _).2 ⟨markersDiffer, .inr ⟨rfl, wired⟩⟩,
        (merges.emits_kept_iff resultSound alike).2 delivers⟩
    · exact ⟨_, (merges.wired _ _).2 ⟨atAbsorbed, .inl wired⟩,
        (merges.emits_iff resultSound alike sound isKept atAbsorbed).2 emits⟩

theorem MergesInputs.keeps : result.Keeps stage graph where
  provenance _ isPair := merges.provenance ▸ isPair
  operators operator member := ((merges.operators operator).1 member).1
  gets _ _ _ _ _ := merges.gets_iff resultSound alike sound isKept isAbsorbed differ

end MergedInputs

/-! ### Stages of which an output is dissolved -/

section TakingOver

variable {found : Stage} {output input : StagePort}
  (takesOver : result.TakesOver stage found output input) (sound : stage.Sound)
  (isOutput : stage = found → output ∈ stage.outputs)

include takesOver sound isOutput

theorem TakesOver.gets_iff {target source : Terminal}
    (stay : stage = found → target.operator ≠ output.marker) :
    result.Gets graph target source ↔ stage.Gets graph target source := by
  refine gets_of_restricts sound takesOver.graph takesOver.provenance (fun port => ?_) ?_ stay
  · rw [takesOver.inputs]
    exact (and_iff_left_of_imp fun isInput here => sound.proper.input_ne_output isInput (isOutput here)).symm
  · intro source target feeds _ here same
    exact sound.idle output (isOutput here) target (same ▸ feeds)

theorem TakesOver.keeps : result.Keeps stage graph where
  provenance _ isPair := takesOver.provenance ▸ isPair
  operators operator member := ((takesOver.graph.operators operator).1 member).1
  gets operator member _ _ _ :=
    takesOver.gets_iff sound isOutput ((takesOver.graph.operators operator).1 member).2

/-- What is written to an output that stays is what was written to it. -/
theorem TakesOver.writes_iff {former : StagePort} (isFormer : former ∈ stage.outputs)
    (stays : stage = found → former ≠ output) {source : Terminal} :
    result.Writes graph (former.takingOver output input) source ↔
      stage.Writes graph former source := by
  have same : (former.takingOver output input).marker = former.marker :=
    congrArg Prod.snd (former.place_takingOver output input)
  rw [Writes, same, Writes]
  refine exists_congr fun index => takesOver.gets_iff sound isOutput fun here atOutput => ?_
  exact stays here (sound.proper.port_unique_of_marker (List.mem_append_right _ isFormer)
    (List.mem_append_right _ (isOutput here)) atOutput)

end TakingOver

end Stage

end StagePlanner
