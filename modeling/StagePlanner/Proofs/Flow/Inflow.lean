import StagePlanner.Proofs.Assembly.Delivery
import StagePlanner.Proofs.Assembly.Feeding
import StagePlanner.Proofs.Assembly.Integrity
import StagePlanner.Proofs.Flow.Assembly

/-!
# What feeds the outputs of stages

An output of a stage stands for markers of the graph. What feeds it in the stage are copies of
operators that feed one of these markers, and inputs that stand for a marker that does; and whatever
feeds a marker in the graph feeds some output that stands for it (`Plan.Conveys`). Only a checkpoint
behind a checkpoint may lose its output: then all outputs for the one stand for the other as well.
Steps of assembly keep this, for no output is dropped for which a marker on the way to an `END` is
among the origins (`Conveys.needs`).
-/

namespace StagePlanner

open Relation

namespace Stage

variable {result stage : Stage} {graph : Graph} {source : Terminal} {output : StagePort}
  {marker target : OperatorId}

/-- A copy of an output of the graph feeds an output of the stage. -/
def CopyFeeds (stage : Stage) (source : Terminal) (output : StagePort) : Prop :=
  ∃ pair ∈ stage.provenance, pair.source = source.operator ∧
    stage.graph.Wired ⟨pair.copy, source.index⟩ ⟨output.marker, 0⟩

instance (stage : Stage) (source : Terminal) (output : StagePort) :
    Decidable (stage.CopyFeeds source output) :=
  List.decidableBEx _ stage.provenance

/-- An input that stands for a marker feeds an operator of the stage. -/
def BringsIn (stage : Stage) (marker target : OperatorId) : Prop :=
  ∃ input ∈ stage.inputs, marker ∈ input.origins ∧ stage.graph.Feeds input.marker target

/-- The wires of a stage are wires of the graph between operators for which its own stand. -/
structure Traceable (stage : Stage) (graph : Graph) : Prop where
  /-- Every marker that feeds an operator is brought in for the copy of it. -/
  read : ∀ pair ∈ stage.provenance, pair.copy ∈ stage.graph.operatorIds →
    graph.isMarker pair.source = false → ∀ marker, graph.isMarker marker = true →
      graph.Feeds marker pair.source → stage.BringsIn marker pair.copy
  /-- A copy feeds outputs that stand for markers that its original feeds. -/
  written : ∀ output ∈ stage.outputs, ∀ source, graph.isMarker source.operator = false →
    stage.CopyFeeds source output → ∃ origin ∈ output.origins, graph.Wired source ⟨origin, 0⟩
  /-- An input feeds outputs that stand for a marker that one for which it stands feeds. -/
  forwarded : ∀ input ∈ stage.inputs, ∀ output ∈ stage.outputs,
    stage.graph.Feeds input.marker output.marker →
      ∃ marker ∈ input.origins, ∃ origin ∈ output.origins, graph.Feeds marker origin

/-- An output of the first stage stands for what an output of the second one stood for, and is fed by
what fed that one. -/
structure Inherits (result stage : Stage) (graph : Graph) (heir former : StagePort) : Prop where
  origins : ∀ origin ∈ former.origins, origin ∈ heir.origins
  copies : ∀ source, graph.isMarker source.operator = false → stage.CopyFeeds source former →
    result.CopyFeeds source heir
  inputs : ∀ marker, stage.BringsIn marker former.marker → result.BringsIn marker heir.marker

theorem Inherits.refl (stage : Stage) (output : StagePort) :
    stage.Inherits stage graph output output :=
  ⟨fun _ isOrigin => isOrigin, fun _ _ feeds => feeds, fun _ brings => brings⟩

/-- A copy is a marker when its original is one. -/
theorem Intact.isMarker_copy (intact : stage.Intact graph) (sound : stage.Sound)
    (wellFormed : graph.WellFormed) {pair : CopiedPair .operator} (isPair : pair ∈ stage.provenance)
    (isThere : pair.copy ∈ stage.graph.operatorIds) :
    stage.graph.isMarker pair.copy = graph.isMarker pair.source := by
  obtain ⟨operator, member, same⟩ := Graph.mem_operatorIds.1 isThere
  obtain ⟨original, isOriginal, sameSource, kind, -⟩ :=
    intact.alike operator member pair.source (same ▸ isPair)
  rw [← same, ← sameSource, Graph.isMarker, Graph.isMarker, Graph.holds_id sound.wellFormed member,
    Graph.holds_id wellFormed isOriginal, Operator.isMarker, Operator.isMarker, Operator.marker?,
    Operator.marker?, kind]

/-- What feeds an output as the copy of an operator that is no marker is no port. -/
theorem Intact.copy_ne_marker (intact : stage.Intact graph) (sound : stage.Sound)
    (wellFormed : graph.WellFormed) {pair : CopiedPair .operator} (isPair : pair ∈ stage.provenance)
    (isThere : pair.copy ∈ stage.graph.operatorIds) (noMarker : graph.isMarker pair.source = false)
    {port : StagePort} (isPort : port ∈ stage.ports) : pair.copy ≠ port.marker := by
  intro same
  have isMarker := intact.isMarker_copy sound wellFormed isPair isThere
  rw [same, sound.proper.isMarker_port isPort, noMarker] at isMarker
  cases isMarker

/-- An output inherits from a former one when every wire into that leads to it. -/
theorem Inherits.of_wires {heir former : StagePort} (sound : stage.Sound)
    (isFormer : former ∈ stage.outputs) (provenance : result.provenance = stage.provenance)
    (inputs : ∀ input ∈ stage.inputs, stage.graph.Feeds input.marker former.marker →
      input ∈ result.inputs)
    (origins : ∀ origin ∈ former.origins, origin ∈ heir.origins)
    (wires : ∀ source, stage.graph.Wired source ⟨former.marker, 0⟩ →
      result.graph.Wired source ⟨heir.marker, 0⟩) : result.Inherits stage graph heir former where
  origins := origins
  copies := by
    rintro source - ⟨pair, isPair, isSource, wired⟩
    exact ⟨pair, provenance ▸ isPair, isSource, wires _ wired⟩
  inputs := by
    rintro marker ⟨input, isInput, isOrigin, feeds⟩
    refine ⟨input, inputs input isInput feeds, isOrigin, ?_⟩
    obtain ⟨exit, entry, wired⟩ := feeds
    obtain rfl := sound.wired_input_index (List.mem_append_right _ isFormer) wired
    exact (wires _ wired).feeds

/-- A stage is traceable when what is left of another one that is, if every wire into an output led to
an output that stood for no more. -/
theorem Traceable.of_wires (traceable : stage.Traceable graph) (derives : result.Derives stage)
    (resultSound : result.Sound)
    (inputs : ∀ input ∈ result.inputs, input ∈ stage.inputs)
    (brings : ∀ marker target, target ∈ result.graph.operatorIds →
      (∀ output ∈ stage.outputs, target ≠ output.marker) → stage.BringsIn marker target →
        result.BringsIn marker target)
    (apart : ∀ pair ∈ stage.provenance, pair.copy ∈ stage.graph.operatorIds →
      graph.isMarker pair.source = false → ∀ output ∈ stage.outputs, pair.copy ≠ output.marker)
    (wires : ∀ output ∈ result.outputs, ∀ source, result.graph.Wired source ⟨output.marker, 0⟩ →
      ∃ former ∈ stage.outputs, (∀ origin ∈ former.origins, origin ∈ output.origins) ∧
        stage.graph.Wired source ⟨former.marker, 0⟩) : result.Traceable graph where
  read pair isPair isThere noMarker marker isMarker feeds := by
    have wasPair := derives.provenance pair isPair
    obtain ⟨operator, member, same⟩ := Graph.mem_operatorIds.1 isThere
    have wasThere := Graph.mem_operatorIds.2 ⟨operator, derives.operators operator member, same⟩
    exact brings marker pair.copy isThere (apart pair wasPair wasThere noMarker)
      (traceable.read pair wasPair wasThere noMarker marker isMarker feeds)
  written output isOutput source noMarker := by
    rintro ⟨pair, isPair, isSource, wired⟩
    obtain ⟨former, isFormer, origins, wasWired⟩ := wires output isOutput _ wired
    obtain ⟨origin, isOrigin, leads⟩ := traceable.written former isFormer source noMarker
      ⟨pair, derives.provenance pair isPair, isSource, wasWired⟩
    exact ⟨origin, origins origin isOrigin, leads⟩
  forwarded input isInput output isOutput := by
    rintro ⟨exit, entry, wired⟩
    obtain rfl := resultSound.wired_input_index (List.mem_append_right _ isOutput) wired
    obtain ⟨former, isFormer, origins, wasWired⟩ := wires output isOutput _ wired
    obtain ⟨marker, isMarker, origin, isOrigin, feeds⟩ := traceable.forwarded input
      (inputs input isInput) former isFormer wasWired.feeds
    exact ⟨marker, isMarker, origin, origins origin isOrigin, feeds⟩

/-! ### Trimming -/

theorem Trims.inherits (trims : result.Trims stage) (sound : stage.Sound)
    (isThere : output ∈ result.outputs) : result.Inherits stage graph output output := by
  obtain ⟨stays, restricts, closed⟩ := trims
  obtain ⟨wasOutput, stay⟩ := (restricts.mem_outputs output).1 isThere
  exact .of_wires sound wasOutput restricts.provenance
    (fun input isInput feeds => (restricts.mem_inputs input).2 ⟨isInput, closed _ _ feeds stay⟩)
    (fun _ isOrigin => isOrigin)
    fun source wired => (restricts.graph.wired _ _).2 ⟨wired, closed _ _ wired.feeds stay, stay⟩

theorem Trims.traceable (trims : result.Trims stage) (traceable : stage.Traceable graph)
    (intact : stage.Intact graph) (sound : stage.Sound) (wellFormed : graph.WellFormed) :
    result.Traceable graph := by
  obtain ⟨stays, restricts, closed⟩ := trims
  refine traceable.of_wires restricts.derives (restricts.sound sound)
    (fun input isInput => restricts.inputs.subset isInput) ?_
    (fun pair isPair isThere noMarker port isPort => intact.copy_ne_marker sound wellFormed isPair
      isThere noMarker (List.mem_append_right _ isPort))
    fun port isPort source wired => ⟨port, restricts.outputs.subset isPort, fun _ isOrigin => isOrigin,
      ((restricts.graph.wired _ _).1 wired).1⟩
  rintro marker target isThere - ⟨input, isInput, isOrigin, feeds⟩
  obtain ⟨operator, member, rfl⟩ := Graph.mem_operatorIds.1 isThere
  have targetStays := ((restricts.graph.operators operator).1 member).2
  have inputStays := closed _ _ feeds targetStays
  exact ⟨input, (restricts.mem_inputs input).2 ⟨isInput, inputStays⟩, isOrigin,
    restricts.graph.feeds_iff.2 ⟨feeds, inputStays, targetStays⟩⟩

/-! ### Merging outputs -/

section MergedOutputs

variable {kept absorbed : StagePort} (merges : result.MergesOutputs stage kept absorbed)
  (sound : stage.Sound) (resultSound : result.Sound) (isKept : kept ∈ stage.outputs)
  (isAbsorbed : absorbed ∈ stage.outputs)

include merges sound resultSound isKept isAbsorbed

/-- What fed an output feeds it still, or the output into which it was merged. -/
theorem MergesOutputs.exists_heir (isOutput : output ∈ stage.outputs) :
    ∃ heir ∈ result.outputs, result.Inherits stage graph heir output := by
  have isWidened := (merges.outputs (kept.widened absorbed.origins)).2 (.inr rfl)
  have differ : kept.marker ≠ absorbed.marker := by
    obtain ⟨operator, -, member, atPort, -⟩ :=
      resultSound.exists_operator (List.mem_append_right result.inputs isWidened)
    exact fun together => ((merges.operators operator).1 member).2 (atPort.trans together)
  have inputs : ∀ input ∈ stage.inputs, stage.graph.Feeds input.marker output.marker →
      input ∈ result.inputs := fun input isInput _ => (merges.inputs input).2 isInput
  by_cases atKept : output = kept
  · subst atKept
    exact ⟨_, isWidened, .of_wires sound isOutput merges.provenance inputs
      (fun origin isOrigin => OrderedSet.mem_union.2 (.inl isOrigin))
      fun source wired => (merges.wired _ _).2 ⟨differ, .inl wired⟩⟩
  by_cases atAbsorbed : output = absorbed
  · subst atAbsorbed
    exact ⟨_, isWidened, .of_wires sound isOutput merges.provenance inputs
      (fun origin isOrigin => OrderedSet.mem_union.2 (.inr isOrigin))
      fun source wired => (merges.wired _ _).2 ⟨differ, .inr ⟨rfl, wired⟩⟩⟩
  · refine ⟨output, (merges.outputs output).2 (.inl ⟨isOutput, atKept, atAbsorbed⟩),
      .of_wires sound isOutput merges.provenance inputs (fun _ isOrigin => isOrigin) fun source wired =>
        (merges.wired _ _).2 ⟨fun same => atAbsorbed ?_, .inl wired⟩⟩
    exact sound.proper.port_unique_of_marker (List.mem_append_right _ isOutput)
      (List.mem_append_right _ isAbsorbed) same

theorem MergesOutputs.traceable (traceable : stage.Traceable graph) (intact : stage.Intact graph)
    (wellFormed : graph.WellFormed) : result.Traceable graph := by
  refine traceable.of_wires merges.derives resultSound (fun input isInput => (merges.inputs input).1 isInput)
    ?_ (fun pair isPair isThere noMarker port isPort => intact.copy_ne_marker sound wellFormed isPair
      isThere noMarker (List.mem_append_right _ isPort)) fun port isPort source wired => ?_
  · rintro marker target - apart ⟨input, isInput, isOrigin, feeds⟩
    exact ⟨input, (merges.inputs input).2 isInput, isOrigin,
      (merges.feeds_iff sound isAbsorbed).2 ⟨apart absorbed isAbsorbed, .inl feeds⟩⟩
  · rcases (merges.outputs port).1 isPort with ⟨wasOutput, notKept, -⟩ | rfl
    · refine ⟨port, wasOutput, fun _ isOrigin => isOrigin, ((merges.wired _ _).1 wired).2.resolve_right ?_⟩
      rintro ⟨same, -⟩
      exact notKept (sound.proper.port_unique_of_marker (List.mem_append_right _ wasOutput)
        (List.mem_append_right _ isKept) (congrArg Terminal.operator same))
    · rcases ((merges.wired _ _).1 wired).2 with was | ⟨-, was⟩
      · exact ⟨kept, isKept, fun origin isOrigin => OrderedSet.mem_union.2 (.inl isOrigin), was⟩
      · exact ⟨absorbed, isAbsorbed, fun origin isOrigin => OrderedSet.mem_union.2 (.inr isOrigin), was⟩

end MergedOutputs

/-! ### Merging inputs -/

section MergedInputs

variable {kept absorbed : StagePort} (merges : result.MergesInputs stage kept absorbed)
  (sound : stage.Sound) (resultSound : result.Sound) (isKept : kept ∈ stage.inputs)
  (isAbsorbed : absorbed ∈ stage.inputs)

include merges sound resultSound isAbsorbed

/-- What an input brought in is brought in by it still, or by the input into which it was merged. -/
theorem MergesInputs.bringsIn (brings : stage.BringsIn marker target) :
    result.BringsIn marker target := by
  have isWidened := (merges.inputs (kept.widened absorbed.origins)).2 (.inr rfl)
  have differ := merges.marker_ne resultSound
  obtain ⟨input, isInput, isOrigin, feeds⟩ := brings
  by_cases atKept : input = kept
  · subst atKept
    exact ⟨_, isWidened, OrderedSet.mem_union.2 (.inl isOrigin),
      (merges.feeds_iff sound isAbsorbed).2 ⟨differ, .inl feeds⟩⟩
  by_cases atAbsorbed : input = absorbed
  · subst atAbsorbed
    exact ⟨_, isWidened, OrderedSet.mem_union.2 (.inr isOrigin),
      (merges.feeds_iff sound isAbsorbed).2 ⟨differ, .inr ⟨rfl, feeds⟩⟩⟩
  · refine ⟨input, (merges.inputs input).2 (.inl ⟨isInput, atKept, atAbsorbed⟩), isOrigin,
      (merges.feeds_iff sound isAbsorbed).2 ⟨fun same => atAbsorbed ?_, .inl feeds⟩⟩
    exact sound.proper.port_unique_of_marker (List.mem_append_left _ isInput)
      (List.mem_append_left _ isAbsorbed) same

variable (intact : stage.Intact graph) (wellFormed : graph.WellFormed)

include intact wellFormed

theorem MergesInputs.inherits (output : StagePort) : result.Inherits stage graph output output where
  origins _ isOrigin := isOrigin
  copies := by
    rintro source noMarker ⟨pair, isPair, isSource, wired⟩
    have isThere := Graph.mem_operatorIds.2 wired.feeds.operators.1
    refine ⟨pair, merges.provenance ▸ isPair, isSource, (merges.wired _ _).2 ⟨?_, .inl wired⟩⟩
    exact intact.copy_ne_marker sound wellFormed isPair isThere (isSource ▸ noMarker)
      (List.mem_append_left _ isAbsorbed)
  inputs _ := merges.bringsIn sound resultSound isAbsorbed

include isKept

theorem MergesInputs.traceable (traceable : stage.Traceable graph) : result.Traceable graph where
  read pair isPair isThere noMarker marker isMarker feeds := by
    obtain ⟨operator, member, same⟩ := Graph.mem_operatorIds.1 isThere
    have wasThere := Graph.mem_operatorIds.2 ⟨operator, merges.derives.operators operator member, same⟩
    exact merges.bringsIn sound resultSound isAbsorbed (traceable.read pair (merges.provenance ▸ isPair)
      wasThere noMarker marker isMarker feeds)
  written output isOutput source noMarker := by
    rintro ⟨pair, isPair, isSource, wired⟩
    have wasPair : pair ∈ stage.provenance := merges.provenance ▸ isPair
    obtain ⟨-, was | ⟨atKept, -⟩⟩ := (merges.wired _ _).1 wired
    · exact traceable.written output ((merges.outputs output).1 isOutput) source noMarker
        ⟨pair, wasPair, isSource, was⟩
    · obtain ⟨operator, member, same⟩ := wired.feeds.operators.1
      have wasThere := Graph.mem_operatorIds.2 ⟨operator, merges.derives.operators operator member, same⟩
      exact absurd (congrArg Terminal.operator atKept) (intact.copy_ne_marker sound wellFormed wasPair
        wasThere (isSource ▸ noMarker) (List.mem_append_left _ isKept))
  forwarded input isInput output isOutput feeds := by
    have wasOutput := (merges.outputs output).1 isOutput
    have former : ∃ port ∈ stage.inputs, (∀ origin ∈ port.origins, origin ∈ input.origins) ∧
        stage.graph.Feeds port.marker output.marker := by
      obtain ⟨-, was | ⟨atKept, was⟩⟩ := (merges.feeds_iff sound isAbsorbed).1 feeds
      · rcases (merges.inputs input).1 isInput with ⟨wasInput, -⟩ | rfl
        · exact ⟨input, wasInput, fun _ isOrigin => isOrigin, was⟩
        · exact ⟨kept, isKept, fun _ isOrigin => OrderedSet.mem_union.2 (.inl isOrigin), was⟩
      · obtain rfl := resultSound.proper.port_unique_of_marker (List.mem_append_left _ isInput)
          (List.mem_append_left _ ((merges.inputs (kept.widened absorbed.origins)).2 (.inr rfl))) atKept
        exact ⟨absorbed, isAbsorbed, fun _ isOrigin => OrderedSet.mem_union.2 (.inr isOrigin), was⟩
    obtain ⟨port, isPort, origins, was⟩ := former
    obtain ⟨marker, isMarker, leads⟩ := traceable.forwarded port isPort output wasOutput was
    exact ⟨marker, origins marker isMarker, leads⟩

end MergedInputs

/-! ### Dissolving -/

section TakingOver

variable {found : Stage} {input : StagePort} (takesOver : result.TakesOver stage found output input)
  (sound : stage.Sound) (isOutput : stage = found → output ∈ stage.outputs)

include takesOver sound isOutput

/-- An output that is not dissolved inherits from itself. -/
theorem TakesOver.inherits {former : StagePort} (isFormer : former ∈ stage.outputs)
    (stays : stage = found → former ≠ output) :
    result.Inherits stage graph (former.takingOver output input) former := by
  have sameMarker : (former.takingOver output input).marker = former.marker :=
    congrArg Prod.snd (former.place_takingOver output input)
  refine .of_wires sound isFormer takesOver.provenance
    (fun port isInput _ => (takesOver.inputs port).2 isInput)
    (fun origin isOrigin => StagePort.mem_origins_takingOver.2 (.inl isOrigin)) fun source wired => ?_
  rw [sameMarker]
  refine (takesOver.graph.wired _ _).2 ⟨wired, fun here same => ?_, fun here same => stays here ?_⟩
  · exact sound.idle output (isOutput here) former.marker (same ▸ wired.feeds)
  · exact sound.proper.port_unique_of_marker (List.mem_append_right _ isFormer)
      (List.mem_append_right _ (isOutput here)) same

theorem TakesOver.traceable (traceable : stage.Traceable graph) (intact : stage.Intact graph)
    (wellFormed : graph.WellFormed) : result.Traceable graph := by
  refine traceable.of_wires takesOver.derives takesOver.sound
    (fun port isInput => (takesOver.inputs port).1 isInput) ?_
    (fun pair isPair isThere noMarker port isPort => intact.copy_ne_marker sound wellFormed isPair
      isThere noMarker (List.mem_append_right _ isPort)) fun port isPort source wired => ?_
  · rintro marker target - apart ⟨port, isInput, isOrigin, feeds⟩
    exact ⟨port, (takesOver.inputs port).2 isInput, isOrigin, takesOver.graph.feeds_iff.2
      ⟨feeds, fun here => sound.proper.input_ne_output isInput (isOutput here),
        fun here => apart output (isOutput here)⟩⟩
  · obtain ⟨former, isFormer, -, rfl⟩ := (takesOver.outputs port).1 isPort
    have sameMarker : (former.takingOver output input).marker = former.marker :=
      congrArg Prod.snd (former.place_takingOver output input)
    rw [sameMarker] at wired
    exact ⟨former, isFormer, fun origin isOrigin => StagePort.mem_origins_takingOver.2 (.inl isOrigin),
      ((takesOver.graph.wired _ _).1 wired).1⟩

end TakingOver

/-! ### Finishing -/

theorem copyFeeds_pruneProvenance (sound : stage.Sound) :
    stage.pruneProvenance.CopyFeeds source output ↔ stage.CopyFeeds source output := by
  refine exists_congr fun pair => ?_
  rw [Plan.mem_pruneProvenance sound]
  constructor
  · rintro ⟨⟨isPair, -⟩, feeds⟩
    exact ⟨isPair, feeds⟩
  · rintro ⟨isPair, isSource, wired⟩
    exact ⟨⟨isPair, Graph.mem_operatorIds.2 (Graph.Wired.feeds wired).operators.1⟩, isSource, wired⟩

theorem Traceable.pruneProvenance (traceable : stage.Traceable graph) (sound : stage.Sound) :
    stage.pruneProvenance.Traceable graph where
  read pair isPair := traceable.read pair ((Plan.mem_pruneProvenance sound).1 isPair).1
  written output isOutput source noMarker feeds :=
    traceable.written output isOutput source noMarker ((copyFeeds_pruneProvenance sound).1 feeds)
  forwarded := traceable.forwarded

/-! ### Merged stages -/

/-- A copy of a marker that feeds something is an input that stands for the marker. -/
theorem Intact.exists_input (intact : stage.Intact graph) (sound : stage.Sound)
    (wellFormed : graph.WellFormed) {pair : CopiedPair .operator} (isPair : pair ∈ stage.provenance)
    (isMarker : graph.isMarker pair.source = true) (feeds : stage.graph.Feeds pair.copy target) :
    ∃ input ∈ stage.inputs, input.marker = pair.copy ∧ pair.source ∈ input.origins := by
  obtain ⟨operator, member, same⟩ := feeds.operators.1
  have copyIsMarker := intact.isMarker_copy sound wellFormed isPair
    (Graph.mem_operatorIds.2 ⟨operator, member, same⟩)
  rw [isMarker, ← same, Graph.isMarker, Graph.holds_id sound.wellFormed member] at copyIsMarker
  obtain ⟨port, isPort, portMarker⟩ := sound.port operator member copyIsMarker
  have atCopy := portMarker.trans same
  have isInput : port ∈ stage.inputs := (List.mem_append.1 isPort).resolve_right fun isOutput =>
    sound.idle port isOutput target (atCopy ▸ feeds)
  obtain ⟨origin, isOrigin, isCopy⟩ := intact.markers port isPort
  obtain rfl := List.inj_on_of_nodup_map intact.copies isCopy isPair atCopy
  exact ⟨port, isInput, atCopy, isOrigin⟩

/-- What a copy of a marker feeds is fed by an input that stands for the marker. -/
theorem Intact.bringsIn (intact : stage.Intact graph) (sound : stage.Sound)
    (wellFormed : graph.WellFormed) {pair : CopiedPair .operator} (isPair : pair ∈ stage.provenance)
    (isMarker : graph.isMarker pair.source = true) (feeds : stage.graph.Feeds pair.copy target) :
    stage.BringsIn pair.source target := by
  obtain ⟨input, isInput, atCopy, isOrigin⟩ := intact.exists_input sound wellFormed isPair isMarker feeds
  exact ⟨input, isInput, isOrigin, atCopy ▸ feeds⟩

/-- A stage that realizes a complete cut is traceable. -/
theorem Realizes.traceable {cut : StageCut} (realizes : stage.Realizes graph cut)
    (complete : cut.Complete graph) (sound : stage.Sound) (intact : stage.Intact graph)
    (wellFormed : graph.WellFormed) : stage.Traceable graph where
  read pair isPair _ noMarker marker isMarker := by
    rintro ⟨exit, entry, wired⟩
    have carries := complete.producers _ _ wired (realizes.source_mem isPair) noMarker
    obtain ⟨left, isLeft, right, isRight, leftSource, rightSource, copied⟩ :=
      realizes.copiesWire_iff.2 carries
    obtain rfl := realizes.pair_unique_of_source isRight isPair rightSource
    obtain rfl : left.source = marker := leftSource
    exact intact.bringsIn sound wellFormed isLeft isMarker copied.feeds
  written output isOutput source _ := by
    rintro ⟨pair, isPair, isSource, wired⟩
    obtain ⟨left, isLeft, right, isRight, leftCopy, rightCopy, carries⟩ := realizes.exists_original wired
    obtain ⟨origin, origins, isCopy⟩ := realizes.exists_origin (List.mem_append_right _ isOutput)
    obtain rfl := realizes.pair_unique_of_copy isLeft isPair leftCopy
    obtain rfl := realizes.pair_unique_of_copy isRight isCopy rightCopy
    refine ⟨origin, origins ▸ OrderedSet.mem_singleton.2 rfl, ?_⟩
    have leads := carries.wired
    rwa [isSource] at leads
  forwarded input isInput output isOutput := by
    rintro ⟨exit, entry, wired⟩
    obtain ⟨left, isLeft, right, isRight, leftCopy, rightCopy, carries⟩ := realizes.exists_original wired
    obtain ⟨marker, markers, isMarkerCopy⟩ := realizes.exists_origin (List.mem_append_left _ isInput)
    obtain ⟨origin, origins, isCopy⟩ := realizes.exists_origin (List.mem_append_right _ isOutput)
    obtain rfl := realizes.pair_unique_of_copy isLeft isMarkerCopy leftCopy
    obtain rfl := realizes.pair_unique_of_copy isRight isCopy rightCopy
    exact ⟨marker, markers ▸ OrderedSet.mem_singleton.2 rfl, origin,
      origins ▸ OrderedSet.mem_singleton.2 rfl, carries.wired.feeds⟩

end Stage

/-- Every operator of a graph leads to an END. -/
def Graph.LeadsToEnd (graph : Graph) : Prop :=
  ∀ id ∈ graph.operatorIds, ∃ finish, graph.isMarkerOf .finish finish = true ∧
    ReflTransGen graph.Feeds id finish

namespace Plan

variable {plan result : Plan} {graph : Graph}

/-- Every output that stands for the one marker stands for the other one too. -/
def Joins (plan : Plan) (marker origin : OperatorId) : Prop :=
  ∀ stage ∈ plan.stages, ∀ output ∈ stage.outputs, marker ∈ output.origins → origin ∈ output.origins

/-- What feeds a marker in the graph feeds an output that stands for it; only a checkpoint may instead
have gone into the outputs for a checkpoint that fed it. -/
structure Conveys (plan : Plan) (graph : Graph) : Prop where
  stages : ∀ stage ∈ plan.stages, stage.Traceable graph
  operators : ∀ source origin, graph.isMarker source.operator = false → graph.isMarker origin = true →
    graph.Wired source ⟨origin, 0⟩ →
      ∃ stage ∈ plan.stages, ∃ output ∈ stage.outputs, origin ∈ output.origins ∧
        stage.CopyFeeds source output
  markers : ∀ marker origin, graph.isMarker marker = true → graph.isMarker origin = true →
    graph.Feeds marker origin →
      (∃ stage ∈ plan.stages, ∃ output ∈ stage.outputs, origin ∈ output.origins ∧
        stage.BringsIn marker output.marker) ∨
      graph.isMarkerOf .checkpoint marker = true ∧ plan.Joins marker origin

/-- The markers for which a port stands are of its kind. -/
theorem Agrees.isMarkerOf_iff (agrees : plan.Agrees graph) {stage : Stage}
    (isStage : stage ∈ plan.stages) {port : StagePort} (isPort : port ∈ stage.ports)
    {origin : OperatorId} (isOrigin : origin ∈ port.origins) {kind : Marker} :
    graph.isMarkerOf kind origin = true ↔ stage.marker? port = some kind := by
  have same := agrees.ports stage isStage port isPort origin isOrigin
  rw [Stage.marker?_eq_exchange?, ← same, Graph.isMarkerOf, Graph.holds]
  cases graph.operator? origin with
  | none => simp
  | some operator => simp [Operator.isMarkerOf, Operator.exchange]

theorem Agrees.isMarker_origin (agrees : plan.Agrees graph) (sound : plan.Sound) {stage : Stage}
    (isStage : stage ∈ plan.stages) {port : StagePort} (isPort : port ∈ stage.ports)
    {origin : OperatorId} (isOrigin : origin ∈ port.origins) : graph.isMarker origin = true := by
  obtain ⟨operator, found, -, -, isMarker, -⟩ := (sound.stages stage isStage).exists_operator isPort
  obtain ⟨kind, isKind⟩ := Option.isSome_iff_exists.1 isMarker
  have known : stage.marker? port = some kind := Option.bind_eq_some_iff.2 ⟨operator, found, isKind⟩
  exact Graph.isMarker_of_isMarkerOf ((agrees.isMarkerOf_iff isStage isPort isOrigin).2 known)

/-- Where everything leads to an END, no output is written for nobody. -/
theorem Conveys.needs (conveys : plan.Conveys graph) (sound : plan.Sound)
    (circuitless : Circuitless plan.dependencies.Depends) (faithful : plan.Faithful graph)
    (agrees : plan.Agrees graph) {stage : Stage} (isStage : stage ∈ plan.stages) {output : StagePort}
    (isOutput : output ∈ stage.outputs) {origin finish : OperatorId} (isOrigin : origin ∈ output.origins)
    (isFinish : graph.isMarkerOf .finish finish = true) (way : ReflTransGen graph.Feeds origin finish) :
    plan.Needs stage output := by
  have isPort := List.mem_append_right stage.inputs isOutput
  induction way using ReflTransGen.head_induction_on with
  | refl => exact .inl ((agrees.isMarkerOf_iff isStage isPort isOrigin).1 isFinish)
  | @head origin next feeds rest ih =>
    have isMarker := agrees.isMarker_origin sound isStage isPort isOrigin
    rcases graph.isMarker_eq_true_or next with nextMarker | noMarker
    · rcases conveys.markers origin next isMarker nextMarker feeds with
        ⟨reader, isReader, other, -, -, input, isInput, alsoOrigin, -⟩ | ⟨-, joins⟩
      · exact .inr ⟨reader, isReader, input, isInput, origin, isOrigin, alsoOrigin⟩
      · exact ih (joins stage isStage output isOutput isOrigin)
    · obtain ⟨reader, isReader, pair, isPair, rfl, isThere⟩ :=
        (faithful.hasCopy_of_way sound circuitless isFinish rest).1 noMarker
      obtain ⟨input, isInput, alsoOrigin, -⟩ := (conveys.stages reader isReader).read pair isPair isThere
        noMarker origin isMarker feeds
      exact .inr ⟨reader, isReader, input, isInput, origin, isOrigin, alsoOrigin⟩

/-- What feeds markers is conveyed on if outputs that are left inherit from former ones, and what goes
went into the outputs for the checkpoint that fed it. -/
theorem Conveys.of_heirs (conveys : plan.Conveys graph)
    (stages : ∀ stage ∈ result.stages, stage.Traceable graph)
    (heirs : ∀ old ∈ plan.stages, ∀ former ∈ old.outputs,
      (∃ new ∈ result.stages, ∃ heir ∈ new.outputs, new.Inherits old graph heir former) ∨
      (∀ source, graph.isMarker source.operator = false → ¬ old.CopyFeeds source former) ∧
        ∀ marker, old.BringsIn marker former.marker → graph.isMarkerOf .checkpoint marker = true ∧
          ∀ origin ∈ former.origins, result.Joins marker origin)
    (origins : ∀ new ∈ result.stages, ∀ output ∈ new.outputs, ∀ marker ∈ output.origins,
      ∃ old ∈ plan.stages, ∃ former ∈ old.outputs, marker ∈ former.origins ∧
        ∀ origin ∈ former.origins, origin ∈ output.origins) : result.Conveys graph where
  stages := stages
  operators source origin noMarker isMarker wired := by
    obtain ⟨old, isOld, former, isFormer, isOrigin, feeds⟩ :=
      conveys.operators source origin noMarker isMarker wired
    rcases heirs old isOld former isFormer with ⟨new, isNew, heir, isHeir, inherits⟩ | ⟨unfed, -⟩
    · exact ⟨new, isNew, heir, isHeir, inherits.origins origin isOrigin,
        inherits.copies source noMarker feeds⟩
    · exact absurd feeds (unfed source noMarker)
  markers marker origin isMarker alsoMarker feeds := by
    rcases conveys.markers marker origin isMarker alsoMarker feeds with
      ⟨old, isOld, former, isFormer, isOrigin, brings⟩ | ⟨isCheckpoint, joins⟩
    · rcases heirs old isOld former isFormer with ⟨new, isNew, heir, isHeir, inherits⟩ | ⟨-, gone⟩
      · exact .inl ⟨new, isNew, heir, isHeir, inherits.origins origin isOrigin,
          inherits.inputs marker brings⟩
      · exact .inr ⟨(gone marker brings).1, (gone marker brings).2 origin isOrigin⟩
    · refine .inr ⟨isCheckpoint, fun new isNew output isOutput standsFor => ?_⟩
      obtain ⟨old, isOld, former, isFormer, inFormer, within⟩ :=
        origins new isNew output isOutput marker standsFor
      exact within origin (joins old isOld former isFormer inFormer)

section Steps

variable (conveys : plan.Conveys graph) (sound : plan.Sound) (intact : plan.Intact graph)
  (wellFormed : graph.WellFormed)

include conveys sound intact wellFormed

theorem Conveys.trim (circuitless : Circuitless plan.dependencies.Depends)
    (faithful : plan.Faithful graph) (agrees : plan.Agrees graph) (leadsToEnd : graph.LeadsToEnd)
    (trims : result.Trims plan plan.Needs) : result.Conveys graph := by
  have resultSound := trims.sound sound
  refine conveys.of_heirs (fun new isNew => ?_) (fun old isOld former isFormer => .inl ?_)
    fun new isNew output isOutput marker isOrigin => ?_
  · obtain ⟨old, isOld, trimmed⟩ := trims.stages new isNew
    exact trimmed.traceable (conveys.stages old isOld) (intact old isOld) (sound.stages old isOld) wellFormed
  · obtain ⟨origin, isOrigin, -⟩ := (intact old isOld).markers former (List.mem_append_right _ isFormer)
    obtain ⟨operator, member, same, -⟩ := (Graph.holds_iff wellFormed).1
      (agrees.isMarker_origin sound isOld (List.mem_append_right _ isFormer) isOrigin)
    obtain ⟨finish, isFinish, way⟩ := leadsToEnd origin (Graph.mem_operatorIds.2 ⟨operator, member, same⟩)
    obtain ⟨new, isNew, trimmed, isThere⟩ := trims.exists_trimmed sound.proper isOld isFormer
      (conveys.needs sound circuitless faithful agrees isOld isFormer isOrigin isFinish way)
    exact ⟨new, isNew, former, isThere, trimmed.inherits (sound.stages old isOld) isThere⟩
  · obtain ⟨old, isOld, stays, restricts, -⟩ := trims.stages new isNew
    exact ⟨old, isOld, output, restricts.outputs.subset isOutput, isOrigin, fun _ also => also⟩

theorem Conveys.mergeOutputs {stage : Stage} {kept absorbed : StagePort}
    (isStage : stage ∈ plan.stages) (isKept : kept ∈ stage.outputs)
    (isAbsorbed : absorbed ∈ stage.outputs)
    (changes : result.ChangesOnly plan stage fun merged =>
      merged.Sound ∧ merged.MergesOutputs stage kept absorbed) : result.Conveys graph := by
  have stageSound := sound.stages stage isStage
  refine conveys.of_heirs (fun new isNew => ?_) (fun old isOld former isFormer => .inl ?_)
    fun new isNew output isOutput marker isOrigin => ?_
  · obtain ⟨old, isOld, ⟨rfl, newSound, merges⟩ | ⟨-, rfl⟩⟩ := exists_partner changes isNew
    · exact merges.traceable stageSound newSound isKept isAbsorbed (conveys.stages old isOld)
        (intact old isOld) wellFormed
    · exact conveys.stages new isOld
  · obtain ⟨new, isNew, ⟨rfl, newSound, merges⟩ | ⟨-, rfl⟩⟩ := exists_partner_of_mem changes isOld
    · exact ⟨new, isNew, merges.exists_heir stageSound newSound isKept isAbsorbed isFormer⟩
    · exact ⟨new, isNew, former, isFormer, .refl new former⟩
  · obtain ⟨old, isOld, ⟨rfl, -, merges⟩ | ⟨-, rfl⟩⟩ := exists_partner changes isNew
    · rcases (merges.outputs output).1 isOutput with ⟨wasOutput, -⟩ | rfl
      · exact ⟨old, isOld, output, wasOutput, isOrigin, fun _ also => also⟩
      · rcases OrderedSet.mem_union.1 isOrigin with inKept | inAbsorbed
        · exact ⟨old, isOld, kept, isKept, inKept, fun _ also => OrderedSet.mem_union.2 (.inl also)⟩
        · exact ⟨old, isOld, absorbed, isAbsorbed, inAbsorbed,
            fun _ also => OrderedSet.mem_union.2 (.inr also)⟩
    · exact ⟨new, isOld, output, isOutput, isOrigin, fun _ also => also⟩

theorem Conveys.mergeInputs {stage : Stage} {kept absorbed : StagePort}
    (isStage : stage ∈ plan.stages) (isKept : kept ∈ stage.inputs) (isAbsorbed : absorbed ∈ stage.inputs)
    (changes : result.ChangesOnly plan stage fun merged =>
      merged.Sound ∧ merged.MergesInputs stage kept absorbed) : result.Conveys graph := by
  have stageSound := sound.stages stage isStage
  refine conveys.of_heirs (fun new isNew => ?_) (fun old isOld former isFormer => .inl ?_)
    fun new isNew output isOutput marker isOrigin => ?_
  · obtain ⟨old, isOld, ⟨rfl, newSound, merges⟩ | ⟨-, rfl⟩⟩ := exists_partner changes isNew
    · exact merges.traceable stageSound newSound isKept isAbsorbed (intact old isOld) wellFormed
        (conveys.stages old isOld)
    · exact conveys.stages new isOld
  · obtain ⟨new, isNew, ⟨rfl, newSound, merges⟩ | ⟨-, rfl⟩⟩ := exists_partner_of_mem changes isOld
    · exact ⟨new, isNew, former, (merges.outputs former).2 isFormer,
        merges.inherits stageSound newSound isAbsorbed (intact old isOld) wellFormed former⟩
    · exact ⟨new, isNew, former, isFormer, .refl new former⟩
  · obtain ⟨old, isOld, ⟨rfl, -, merges⟩ | ⟨-, rfl⟩⟩ := exists_partner changes isNew
    · exact ⟨old, isOld, output, (merges.outputs output).1 isOutput, isOrigin, fun _ also => also⟩
    · exact ⟨new, isOld, output, isOutput, isOrigin, fun _ also => also⟩

/-- Only the input feeds the output that is dissolved, and whoever writes for the input takes over. -/
theorem Conveys.dissolve (agrees : plan.Agrees graph) {found : Stage} {output input : StagePort}
    (isFound : found ∈ plan.stages) (isOutput : output ∈ found.outputs)
    (isInput : input ∈ found.inputs) (isCheckpoint : found.marker? input = some .checkpoint)
    (forwards : found.Forwards input output)
    (changes : List.Forall₂ (fun old new => new.TakesOver old found output input) plan.stages
      result.stages) : result.Conveys graph := by
  have foundSound := sound.stages found isFound
  refine conveys.of_heirs (fun new isNew => ?_) (fun old isOld former isFormer => ?_)
    fun new isNew port isPort marker isOrigin => ?_
  · obtain ⟨old, isOld, takesOver⟩ := exists_partner changes isNew
    exact takesOver.traceable (sound.stages old isOld) (fun here => here ▸ isOutput)
      (conveys.stages old isOld) (intact old isOld) wellFormed
  · by_cases dissolved : old = found ∧ former = output
    · obtain ⟨rfl, rfl⟩ := dissolved
      refine .inr ⟨?_, ?_⟩
      · rintro source noMarker ⟨pair, isPair, isSource, wired⟩
        exact (intact old isOld).copy_ne_marker foundSound wellFormed isPair
          (Graph.mem_operatorIds.2 wired.feeds.operators.1) (isSource ▸ noMarker)
          (List.mem_append_left _ isInput) (congrArg Terminal.operator ((forwards _).1 wired))
      · rintro marker ⟨port, isPort, isOrigin, exit, entry, wired⟩
        obtain rfl := foundSound.wired_input_index (List.mem_append_right _ isFormer) wired
        obtain rfl := foundSound.proper.port_unique_of_marker (List.mem_append_left _ isPort)
          (List.mem_append_left _ isInput) (congrArg Terminal.operator ((forwards _).1 wired))
        refine ⟨(agrees.isMarkerOf_iff isFound (List.mem_append_left _ isInput) isOrigin).2 isCheckpoint,
          fun origin also new isNew other isOther standsFor => ?_⟩
        obtain ⟨_, -, takesOver⟩ := exists_partner changes isNew
        obtain ⟨before, -, -, rfl⟩ := (takesOver.outputs other).1 isOther
        rcases StagePort.mem_origins_takingOver.1 standsFor with was | ⟨meets, -⟩
        · exact StagePort.mem_origins_takingOver.2 (.inr ⟨⟨marker, was, isOrigin⟩, also⟩)
        · exact StagePort.mem_origins_takingOver.2 (.inr ⟨meets, also⟩)
    · obtain ⟨new, isNew, takesOver⟩ := exists_partner_of_mem changes isOld
      have stays : old = found → former ≠ output := fun here same => dissolved ⟨here, same⟩
      exact .inl ⟨new, isNew, _, (takesOver.outputs _).2 ⟨former, isFormer, stays, rfl⟩,
        takesOver.inherits (sound.stages old isOld) (fun here => here ▸ isOutput) isFormer stays⟩
  · obtain ⟨old, isOld, takesOver⟩ := exists_partner changes isNew
    obtain ⟨former, isFormer, -, rfl⟩ := (takesOver.outputs port).1 isPort
    rcases StagePort.mem_origins_takingOver.1 isOrigin with was | ⟨meets, also⟩
    · exact ⟨old, isOld, former, isFormer, was,
        fun _ other => StagePort.mem_origins_takingOver.2 (.inl other)⟩
    · exact ⟨found, isFound, output, isOutput, also,
        fun _ other => StagePort.mem_origins_takingOver.2 (.inr ⟨meets, other⟩)⟩

end Steps

/-- Steps of assembly keep what feeds markers conveyed. -/
theorem Step.conveys {equivalence : Equivalence} (step : Step equivalence plan result)
    (sound : plan.Sound) (circuitless : Circuitless plan.dependencies.Depends)
    (faithful : plan.Faithful graph) (agrees : plan.Agrees graph) (intact : plan.Intact graph)
    (wellFormed : graph.WellFormed) (leadsToEnd : graph.LeadsToEnd) (conveys : plan.Conveys graph) :
    result.Conveys graph := by
  cases step with
  | trim trims => exact conveys.trim sound intact wellFormed circuitless faithful agrees leadsToEnd trims
  | mergeOutputs isStage isKept isAbsorbed _ _ _ changes =>
    exact conveys.mergeOutputs sound intact wellFormed isStage isKept isAbsorbed changes
  | mergeInputs isStage isKept isAbsorbed _ _ _ changes =>
    exact conveys.mergeInputs sound intact wellFormed isStage isKept isAbsorbed changes
  | dissolve isFound isOutput isInput areCheckpoints forwards changes =>
    exact conveys.dissolve sound intact wellFormed agrees isFound isOutput isInput areCheckpoints.2
      forwards changes

/-- So do all steps together. -/
theorem conveys_of_steps {equivalence : Equivalence} (sound : plan.Sound)
    (circuitless : Circuitless plan.dependencies.Depends) (faithful : plan.Faithful graph)
    (agrees : plan.Agrees graph) (intact : plan.Intact graph) (wellFormed : graph.WellFormed)
    (leadsToEnd : graph.LeadsToEnd) (conveys : plan.Conveys graph)
    (steps : ReflTransGen (Step equivalence) plan result) : result.Conveys graph := by
  induction steps with
  | refl => exact conveys
  | tail before last ih =>
    exact last.conveys (sound_of_steps (fun _ _ sound step => step.sound sound) sound before)
      (circuitless_of_steps circuitless before)
      (faithful_of_steps sound circuitless faithful before) (agrees_of_steps sound agrees before)
      (intact_of_steps sound intact before) wellFormed leadsToEnd ih

/-- Finishing changes nothing about what feeds markers. -/
theorem Conveys.of_finished (conveys : plan.Conveys graph) (sound : plan.Sound)
    (same : result.stages.Perm plan.tidied.stages) : result.Conveys graph := by
  refine conveys.of_heirs (fun new isNew => ?_) (fun old isOld former isFormer => .inl ?_)
    fun new isNew output isOutput marker isOrigin => ?_
  · obtain ⟨old, isOld, rfl⟩ := List.mem_map.1 (same.mem_iff.1 isNew)
    exact (conveys.stages old isOld).pruneProvenance (sound.stages old isOld)
  · exact ⟨old.pruneProvenance, same.mem_iff.2 (List.mem_map_of_mem isOld), former, isFormer,
      fun _ isOrigin => isOrigin,
      fun _ _ feeds => (Stage.copyFeeds_pruneProvenance (sound.stages old isOld)).2 feeds,
      fun _ brings => brings⟩
  · obtain ⟨old, isOld, rfl⟩ := List.mem_map.1 (same.mem_iff.1 isNew)
    exact ⟨old, isOld, output, isOutput, isOrigin, fun _ also => also⟩

end Plan

/-- In a merged plan whatever feeds a marker feeds an output that stands for it. -/
theorem Merging.conveys {graph : Graph} {primitive merged : Plan} {groups : List StageGroup}
    {level : OperatorId → Nat} {cuts mergedCuts : List StageCut}
    (merging : Merging graph primitive groups level cuts merged mergedCuts)
    (single : graph.SinglePortMarkers) : merged.Conveys graph where
  stages stage isStage := by
    obtain ⟨cut, isCut, realizes⟩ := exists_partner_of_mem merging.mergedPlan.built.realized isStage
    exact realizes.traceable (merging.mergedPlan.complete cut isCut)
      ((merging.planSound single).stages stage isStage) (merging.intact single stage isStage)
      merging.wellFormed
  operators source origin _ isMarker wired := merging.exists_deliversWire wired isMarker
  markers marker origin isMarker alsoMarker := by
    rintro ⟨exit, entry, wired⟩
    obtain ⟨stage, isStage, output, isOutput, isOrigin, pair, isPair, rfl, copied⟩ :=
      merging.exists_deliversWire wired alsoMarker
    exact .inl ⟨stage, isStage, output, isOutput, isOrigin, (merging.intact single stage isStage).bringsIn
      ((merging.planSound single).stages stage isStage) merging.wellFormed isPair isMarker copied.feeds⟩

end StagePlanner
