import StagePlanner.Proofs.Assembly.Schedule
import StagePlanner.Proofs.Flow.Stages

/-!
# Steps keep plans faithful

After every step the outputs that feed an input deliver what they delivered before: a merged output
writes what both wrote to inputs that read both or to which both wrote the same, a merged input is
fed by the same outputs as either of the two, and the outputs that take over from a dissolved one
write what it forwarded. The step that dissolves needs a plan without circuits, in which no output
takes over from itself.
-/

namespace StagePlanner

open Relation

/-! ### Equivalent ports -/

theorem Equivalence.serial_of_key {equivalence : Equivalence} {stage : Stage} {id : OperatorId}
    {serial : SerialNumber} (same : equivalence.key stage id = .serial serial) :
    ∃ operator, stage.graph.operator? id = some operator ∧ operator.serial = serial := by
  have noSerial : ∀ (operator : Operator) isOutput key, contentKey? operator isOutput = some key →
      key ≠ .serial serial := by
    rintro operator isOutput key found rfl
    rw [contentKey?] at found
    split at found
    · obtain ⟨_, -, wrong⟩ := Option.map_eq_some_iff.1 found
      cases wrong
    · split at found
      · obtain ⟨_, -, wrong⟩ := Option.map_eq_some_iff.1 found
        cases wrong
      · cases found
    · obtain ⟨_, -, wrong⟩ := Option.map_eq_some_iff.1 found
      cases wrong
    · cases found
  rw [Equivalence.key] at same
  split at same
  · cases same
  · next operator found =>
    refine ⟨operator, found, ?_⟩
    cases equivalence with
    | bySerial => exact EquivalenceKey.serial.inj same
    | byContent =>
      dsimp only at same
      split at same
      · cases content : contentKey? operator (stage.outputAt? id).isSome with
        | none => exact EquivalenceKey.serial.inj (by rwa [content] at same)
        | some key =>
          rw [content] at same
          exact absurd same (noSerial operator _ key content)
      · exact EquivalenceKey.serial.inj same

theorem Equivalence.key_of_finish {equivalence : Equivalence} {stage : Stage} {port : StagePort}
    (isFinish : stage.marker? port = some .finish) :
    ∃ operator, stage.graph.operator? port.marker = some operator ∧
      equivalence.key stage port.marker = .serial operator.serial := by
  obtain ⟨operator, found, kind⟩ := Option.bind_eq_some_iff.1 isFinish
  have found : stage.graph.operator? port.marker = some operator := found
  refine ⟨operator, found, ?_⟩
  have noContent : ∀ isOutput, contentKey? operator isOutput = none := by
    intro isOutput
    rw [contentKey?, kind]
  rw [Equivalence.key, found]
  cases equivalence with
  | bySerial => rfl
  | byContent => simp [noContent]

/-- An output that is an END marker is equivalent to no other one. -/
theorem Stage.Sound.not_finish_of_equivalent {stage : Stage} (sound : stage.Sound)
    (serials : (stage.graph.operators.map Operator.serial).Nodup) {equivalence : Equivalence}
    {left right : StagePort} (isLeft : left ∈ stage.ports) (isRight : right ∈ stage.ports)
    (differ : left ≠ right)
    (equivalent : equivalence.key stage left.marker = equivalence.key stage right.marker) :
    stage.marker? left ≠ some .finish := by
  intro isFinish
  obtain ⟨first, firstFound, key⟩ := Equivalence.key_of_finish isFinish
  obtain ⟨second, secondFound, same⟩ := Equivalence.serial_of_key (equivalent.symm.trans key)
  obtain ⟨isFirst, firstId⟩ := sound.wellFormed.operator?_eq_some_iff.1 firstFound
  obtain ⟨isSecond, secondId⟩ := sound.wellFormed.operator?_eq_some_iff.1 secondFound
  obtain rfl := List.inj_on_of_nodup_map serials isFirst isSecond same.symm
  exact differ (sound.proper.port_unique_of_marker isLeft isRight (firstId.symm.trans secondId))

namespace Plan

variable {plan result : Plan} {graph : Graph}

namespace Faithful

section Basics

variable (faithful : plan.Faithful graph)

include faithful

/-- What the origins of an input collect is what is delivered to it. -/
theorem collects_iff_delivers {stage : Stage} (isStage : stage ∈ plan.stages) {input : StagePort}
    (isInput : input ∈ stage.inputs) {source : Terminal} :
    (∃ origin ∈ input.origins, graph.Collects origin source) ↔ plan.Delivers graph input source := by
  constructor
  · rintro ⟨origin, isOrigin, collects⟩
    exact (faithful.inputs stage isStage input isInput origin isOrigin source).1 collects
  · intro delivers
    obtain ⟨-, -, -, -, ⟨origin, -, isOrigin⟩, -⟩ := id delivers
    exact ⟨origin, isOrigin,
      (faithful.inputs stage isStage input isInput origin isOrigin source).2 delivers⟩

/-- A plan whose stages keep what copies get is faithful when its inputs and ends are. -/
theorem of_keeps (resultSound : result.Sound)
    (keeps : ∀ new ∈ result.stages, ∃ old ∈ plan.stages, new.Keeps old graph)
    (inputs : ∀ stage ∈ result.stages, ∀ input ∈ stage.inputs, ∀ origin ∈ input.origins, ∀ source,
      graph.Collects origin source ↔ result.Delivers graph input source)
    (ends : ∀ old ∈ plan.stages, ∀ output ∈ old.outputs, old.marker? output = some .finish →
      ∃ stage ∈ result.stages, ∃ other ∈ stage.outputs, stage.marker? other = some .finish ∧
        (∀ origin ∈ output.origins, origin ∈ other.origins) ∧
        ∀ source, old.Writes graph output source → stage.Writes graph other source) :
    result.Faithful graph where
  inputs := inputs
  copies stage isStage operator member noMarker original isCopy index source := by
    obtain ⟨old, isOld, kept⟩ := keeps stage isStage
    rw [kept.gets operator member noMarker]
    exact faithful.copies old isOld operator (kept.operators operator member) noMarker original
      (kept.provenance _ isCopy) index source
  ends id isEnd source collects := by
    obtain ⟨old, isOld, output, isOutput, isFinish, isOrigin, writes⟩ :=
      faithful.ends id isEnd source collects
    obtain ⟨stage, isStage, other, isOther, stillFinish, origins, stillWrites⟩ :=
      ends old isOld output isOutput isFinish
    exact ⟨stage, isStage, other, isOther, stillFinish, origins id isOrigin,
      stillWrites source writes⟩
  kinds stage isStage operator member original isCopy := by
    obtain ⟨old, isOld, kept⟩ := keeps stage isStage
    exact faithful.kinds old isOld operator (kept.operators operator member) original
      (kept.provenance _ isCopy)
  serials stage isStage := by
    obtain ⟨old, isOld, kept⟩ := keeps stage isStage
    have distinct := (resultSound.stages stage isStage).wellFormed.nodup_operatorIds.of_map
    exact distinct.map_on fun left isLeft right isRight same =>
      List.inj_on_of_nodup_map (faithful.serials old isOld) (kept.operators left isLeft)
        (kept.operators right isRight) same

end Basics

/-! ### Trimming -/

theorem trim (faithful : plan.Faithful graph) (sound : plan.Sound)
    (trims : result.Trims plan plan.Needs) : result.Faithful graph := by
  refine faithful.of_keeps (trims.sound sound) (fun new isNew => ?_) ?_ ?_
  · obtain ⟨old, isOld, trimmed⟩ := trims.stages new isNew
    exact ⟨old, isOld, trimmed.keeps (sound.stages old isOld)⟩
  · intro stage isStage input isInput origin isOrigin source
    obtain ⟨old, isOld, stays, restricts, -⟩ := trims.stages stage isStage
    have wasInput := restricts.inputs.subset isInput
    rw [faithful.inputs old isOld input wasInput origin isOrigin]
    constructor
    · rintro ⟨producer, isProducer, output, isOutput, meets, writes⟩
      obtain ⟨new, isNew, trimmed, isThere⟩ := trims.exists_trimmed sound.proper isProducer isOutput
        (.inr ⟨old, isOld, input, wasInput, meets⟩)
      exact ⟨new, isNew, output, isThere, meets,
        ((trimmed.output (sound.stages producer isProducer) isThere).2.2 source).2 writes⟩
    · rintro ⟨new, isNew, output, isOutput, meets, writes⟩
      obtain ⟨producer, isProducer, trimmed⟩ := trims.stages new isNew
      obtain ⟨wasOutput, -, same⟩ := trimmed.output (sound.stages producer isProducer) isOutput
      exact ⟨producer, isProducer, output, wasOutput, meets, (same source).1 writes⟩
  · intro old isOld output isOutput isFinish
    obtain ⟨new, isNew, trimmed, isThere⟩ :=
      trims.exists_trimmed sound.proper isOld isOutput (.inl isFinish)
    obtain ⟨-, sameMarker, same⟩ := trimmed.output (sound.stages old isOld) isThere
    exact ⟨new, isNew, output, isThere, sameMarker.trans isFinish, fun _ => id,
      fun source => (same source).2⟩

/-! ### Merging outputs -/

/-- Whoever reads one of two outputs that may be merged reads one to which the stage writes what it
writes to either of them: both are read alike, or both are written alike. -/
theorem exists_reads_writes (sound : plan.Sound) {stage : Stage} {kept absorbed : StagePort}
    (isStage : stage ∈ plan.stages) (isKept : kept ∈ stage.outputs)
    (isAbsorbed : absorbed ∈ stage.outputs)
    (same : stage.SameFeeders kept absorbed ∨ plan.SameConsumers kept absorbed)
    {reader : Stage} (isReader : reader ∈ plan.stages) {input : StagePort}
    (isInput : input ∈ reader.inputs) {source : Terminal}
    (meets : kept.Meets input ∨ absorbed.Meets input)
    (writes : stage.Writes graph kept source ∨ stage.Writes graph absorbed source) :
    kept.Meets input ∧ stage.Writes graph kept source ∨
      absorbed.Meets input ∧ stage.Writes graph absorbed source := by
  have stageSound := sound.stages stage isStage
  rcases same with feeders | consumers
  · have alike : stage.Writes graph kept source ↔ stage.Writes graph absorbed source := by
      rw [stageSound.writes_iff isKept, stageSound.writes_iff isAbsorbed]
      exact exists_congr fun start => and_congr_left fun _ => feeders start
    exact meets.imp (fun reads => ⟨reads, writes.elim id alike.2⟩)
      fun reads => ⟨reads, writes.elim alike.1 id⟩
  · have alike := consumers reader isReader input isInput
    exact writes.imp (fun written => ⟨meets.elim id alike.2, written⟩)
      fun written => ⟨meets.elim alike.1 id, written⟩

/-- What is merged into an output that is kept is delivered as before. -/
theorem delivers_of_mergeOutputs (sound : plan.Sound) {stage : Stage} {kept absorbed : StagePort}
    (isStage : stage ∈ plan.stages) (isKept : kept ∈ stage.outputs)
    (isAbsorbed : absorbed ∈ stage.outputs) (differ : kept ≠ absorbed)
    (same : stage.SameFeeders kept absorbed ∨ plan.SameConsumers kept absorbed)
    (changes : result.ChangesOnly plan stage fun merged =>
      merged.Sound ∧ merged.MergesOutputs stage kept absorbed)
    {reader : Stage} (isReader : reader ∈ plan.stages) {input : StagePort}
    (isInput : input ∈ reader.inputs) {source : Terminal} :
    result.Delivers graph input source ↔ plan.Delivers graph input source := by
  have stageSound := sound.stages stage isStage
  constructor
  · rintro ⟨new, isNew, output, isOutput, meets, writes⟩
    obtain ⟨old, isOld, ⟨-, newSound, merges⟩ | ⟨-, rfl⟩⟩ := exists_partner changes isNew
    · rcases (merges.outputs output).1 isOutput with ⟨isThere, notKept, notAbsorbed⟩ | rfl
      · refine ⟨stage, isStage, output, isThere, meets, ?_⟩
        exact (merges.writes_iff stageSound newSound isAbsorbed isKept isThere notKept notAbsorbed).1 writes
      · have written :=
          (merges.writes_kept_iff stageSound newSound isAbsorbed isKept differ).1 writes
        rcases exists_reads_writes sound isStage isKept isAbsorbed same isReader isInput
          (StagePort.widened_meets.1 meets) written with ⟨reads, wrote⟩ | ⟨reads, wrote⟩
        · exact ⟨stage, isStage, kept, isKept, reads, wrote⟩
        · exact ⟨stage, isStage, absorbed, isAbsorbed, reads, wrote⟩
    · exact ⟨new, isOld, output, isOutput, meets, writes⟩
  · rintro ⟨producer, isProducer, output, isOutput, meets, writes⟩
    obtain ⟨new, isNew, ⟨rfl, newSound, merges⟩ | ⟨-, rfl⟩⟩ := exists_partner_of_mem changes isProducer
    · have written : new.Writes graph (kept.widened absorbed.origins) source ↔ _ :=
        merges.writes_kept_iff stageSound newSound isAbsorbed isKept differ
      by_cases atKept : output = kept
      · subst atKept
        exact ⟨new, isNew, _, (merges.outputs _).2 (.inr rfl), StagePort.widened_meets.2 (.inl meets),
          written.2 (.inl writes)⟩
      by_cases atAbsorbed : output = absorbed
      · subst atAbsorbed
        exact ⟨new, isNew, _, (merges.outputs _).2 (.inr rfl), StagePort.widened_meets.2 (.inr meets),
          written.2 (.inr writes)⟩
      · refine ⟨new, isNew, output, (merges.outputs output).2 (.inl ⟨isOutput, atKept, atAbsorbed⟩),
          meets, ?_⟩
        exact (merges.writes_iff stageSound newSound isAbsorbed isKept isOutput atKept atAbsorbed).2 writes
    · exact ⟨new, isNew, output, isOutput, meets, writes⟩

theorem mergeOutputs (faithful : plan.Faithful graph) (sound : plan.Sound) (resultSound : result.Sound)
    {equivalence : Equivalence} {stage : Stage} {kept absorbed : StagePort}
    (isStage : stage ∈ plan.stages) (isKept : kept ∈ stage.outputs)
    (isAbsorbed : absorbed ∈ stage.outputs) (differ : kept ≠ absorbed)
    (equivalent : equivalence.key stage kept.marker = equivalence.key stage absorbed.marker)
    (same : stage.SameFeeders kept absorbed ∨ plan.SameConsumers kept absorbed)
    (changes : result.ChangesOnly plan stage fun merged =>
      merged.Sound ∧ merged.MergesOutputs stage kept absorbed) : result.Faithful graph := by
  have stageSound := sound.stages stage isStage
  refine faithful.of_keeps resultSound (fun new isNew => ?_) ?_ ?_
  · obtain ⟨old, isOld, ⟨-, newSound, merges⟩ | ⟨-, rfl⟩⟩ := exists_partner changes isNew
    · exact ⟨stage, isStage, merges.keeps stageSound newSound isAbsorbed isKept⟩
    · exact ⟨new, isOld, .refl new⟩
  · intro new isNew input isInput origin isOrigin source
    obtain ⟨reader, isReader, wasInput⟩ : ∃ reader ∈ plan.stages, input ∈ reader.inputs := by
      obtain ⟨old, isOld, ⟨-, -, merges⟩ | ⟨-, rfl⟩⟩ := exists_partner changes isNew
      · exact ⟨stage, isStage, (merges.inputs input).1 isInput⟩
      · exact ⟨new, isOld, isInput⟩
    rw [delivers_of_mergeOutputs sound isStage isKept isAbsorbed differ same changes isReader wasInput]
    exact faithful.inputs reader isReader input wasInput origin isOrigin source
  · intro old isOld output isOutput isFinish
    obtain ⟨new, isNew, ⟨rfl, newSound, merges⟩ | ⟨-, rfl⟩⟩ := exists_partner_of_mem changes isOld
    · have keptPort := List.mem_append_right old.inputs isKept
      have absorbedPort := List.mem_append_right old.inputs isAbsorbed
      have serials := faithful.serials old isOld
      have notKept : output ≠ kept := fun equal => stageSound.not_finish_of_equivalent serials keptPort
        absorbedPort differ equivalent (equal ▸ isFinish)
      have notAbsorbed : output ≠ absorbed := fun equal => stageSound.not_finish_of_equivalent serials
        absorbedPort keptPort differ.symm equivalent.symm (equal ▸ isFinish)
      refine ⟨new, isNew, output, (merges.outputs output).2 (.inl ⟨isOutput, notKept, notAbsorbed⟩), ?_,
        fun _ => id, fun source => (merges.writes_iff stageSound newSound isAbsorbed isKept isOutput notKept
          notAbsorbed).2⟩
      refine (Stage.marker?_congr (merges.operator?_eq stageSound newSound fun equal => ?_)).trans isFinish
      exact notAbsorbed (stageSound.proper.port_unique_of_marker (List.mem_append_right _ isOutput)
        absorbedPort equal)
    · exact ⟨new, isNew, output, isOutput, isFinish, fun _ => id, fun _ => id⟩

/-! ### Merging inputs -/

/-- What is delivered to two inputs that the same outputs feed is the same. -/
theorem delivers_of_sameProducers {kept absorbed : StagePort} (same : plan.SameProducers kept absorbed)
    {source : Terminal} : plan.Delivers graph kept source ↔ plan.Delivers graph absorbed source := by
  constructor
  · rintro ⟨producer, isProducer, output, isOutput, meets, writes⟩
    exact ⟨producer, isProducer, output, isOutput,
      (same producer isProducer output isOutput).1 meets, writes⟩
  · rintro ⟨producer, isProducer, output, isOutput, meets, writes⟩
    exact ⟨producer, isProducer, output, isOutput,
      (same producer isProducer output isOutput).2 meets, writes⟩

/-- Widening an input by what the same outputs feed delivers no more to it. -/
theorem delivers_widened_iff {kept absorbed : StagePort} (same : plan.SameProducers kept absorbed)
    {source : Terminal} : plan.Delivers graph (kept.widened absorbed.origins) source ↔
      plan.Delivers graph kept source := by
  refine exists_congr fun producer => and_congr_right fun isProducer => exists_congr fun output =>
    and_congr_right fun isOutput => and_congr_left fun _ => ?_
  exact ⟨fun meets => (same.meets_both isProducer isOutput meets).1,
    fun meets => (StagePort.widened_meets.2 (.inl meets.symm)).symm⟩

/-- Merging inputs that collect the same leaves what stages write. -/
theorem delivers_of_mergeInputs (sound : plan.Sound) {stage : Stage} {kept absorbed : StagePort}
    (isStage : stage ∈ plan.stages) (isKept : kept ∈ stage.inputs) (isAbsorbed : absorbed ∈ stage.inputs)
    (differ : kept ≠ absorbed)
    (alike : ∀ source, (∃ origin ∈ kept.origins, graph.Collects origin source) ↔
      ∃ origin ∈ absorbed.origins, graph.Collects origin source)
    (changes : result.ChangesOnly plan stage fun merged =>
      merged.Sound ∧ merged.MergesInputs stage kept absorbed) {input : StagePort} {source : Terminal} :
    result.Delivers graph input source ↔ plan.Delivers graph input source := by
  have stageSound := sound.stages stage isStage
  constructor
  · rintro ⟨new, isNew, output, isOutput, meets, index, gets⟩
    obtain ⟨old, isOld, ⟨-, newSound, merges⟩ | ⟨-, rfl⟩⟩ := exists_partner changes isNew
    · exact ⟨stage, isStage, output, (merges.outputs output).1 isOutput, meets, index,
        (merges.gets_iff newSound alike stageSound isKept isAbsorbed differ).1 gets⟩
    · exact ⟨new, isOld, output, isOutput, meets, index, gets⟩
  · rintro ⟨producer, isProducer, output, isOutput, meets, index, gets⟩
    obtain ⟨new, isNew, ⟨rfl, newSound, merges⟩ | ⟨-, rfl⟩⟩ := exists_partner_of_mem changes isProducer
    · exact ⟨new, isNew, output, (merges.outputs output).2 isOutput, meets, index,
        (merges.gets_iff newSound alike stageSound isKept isAbsorbed differ).2 gets⟩
    · exact ⟨new, isNew, output, isOutput, meets, index, gets⟩

theorem mergeInputs (faithful : plan.Faithful graph) (sound : plan.Sound) (resultSound : result.Sound)
    {stage : Stage} {kept absorbed : StagePort} (isStage : stage ∈ plan.stages)
    (isKept : kept ∈ stage.inputs) (isAbsorbed : absorbed ∈ stage.inputs) (differ : kept ≠ absorbed)
    (same : plan.SameProducers kept absorbed)
    (changes : result.ChangesOnly plan stage fun merged =>
      merged.Sound ∧ merged.MergesInputs stage kept absorbed) : result.Faithful graph := by
  have stageSound := sound.stages stage isStage
  have alike : ∀ source, (∃ origin ∈ kept.origins, graph.Collects origin source) ↔
      ∃ origin ∈ absorbed.origins, graph.Collects origin source := by
    intro source
    rw [faithful.collects_iff_delivers isStage isKept, faithful.collects_iff_delivers isStage isAbsorbed]
    exact delivers_of_sameProducers same
  refine faithful.of_keeps resultSound (fun new isNew => ?_) ?_ ?_
  · obtain ⟨old, isOld, ⟨-, newSound, merges⟩ | ⟨-, rfl⟩⟩ := exists_partner changes isNew
    · exact ⟨stage, isStage, merges.keeps newSound alike stageSound isKept isAbsorbed differ⟩
    · exact ⟨new, isOld, .refl new⟩
  · intro new isNew input isInput origin isOrigin source
    rw [delivers_of_mergeInputs sound isStage isKept isAbsorbed differ alike changes]
    obtain ⟨old, isOld, ⟨-, -, merges⟩ | ⟨-, rfl⟩⟩ := exists_partner changes isNew
    · rcases (merges.inputs input).1 isInput with ⟨wasInput, -⟩ | rfl
      · exact faithful.inputs stage isStage input wasInput origin isOrigin source
      · rw [delivers_widened_iff same]
        rcases OrderedSet.mem_union.1 isOrigin with inKept | inAbsorbed
        · exact faithful.inputs stage isStage kept isKept origin inKept source
        · exact (faithful.inputs stage isStage absorbed isAbsorbed origin inAbsorbed source).trans
            (delivers_of_sameProducers same).symm
    · exact faithful.inputs new isOld input isInput origin isOrigin source
  · intro old isOld output isOutput isFinish
    obtain ⟨new, isNew, ⟨rfl, newSound, merges⟩ | ⟨-, rfl⟩⟩ := exists_partner_of_mem changes isOld
    · have notAbsorbed := stageSound.proper.input_ne_output isAbsorbed isOutput
      refine ⟨new, isNew, output, (merges.outputs output).2 isOutput, ?_, fun _ => id, ?_⟩
      · exact (Stage.marker?_congr (merges.operator?_eq newSound stageSound notAbsorbed.symm)).trans isFinish
      · rintro source ⟨index, gets⟩
        exact ⟨index, (merges.gets_iff newSound alike stageSound isKept isAbsorbed differ).2 gets⟩
    · exact ⟨new, isNew, output, isOutput, isFinish, fun _ => id, fun _ => id⟩

/-! ### Dissolving -/

/-- An output that stays in place takes over what it is to and still writes the same. -/
theorem exists_takingOver (sound : plan.Sound) {found : Stage} {output input : StagePort}
    (isOutput : output ∈ found.outputs)
    (changes : List.Forall₂ (fun old new => new.TakesOver old found output input) plan.stages
      result.stages) {old : Stage} (isOld : old ∈ plan.stages) {former : StagePort}
    (isFormer : former ∈ old.outputs) (stays : old = found → former ≠ output) :
    ∃ new ∈ result.stages, former.takingOver output input ∈ new.outputs ∧
      new.marker? (former.takingOver output input) = old.marker? former ∧
      ∀ source, new.Writes graph (former.takingOver output input) source ↔
        old.Writes graph former source := by
  have oldSound := sound.stages old isOld
  obtain ⟨new, isNew, takesOver⟩ := exists_partner_of_mem changes isOld
  refine ⟨new, isNew, (takesOver.outputs _).2 ⟨former, isFormer, stays, rfl⟩, ?_,
    fun source => takesOver.writes_iff oldSound (fun same => same ▸ isOutput) isFormer stays⟩
  have sameMarker : (former.takingOver output input).marker = former.marker :=
    congrArg Prod.snd (former.place_takingOver output input)
  rw [Stage.marker?, Stage.operator?, sameMarker]
  refine Stage.marker?_congr (Stage.operator?_of_restricts oldSound takesOver.graph fun here same => ?_)
  exact stays here (oldSound.proper.port_unique_of_marker (List.mem_append_right _ isFormer)
    (List.mem_append_right _ (here ▸ isOutput)) same)

/-- What is delivered stays the same when the outputs behind an output take over from it. -/
theorem delivers_of_dissolve (faithful : plan.Faithful graph) (sound : plan.Sound)
    (circuitless : Circuitless plan.dependencies.Depends) {found : Stage} {output input : StagePort}
    (isFound : found ∈ plan.stages) (isOutput : output ∈ found.outputs)
    (isInput : input ∈ found.inputs) (forwards : found.Forwards input output)
    (changes : List.Forall₂ (fun old new => new.TakesOver old found output input) plan.stages
      result.stages) {read : StagePort} {source : Terminal} :
    result.Delivers graph read source ↔ plan.Delivers graph read source := by
  have foundSound := sound.stages found isFound
  have forwarded : found.Writes graph output source ↔ plan.Delivers graph input source := by
    rw [foundSound.writes_iff isOutput, ← faithful.collects_iff_delivers isFound isInput,
      ← foundSound.emits_input_iff isInput]
    constructor
    · rintro ⟨start, wired, emits⟩
      rwa [(forwards start).1 wired] at emits
    · exact fun emits => ⟨⟨input.marker, 0⟩, (forwards _).2 rfl, emits⟩
  constructor
  · rintro ⟨new, isNew, port, isPort, ⟨origin, inPort, inRead⟩, writes⟩
    obtain ⟨old, isOld, takesOver⟩ := exists_partner changes isNew
    obtain ⟨former, isFormer, stays, rfl⟩ := (takesOver.outputs port).1 isPort
    have wrote := (takesOver.writes_iff (sound.stages old isOld) (fun same => same ▸ isOutput) isFormer
      stays).1 writes
    rcases StagePort.mem_origins_takingOver.1 inPort with inFormer | ⟨meets, inOutput⟩
    · exact ⟨old, isOld, former, isFormer, ⟨origin, inFormer, inRead⟩, wrote⟩
    · exact ⟨found, isFound, output, isOutput, ⟨origin, inOutput, inRead⟩,
        forwarded.2 ⟨old, isOld, former, isFormer, meets, wrote⟩⟩
  · rintro ⟨producer, isProducer, port, isPort, ⟨origin, inPort, inRead⟩, writes⟩
    by_cases dissolved : producer = found ∧ port = output
    · obtain ⟨rfl, rfl⟩ := dissolved
      obtain ⟨old, isOld, former, isFormer, meets, wrote⟩ := forwarded.1 writes
      -- An output cannot take over from itself, for its stage would depend on itself.
      have stays : old = producer → former ≠ port := by
        rintro rfl -
        exact circuitless _ (.single (depends_of_links isOld isFound
          ⟨former, isFormer, input, isInput, meets⟩))
      obtain ⟨new, isNew, isThere, -, same⟩ :=
        exists_takingOver sound isOutput changes isOld isFormer stays
      exact ⟨new, isNew, _, isThere, ⟨origin, StagePort.mem_origins_takingOver.2 (.inr ⟨meets, inPort⟩),
        inRead⟩, (same source).2 wrote⟩
    · obtain ⟨new, isNew, isThere, -, same⟩ := exists_takingOver sound isOutput changes isProducer isPort
        fun here equal => dissolved ⟨here, equal⟩
      exact ⟨new, isNew, _, isThere, ⟨origin, StagePort.mem_origins_takingOver.2 (.inl inPort), inRead⟩,
        (same source).2 writes⟩

theorem dissolve (faithful : plan.Faithful graph) (sound : plan.Sound) (resultSound : result.Sound)
    (circuitless : Circuitless plan.dependencies.Depends) {found : Stage} {output input : StagePort}
    (isFound : found ∈ plan.stages) (isOutput : output ∈ found.outputs)
    (isInput : input ∈ found.inputs) (isCheckpoint : found.marker? output = some .checkpoint)
    (forwards : found.Forwards input output)
    (changes : List.Forall₂ (fun old new => new.TakesOver old found output input) plan.stages
      result.stages) : result.Faithful graph := by
  refine faithful.of_keeps resultSound (fun new isNew => ?_) ?_ ?_
  · obtain ⟨old, isOld, takesOver⟩ := exists_partner changes isNew
    exact ⟨old, isOld, takesOver.keeps (sound.stages old isOld) fun same => same ▸ isOutput⟩
  · intro new isNew read isRead origin isOrigin source
    obtain ⟨old, isOld, takesOver⟩ := exists_partner changes isNew
    rw [delivers_of_dissolve faithful sound circuitless isFound isOutput isInput forwards changes]
    exact faithful.inputs old isOld read ((takesOver.inputs read).1 isRead) origin isOrigin source
  · intro old isOld former isFormer isFinish
    have stays : old = found → former ≠ output := by
      rintro rfl rfl
      rw [isCheckpoint] at isFinish
      cases isFinish
    obtain ⟨new, isNew, isThere, sameMarker, same⟩ :=
      exists_takingOver sound isOutput changes isOld isFormer stays
    exact ⟨new, isNew, _, isThere, sameMarker.trans isFinish,
      fun _ isOrigin => StagePort.mem_origins_takingOver.2 (.inl isOrigin), fun source => (same source).2⟩

end Faithful

/-- Steps keep sound plans without circuits faithful. -/
theorem Step.faithful {equivalence : Equivalence} (step : Step equivalence plan result)
    (sound : plan.Sound) (circuitless : Circuitless plan.dependencies.Depends)
    (faithful : plan.Faithful graph) : result.Faithful graph := by
  have resultSound := step.sound sound
  cases step with
  | trim trims => exact faithful.trim sound trims
  | mergeOutputs isStage isKept isAbsorbed differ equivalent same changes =>
    exact faithful.mergeOutputs sound resultSound isStage isKept isAbsorbed differ equivalent same changes
  | mergeInputs isStage isKept isAbsorbed differ _ same changes =>
    exact faithful.mergeInputs sound resultSound isStage isKept isAbsorbed differ same changes
  | dissolve isFound isOutput isInput areCheckpoints forwards changes =>
    exact faithful.dissolve sound resultSound circuitless isFound isOutput isInput areCheckpoints.1
      forwards changes

/-- So do all steps of assembly together. -/
theorem faithful_of_steps {equivalence : Equivalence} (sound : plan.Sound)
    (circuitless : Circuitless plan.dependencies.Depends) (faithful : plan.Faithful graph)
    (steps : ReflTransGen (Step equivalence) plan result) : result.Faithful graph := by
  induction steps with
  | refl => exact faithful
  | tail before last ih =>
    exact last.faithful (sound_of_steps (fun _ _ sound step => step.sound sound) sound before)
      (circuitless_of_steps circuitless before) ih

end Plan

end StagePlanner
