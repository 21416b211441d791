import StagePlanner.Plan.Assembly
import StagePlanner.Proofs.Stage.Realization
import StagePlanner.Proofs.Stage.Soundness

/-!
# Merged cuts

Stages are merged by forming the unions of what they contribute. `StageCut.Merges` says what the
union is, and the lemmas below it show that the union of independent cuts is sound and complete
again. Which wires into markers it carries depends on the whole union, not on single parts
(`Merges.carries_marker_iff`): a part may bring the producer and another one the marker.
-/

namespace StagePlanner

namespace StageCut

/-- The union of some cuts; its producers are those that feed outputs of the cuts in these. -/
structure Merges (merged : StageCut) (graph : Graph) (parts : List StageCut) : Prop where
  members : ∀ id, id ∈ merged.members ↔ ∃ part ∈ parts, id ∈ part.members
  producers : ∀ id, id ∈ merged.producers ↔ ∃ part ∈ parts, ∃ source target,
    part.Carries graph source target ∧ target.operator ∈ part.outputs ∧ source.operator = id
  inputs : ∀ id, id ∈ merged.inputs ↔ ∃ part ∈ parts, id ∈ part.inputs
  outputs : ∀ id, id ∈ merged.outputs ↔ ∃ part ∈ parts, id ∈ part.outputs

section Merging

variable {graph : Graph} {merged : StageCut} {parts : List StageCut}
  (merges : merged.Merges graph parts) (partsSound : ∀ part ∈ parts, part.Sound graph)
  (apart : ∀ reader ∈ parts, ∀ writer ∈ parts, ∀ id ∈ reader.inputs, id ∉ writer.outputs)
  (partsComplete : ∀ part ∈ parts, part.Complete graph)

include merges partsSound apart

theorem Merges.sound : merged.Sound graph where
  members id member := by
    obtain ⟨part, isPart, inPart⟩ := (merges.members id).1 member
    exact (partsSound part isPart).members id inPart
  inputs id isInput := by
    obtain ⟨part, isPart, inPart⟩ := (merges.inputs id).1 isInput
    obtain ⟨member, isMarker⟩ := (partsSound part isPart).inputs id inPart
    exact ⟨(merges.members id).2 ⟨part, isPart, member⟩, isMarker⟩
  outputs id isOutput := by
    obtain ⟨part, isPart, inPart⟩ := (merges.outputs id).1 isOutput
    obtain ⟨member, isMarker⟩ := (partsSound part isPart).outputs id inPart
    exact ⟨(merges.members id).2 ⟨part, isPart, member⟩, isMarker⟩
  apart id isInput isOutput := by
    obtain ⟨reader, isReader, inReader⟩ := (merges.inputs id).1 isInput
    obtain ⟨writer, isWriter, inWriter⟩ := (merges.outputs id).1 isOutput
    exact apart reader isReader writer isWriter id inReader inWriter

include partsComplete

/-- What feeds something in a part is no output of the union. -/
theorem Merges.not_output_of_carries {part : StageCut} (isPart : part ∈ parts)
    {source target : Terminal} (carries : part.Carries graph source target) :
    source.operator ∉ merged.outputs := by
  intro isOutput
  obtain ⟨writer, isWriter, inWriter⟩ := (merges.outputs _).1 isOutput
  have isMarker := ((partsSound writer isWriter).outputs _ inWriter).2
  have notWritten := (keeps_iff.1 carries.kept).2.1
  have read := ((partsComplete part isPart).markers _ carries.sourceMember isMarker).resolve_right notWritten
  exact apart part isPart writer isWriter _ read inWriter

/-- A wire into a marker is carried when the marker is an output of some part and some part brings
the source as a producer. -/
theorem Merges.carries_marker_iff {source target : Terminal}
    (isMarker : graph.isMarker target.operator = true) :
    merged.Carries graph source target ↔ graph.Wired source target ∧
      source.operator ∈ merged.producers ∧ target.operator ∈ merged.outputs := by
  have mergedSound := merges.sound partsSound apart
  constructor
  · rintro ⟨wired, -, targetMember, kept⟩
    obtain ⟨notInput, -, fed⟩ := keeps_iff.1 kept
    obtain ⟨part, isPart, inPart⟩ := (merges.members _).1 targetMember
    have isOutput : target.operator ∈ merged.outputs := by
      rcases (partsComplete part isPart).markers _ inPart isMarker with isInput | isOutput
      · exact absurd ((merges.inputs _).2 ⟨part, isPart, isInput⟩) notInput
      · exact (merges.outputs _).2 ⟨part, isPart, isOutput⟩
    exact ⟨wired, fed isOutput, isOutput⟩
  · rintro ⟨wired, isProducer, isOutput⟩
    obtain ⟨part, isPart, first, second, carries, -, same⟩ := (merges.producers _).1 isProducer
    have sourceMember : source.operator ∈ merged.members :=
      (merges.members _).2 ⟨part, isPart, same ▸ carries.sourceMember⟩
    have notOutput := merges.not_output_of_carries partsSound apart partsComplete isPart carries
    rw [same] at notOutput
    exact ⟨wired, sourceMember, (mergedSound.outputs _ isOutput).1, keeps_iff.2
      ⟨fun isInput => mergedSound.apart _ isInput isOutput, notOutput, fun _ => isProducer⟩⟩

/-- The union carries what its parts carry. -/
theorem Merges.carries_of_part {part : StageCut} (isPart : part ∈ parts) {source target : Terminal}
    (carries : part.Carries graph source target) : merged.Carries graph source target := by
  have mergedSound := merges.sound partsSound apart
  rcases graph.isMarker_eq_true_or target.operator with isMarker | noMarker
  · have notRead := (keeps_iff.1 carries.kept).1
    have isOutput := ((partsComplete part isPart).markers _ carries.targetMember isMarker).resolve_left
      notRead
    exact (merges.carries_marker_iff partsSound apart partsComplete isMarker).2 ⟨carries.wired,
      (merges.producers _).2 ⟨part, isPart, source, target, carries, isOutput, rfl⟩,
      (merges.outputs _).2 ⟨part, isPart, isOutput⟩⟩
  · refine ⟨carries.wired, (merges.members _).2 ⟨part, isPart, carries.sourceMember⟩,
      (merges.members _).2 ⟨part, isPart, carries.targetMember⟩, keeps_iff.2 ⟨fun isInput => ?_,
        merges.not_output_of_carries partsSound apart partsComplete isPart carries, fun isOutput => ?_⟩⟩
    · exact absurd (mergedSound.inputs _ isInput).2 (by simp [noMarker])
    · exact absurd (mergedSound.outputs _ isOutput).2 (by simp [noMarker])

theorem Merges.complete : merged.Complete graph where
  producers source target wired member noMarker := by
    obtain ⟨part, isPart, inPart⟩ := (merges.members _).1 member
    exact merges.carries_of_part partsSound apart partsComplete isPart
      ((partsComplete part isPart).producers source target wired inPart noMarker)
  markers id member isMarker := by
    obtain ⟨part, isPart, inPart⟩ := (merges.members id).1 member
    rcases (partsComplete part isPart).markers id inPart isMarker with isInput | isOutput
    · exact .inl ((merges.inputs id).2 ⟨part, isPart, isInput⟩)
    · exact .inr ((merges.outputs id).2 ⟨part, isPart, isOutput⟩)
  read id isInput := by
    obtain ⟨part, isPart, inPart⟩ := (merges.inputs id).1 isInput
    obtain ⟨index, target, carries⟩ := (partsComplete part isPart).read id inPart
    exact ⟨index, target, merges.carries_of_part partsSound apart partsComplete isPart carries⟩
  written id isOutput := by
    obtain ⟨part, isPart, inPart⟩ := (merges.outputs id).1 isOutput
    obtain ⟨source, index, carries⟩ := (partsComplete part isPart).written id inPart
    exact ⟨source, index, merges.carries_of_part partsSound apart partsComplete isPart carries⟩

end Merging

end StageCut

/-! ## What merging accepts

Groups of stages of any plan may be handed to `Plan.merged`. It adds one stage after the other and
refuses what is no cut of the graph, so that whatever it gives was built from sound cuts and is
proper (`proper_of_merged`), with markers like those of the graph (`ported_of_merged`). -/

namespace Plan

variable {primitive merged : Plan} {graph : Graph}

/-- A merged plan is built from sound cuts. -/
theorem exists_built_of_merged (wellFormed : graph.WellFormed) {groups : List (List StageId)}
    (isMerged : primitive.merged graph groups = .ok merged) :
    ∃ cuts, merged.Built graph cuts ∧ ∀ cut ∈ cuts, StageCut.Sound cut graph := by
  have keeps : ∀ (plan : Plan) (group : List StageId) (next : Plan),
      (primitive.mergedCut group >>= fun cut => plan.addStage graph cut) = .ok next →
      (∃ cuts, plan.Built graph cuts ∧ ∀ cut ∈ cuts, StageCut.Sound cut graph) →
      ∃ cuts, next.Built graph cuts ∧ ∀ cut ∈ cuts, StageCut.Sound cut graph := by
    rintro plan group next isNext ⟨cuts, built, sound⟩
    obtain ⟨cut, -, added⟩ := bind_eq_ok_iff.1 isNext
    have isSound := sound_of_addStage added
    obtain ⟨result, isResult, grown⟩ := built.exists_addStage wellFormed isSound
    obtain rfl := Except.ok.inj (isResult.symm.trans added)
    refine ⟨cuts ++ [cut], grown, fun other member => ?_⟩
    rcases List.mem_append.1 member with old | new
    · exact sound other old
    · exact List.mem_singleton.1 new ▸ isSound
  exact of_foldlM keeps isMerged ⟨[], .start, by simp⟩

/-- A merged plan is proper. -/
theorem proper_of_merged (wellFormed : graph.WellFormed) {groups : List (List StageId)}
    (isMerged : primitive.merged graph groups = .ok merged) : merged.Proper := by
  obtain ⟨cuts, built, sound⟩ := exists_built_of_merged wellFormed isMerged
  refine ⟨built.distinctStages, fun stage isStage => ?_⟩
  obtain ⟨cut, isCut, realizes⟩ := exists_partner_of_mem built.realized isStage
  exact realizes.stageProper wellFormed (sound cut isCut)
    ((List.nodup_flatMap.1 built.distinctPorts).1 stage isStage)

/-- Its markers have ports when those of the graph do. -/
theorem ported_of_merged (wellFormed : graph.WellFormed) {groups : List (List StageId)}
    (isMerged : primitive.merged graph groups = .ok merged) (ported : graph.PortedMarkers) :
    merged.PortedMarkers := by
  obtain ⟨cuts, built, -⟩ := exists_built_of_merged wellFormed isMerged
  intro stage isStage operator member isMarker
  obtain ⟨cut, -, realizes⟩ := exists_partner_of_mem built.realized isStage
  obtain ⟨original, isOriginal, same⟩ := realizes.exists_alike member
  have kinds := congrArg (fun blueprint => blueprint.kind.marker?.isSome) same
  obtain ⟨inputs, outputs⟩ := ported original isOriginal (kinds.symm.trans isMarker)
  have sameInputs := Operator.length_portsOn same .input
  have sameOutputs := Operator.length_portsOn same .output
  rw [← List.length_pos_iff] at inputs outputs ⊢
  rw [← List.length_pos_iff]
  exact ⟨sameInputs ▸ inputs, sameOutputs ▸ outputs⟩

end Plan

end StagePlanner
