import StagePlanner.Plan.Draft
import StagePlanner.Proofs.Arena.Copying
import StagePlanner.Proofs.Stage.Realization

/-!
# Stages added to drafts

Adding a stage to a draft asks all its questions about the graph first and changes the draft only after
the last answer. At an arena that holds a graph, a cut that is not sound leaves the draft as it was
(`Drafting.apply_addStage_of_unsound`), and a sound one adds the stage that realizes it, under the next
identifiers (`Drafting.exists_apply_addStage`). So a draft that holds a plan holds the plan with the new
stage afterwards, however many cuts are added (`Draft.Represents.addStages`).
-/

namespace StagePlanner

open Std (ExtTreeMap)

namespace Drafting

variable {α β : Type} {arena : Arena} {graph : Graph} {cut : StageCut}

/-! ### Questions -/

/-- Whatever the draft is, the outcome is the same and the draft stays as it is. -/
def Answers (drafting : Drafting α) (outcome : Except Fault α) : Prop :=
  ∀ draft, drafting.apply draft = (outcome, draft)

theorem Answers.pure (value : α) : Answers (Pure.pure value) (.ok value) := fun _ => rfl

theorem Answers.bind {drafting : Drafting α} {outcome : Except Fault α} {next : α → Drafting β}
    {later : α → Except Fault β} (first : Answers drafting outcome)
    (rest : ∀ value, outcome = .ok value → Answers (next value) (later value)) :
    Answers (drafting >>= next) (outcome >>= later) := by
  intro draft
  cases outcome with
  | error fault => exact run_run_bind_of_error (first draft)
  | ok value => exact (run_run_bind_of_ok (first draft)).trans (rest value rfl draft)

theorem Answers.forM {ι : Type} {items : List ι} {drafting : ι → Drafting PUnit}
    {outcome : ι → Except Fault PUnit} (each : ∀ item, Answers (drafting item) (outcome item)) :
    Answers (items.forM drafting) (items.forM outcome) := by
  induction items with
  | nil => exact .pure _
  | cons item rest ih => exact (each item).bind fun _ _ => ih

theorem answers_checkPort (represents : arena.Represents graph) (port : OperatorId) :
    Answers (checkPort arena cut port) (cut.checkPort graph port) := by
  rw [checkPort, StageCut.checkPort]
  by_cases member : port ∈ cut.members
  · rw [if_neg (not_not.2 member), if_neg (not_not.2 member), represents.operator_eq, Graph.operator]
    cases graph.operator? port with
    | none => exact fun _ => rfl
    | some operator =>
      show Answers
        (if (!operator.isMarker) = true then throw (.plan (.notMemberMarker port)) else pure ())
        (if operator.isMarker = true then .ok () else .error (.plan (.notMemberMarker port)))
      cases operator.isMarker <;> exact fun _ => rfl
  · rw [if_pos member, if_pos member]
    exact fun _ => rfl

theorem answers_check (represents : arena.Represents graph) (cut : StageCut) :
    Answers (check arena cut) (cut.check graph) := by
  have joined : ∀ rest : Except Fault Unit, (cut.inputs.toList.forM (cut.checkPort graph) >>= fun _ =>
      cut.outputs.toList.forM (cut.checkPort graph) >>= fun _ => rest) =
        ((cut.inputs.toList ++ cut.outputs.toList).forM (cut.checkPort graph) >>= fun _ => rest) := by
    intro rest
    have appended : (cut.inputs.toList ++ cut.outputs.toList).forM (cut.checkPort graph) =
        cut.inputs.toList.forM (cut.checkPort graph) >>= fun _ =>
          cut.outputs.toList.forM (cut.checkPort graph) := List.forM_append
    rw [appended, bind_assoc]
  rw [check, StageCut.check, joined]
  refine (Answers.forM (answers_checkPort represents)).bind fun _ checked => ?_
  cases isBoth : (cut.inputs.filter fun port => port ∈ cut.outputs).min? with
  | none => exact fun _ => rfl
  | some both =>
    -- The first check has found the operator, so that asking for its label cannot fail.
    have isInput := (OrderedSet.mem_filter.1 (OrderedSet.mem_of_min? isBoth)).1
    have isKnown := (StageCut.checkPort_eq_ok_iff.1 (forM_eq_ok_iff.1 checked both
      (List.mem_append_left _ (OrderedSet.mem_toList.2 isInput)))).2
    rw [Graph.isMarker, Graph.holds] at isKnown
    simp only [represents.operator_eq, Graph.operator]
    cases found : graph.operator? both with
    | none =>
      rw [found] at isKnown
      cases isKnown
    | some operator => exact fun _ => rfl

/-! ### Ports -/

/-- Ports under consecutive identifiers. -/
def numbered (first : StagePortId)
    (markers : List (OperatorId × OrderedSet OperatorId)) : List StagePort :=
  markers.zipIdx.map fun (marker, offset) =>
    { id := ⟨first.index + offset⟩, marker := marker.1, origins := marker.2 }

theorem numbered_cons (first : StagePortId) (marker : OperatorId × OrderedSet OperatorId)
    (rest : List (OperatorId × OrderedSet OperatorId)) : numbered first (marker :: rest) =
      { id := first, marker := marker.1, origins := marker.2 } :: numbered first.next rest := by
  rw [numbered, List.zipIdx_cons, List.map_cons, List.zipIdx_succ, List.map_map, numbered]
  refine congrArg _ (List.map_congr_left fun _ _ => ?_)
  simp [Id.next, Nat.add_assoc, Nat.add_comm 1]

theorem apply_mapM_port (markers : List (OperatorId × OrderedSet OperatorId)) (draft : Draft) :
    let ports := numbered draft.nextPort markers
    (markers.mapM port).apply draft =
      (.ok ports, { draft with nextPort := ⟨draft.nextPort.index + ports.length⟩ }) := by
  induction markers generalizing draft with
  | nil => rfl
  | cons marker rest ih =>
    have others := ih { draft with nextPort := draft.nextPort.next }
    have counted : draft.nextPort.next.index + (numbered draft.nextPort.next rest).length =
        draft.nextPort.index + (numbered draft.nextPort (marker :: rest)).length := by
      rw [numbered_cons]
      exact Nat.succ_add_eq_add_succ _ _
    simp only [counted] at others
    rw [List.mapM_cons]
    refine (run_run_bind_of_ok (rfl : (port marker).apply draft = _)).trans ?_
    refine (run_run_bind_of_ok others).trans ?_
    rw [numbered_cons]
    rfl

theorem apply_push (inputs outputs : List (OperatorId × OrderedSet OperatorId)) (draft : Draft) :
    let inputPorts := numbered draft.nextPort inputs
    let firstOutput : StagePortId := ⟨draft.nextPort.index + inputPorts.length⟩
    let outputPorts := numbered firstOutput outputs
    (push arena inputs outputs).apply draft = (.ok draft.nextStage,
      { draft with
        stages := draft.stages ++ [
          { id := draft.nextStage, arena, inputs := inputPorts, outputs := outputPorts }]
        nextStage := draft.nextStage.next
        nextPort := ⟨firstOutput.index + outputPorts.length⟩ }) := by
  intro inputPorts firstOutput outputPorts
  have first := apply_mapM_port inputs { draft with nextStage := draft.nextStage.next }
  have second := apply_mapM_port outputs
    { draft with nextStage := draft.nextStage.next, nextPort := firstOutput }
  rw [push]
  refine (run_run_bind_of_ok (rfl : (modifyGet fun draft : Draft =>
    (draft.nextStage, { draft with nextStage := draft.nextStage.next }) :
      Drafting StageId).apply draft = _)).trans ?_
  refine (run_run_bind_of_ok first).trans ?_
  exact (run_run_bind_of_ok second).trans rfl

variable {copied : ArenaCopy} {plain : GraphCopy}

/-- When no two operators are copies of the same one, the table of origins can be read backwards. -/
theorem getElem?_copies (represents : copied.Represents plain)
    (distinct : (plain.origins.map CopiedPair.source).Nodup) (marker : OperatorId) :
    copied.copies[marker]? = (plain.origins.find? fun pair => pair.source = marker).map CopiedPair.copy := by
  have listed : ∀ {copy original : OperatorId},
      (copy, original) ∈ copied.origins.toList ↔ ⟨copy, original⟩ ∈ plain.origins := by
    intro copy original
    rw [ExtTreeMap.mem_toList_iff_getElem?_eq_some, represents.origins]
  have originals : (copied.origins.toList.map Prod.snd).Nodup := by
    refine List.pairwise_map.2 (ExtTreeMap.distinct_keys_toList.imp_of_mem ?_)
    rintro ⟨left, original⟩ ⟨right, other⟩ isLeft isRight apart (rfl : original = other)
    have same := List.inj_on_of_nodup_map distinct (listed.1 isLeft) (listed.1 isRight) rfl
    exact apart (Std.compare_eq_iff_eq.2 (congrArg CopiedPair.copy same))
  refine Option.ext fun copy => ?_
  rw [ArenaCopy.copies, ExtTreeMap.ofList_eq_foldl, ArenaCopy.getElem?_foldl_insert]
  · simp only [Option.map_eq_some_iff, find?_key_eq_some_iff distinct, ExtTreeMap.getElem?_empty,
      reduceCtorEq, and_false, or_false]
    constructor
    · intro isEntry
      obtain ⟨⟨_, _⟩, isOrigin, same⟩ := List.mem_map.1 isEntry
      cases same
      exact ⟨_, ⟨listed.1 isOrigin, rfl⟩, rfl⟩
    · rintro ⟨pair, ⟨isPair, rfl⟩, rfl⟩
      exact List.mem_map.2 ⟨(pair.copy, pair.source), listed.2 isPair, rfl⟩
  · rwa [List.map_map]

/-- The ports of the new stage are those that it gets in a plan. -/
theorem numbered_stagePorts (represents : copied.Represents plain)
    (distinct : (plain.origins.map CopiedPair.source).Nodup) (markers : OrderedSet OperatorId)
    (first : StagePortId) : numbered first (stagePorts copied.copies markers) =
      Plan.stagePorts plain.origins markers first := by
  have each : ∀ marker : OperatorId,
      (copied.copies[marker]?.map fun copy => (copy, OrderedSet.singleton marker)) =
      (plain.origins.find? fun pair => pair.source = marker).map fun pair =>
        (pair.copy, OrderedSet.singleton pair.source) := by
    intro marker
    rw [getElem?_copies represents distinct]
    cases found : plain.origins.find? fun pair => pair.source = marker with
    | none => rfl
    | some pair =>
      obtain ⟨-, rfl⟩ := (find?_key_eq_some_iff distinct).1 found
      rfl
  rw [stagePorts, Plan.stagePorts, numbered]
  simp only [each]
  rw [← List.map_filterMap, List.zipIdx_map, List.map_map]
  rfl

theorem apply_push_stagePorts (represents : copied.Represents plain)
    (distinct : (plain.origins.map CopiedPair.source).Nodup) (cut : StageCut) (draft : Draft) :
    let stage := Plan.newStage cut plain draft.nextStage draft.nextPort
    (push copied.arena (stagePorts copied.copies cut.inputs)
      (stagePorts copied.copies cut.outputs)).apply draft = (.ok draft.nextStage, { draft with
        stages := draft.stages ++ [
          { id := stage.id, arena := copied.arena, inputs := stage.inputs, outputs := stage.outputs }]
        nextStage := draft.nextStage.next
        nextPort := ⟨draft.nextPort.index + stage.ports.length⟩ }) := by
  intro stage
  have counted : stage.ports.length = stage.inputs.length + stage.outputs.length := List.length_append
  have inputs : numbered draft.nextPort (stagePorts copied.copies cut.inputs) = stage.inputs :=
    numbered_stagePorts represents distinct cut.inputs draft.nextPort
  have outputs : numbered ⟨draft.nextPort.index + stage.inputs.length⟩
      (stagePorts copied.copies cut.outputs) = stage.outputs :=
    numbered_stagePorts represents distinct cut.outputs _
  rw [apply_push, inputs, outputs, counted, ← Nat.add_assoc]
  rfl

end Drafting

/-! ### Stages -/

/-- The tables hold a stage, apart from the originals of its operators. -/
structure StageRecord.Represents (record : StageRecord) (stage : Stage) : Prop where
  id : record.id = stage.id
  arena : record.arena.Represents stage.graph
  inputs : record.inputs = stage.inputs
  outputs : record.outputs = stage.outputs

/-- The table names the originals of the operators of a stage. -/
def Stage.Names (stage : Stage) (table : ExtTreeMap OperatorId OperatorId) : Prop :=
  ∀ copy original : OperatorId, table[copy]? = some original ↔ ⟨copy, original⟩ ∈ stage.provenance

/-- The second draft is the first one with a last stage, under the next identifiers. -/
structure Draft.Adds (draft after : Draft) (stage : Stage) : Prop where
  id : stage.id = draft.nextStage
  ports : stage.ports.map StagePort.id = draft.nextPort.run stage.ports.length
  stages : ∃ record, StageRecord.Represents record stage ∧ after.stages = draft.stages ++ [record]
  sources : ∃ table, stage.Names table ∧ after.sources = draft.sources.insert stage.id table
  nextStage : after.nextStage = draft.nextStage.next
  nextPort : after.nextPort = ⟨draft.nextPort.index + stage.ports.length⟩

namespace Drafting

variable {arena : Arena} {graph : Graph}

/-- A cut that is not sound is refused for the same cause as by a plan, and the draft stays as it is. -/
theorem apply_addStage_of_unsound (represents : arena.Represents graph) {cut : StageCut}
    (unsound : ¬ cut.Sound graph) (draft : Draft) :
    ∃ fault, (∀ plan : Plan, plan.addStage graph cut = .error fault) ∧
      (addStage arena cut).apply draft = (.error fault, draft) := by
  have checks := answers_check represents cut draft
  cases checked : cut.check graph with
  | error fault =>
    rw [checked] at checks
    exact ⟨fault, fun plan => by rw [Plan.addStage, checked]; rfl, run_run_bind_of_error checks⟩
  | ok _ =>
    rw [checked] at checks
    rcases Arena.copyOf_represents represents cut.members cut.keeps with
      ⟨cause, failed, alsoFailed⟩ | ⟨plain, -, isPlain, -⟩
    · refine ⟨.graph cause, fun plan => by rw [Plan.addStage, checked, failed]; rfl, ?_⟩
      rw [addStage, alsoFailed]
      exact (run_run_bind_of_ok checks).trans (run_run_bind_of_error rfl)
    · -- What passes the check and can be copied would become a stage of any plan, and is sound.
      have added : Plan.addStage {} graph cut = _ := Plan.addStage_eq_ok checked isPlain
      exact absurd (Plan.sound_of_addStage added) unsound

/-- A sound cut becomes the stage that a plan gets with the same identifiers. -/
theorem exists_apply_addStage (represents : arena.Represents graph) {cut : StageCut}
    (sound : cut.Sound graph) (draft : Draft) :
    ∃ copied after, graph.copyOf cut.members cut.keeps = .ok copied ∧
      (addStage arena cut).apply draft = (.ok draft.nextStage, after) ∧
      (Plan.newStage cut copied draft.nextStage draft.nextPort).Realizes graph cut ∧
      draft.Adds after (Plan.newStage cut copied draft.nextStage draft.nextPort) := by
  obtain ⟨plain, copied, isPlain, isCopied, holds, part⟩ :=
    Arena.exists_copyOf_represents represents cut.keeps sound.members
  have distinct : (plain.origins.map CopiedPair.source).Nodup := part.sources ▸ cut.members.nodup
  have checks := answers_check represents cut draft
  rw [sound.check] at checks
  have pushed := apply_push_stagePorts holds distinct cut draft
  let stage := Plan.newStage cut plain draft.nextStage draft.nextPort
  let record : StageRecord :=
    { id := stage.id, arena := copied.arena, inputs := stage.inputs, outputs := stage.outputs }
  let after : Draft := {
    stages := draft.stages ++ [record]
    nextStage := draft.nextStage.next
    nextPort := ⟨draft.nextPort.index + stage.ports.length⟩
    sources := draft.sources.insert draft.nextStage copied.origins }
  refine ⟨plain, after, isPlain, ?_, Plan.realizes_newStage sound part _ _, {
      id := rfl
      ports := Plan.map_id_ports_newStage cut plain draft.nextStage draft.nextPort
      stages := ⟨record, ⟨rfl, holds.arena, rfl, rfl⟩, rfl⟩
      sources := ⟨copied.origins, holds.origins, rfl⟩
      nextStage := rfl
      nextPort := rfl }⟩
  rw [addStage, isCopied]
  refine (run_run_bind_of_ok checks).trans ?_
  refine (run_run_bind_of_ok (rfl : (demand (.ok copied)).apply draft = _)).trans ?_
  exact (run_run_bind_of_ok pushed).trans rfl

end Drafting

/-! ### Plans -/

/-- The draft holds a plan. -/
structure Draft.Represents (draft : Draft) (plan : Plan) : Prop where
  stages : List.Forall₂ StageRecord.Represents draft.stages plan.stages
  sources : ∀ stage ∈ plan.stages, ∃ table, draft.sources[stage.id]? = some table ∧ stage.Names table
  nextStage : draft.nextStage = plan.nextStage
  nextPort : draft.nextPort = plan.nextPort
  stagesBelow : ∀ stage ∈ plan.stages, stage.id.index < plan.nextStage.index

namespace Draft

variable {draft : Draft} {plan : Plan} {arena : Arena} {graph : Graph}

theorem represents_empty : Draft.Represents {} {} where
  stages := .nil
  sources := by simp
  nextStage := rfl
  nextPort := rfl
  stagesBelow := by simp

/-- What one addition preserves. -/
theorem Represents.add (holds : draft.Represents plan) {after : Draft} {stage : Stage}
    (adds : draft.Adds after stage) :
    after.Represents {
      stages := plan.stages ++ [stage]
      nextStage := plan.nextStage.next
      nextPort := ⟨plan.nextPort.index + stage.ports.length⟩ } := by
  obtain ⟨record, isRecord, stages⟩ := adds.stages
  obtain ⟨table, names, sources⟩ := adds.sources
  have isNext : stage.id = plan.nextStage := adds.id.trans holds.nextStage
  refine ⟨?_, ?_, ?_, ?_, ?_⟩
  · rw [stages]
    exact List.rel_append holds.stages (.cons isRecord .nil)
  · intro other member
    simp only [sources, ExtTreeMap.getElem?_insert, Std.compare_eq_iff_eq]
    rcases List.mem_append.1 member with old | new
    · have below := holds.stagesBelow other old
      rw [if_neg fun same => Nat.lt_irrefl _ (isNext ▸ same ▸ below)]
      exact holds.sources other old
    · rw [List.mem_singleton.1 new, if_pos rfl]
      exact ⟨table, rfl, names⟩
  · rw [adds.nextStage, holds.nextStage]
  · rw [adds.nextPort, holds.nextPort]
  · intro other member
    rcases List.mem_append.1 member with old | new
    · exact Nat.lt_succ_of_lt (holds.stagesBelow other old)
    · rw [List.mem_singleton.1 new, isNext]
      exact Nat.lt_succ_self _

/-- A cut is refused by both for the same cause, or becomes a stage of both. -/
theorem Represents.addStage (holds : draft.Represents plan) (represents : arena.Represents graph)
    (cut : StageCut) :
    (∃ fault, plan.addStage graph cut = .error fault ∧
      (Drafting.addStage arena cut).apply draft = (.error fault, draft)) ∨
    ∃ result after, plan.addStage graph cut = .ok result ∧
      (Drafting.addStage arena cut).apply draft = (.ok draft.nextStage, after) ∧
        after.nextStage = draft.nextStage.next ∧ after.Represents result := by
  by_cases sound : cut.Sound graph
  · obtain ⟨copied, after, isCopy, applied, -, adds⟩ :=
      Drafting.exists_apply_addStage represents sound draft
    have added : plan.addStage graph cut = _ := Plan.addStage_eq_ok sound.check isCopy
    have counted := adds.nextStage
    rw [holds.nextStage, holds.nextPort] at adds
    exact .inr ⟨_, after, added, applied, counted, holds.add adds⟩
  · obtain ⟨fault, refused, applied⟩ := Drafting.apply_addStage_of_unsound represents sound draft
    exact .inl ⟨fault, refused plan, applied⟩

/-- Cuts that are added one after the other are refused by both for the same cause, or become stages of
both; the draft gives out consecutive identifiers. -/
theorem Represents.addStages (holds : draft.Represents plan) (represents : arena.Represents graph)
    (cuts : List StageCut) :
    (∃ fault after, cuts.foldlM (fun (plan : Plan) cut => plan.addStage graph cut) plan = .error fault ∧
      Drafting.apply (cuts.mapM (Drafting.addStage arena)) draft = (.error fault, after)) ∨
    ∃ result after, cuts.foldlM (fun (plan : Plan) cut => plan.addStage graph cut) plan = .ok result ∧
      Drafting.apply (cuts.mapM (Drafting.addStage arena)) draft =
        (.ok (draft.nextStage.run cuts.length), after) ∧ after.Represents result := by
  induction cuts generalizing draft plan with
  | nil => exact .inr ⟨plan, draft, rfl, rfl, holds⟩
  | cons cut rest ih =>
    rw [List.foldlM_cons, List.mapM_cons]
    rcases holds.addStage represents cut with
      ⟨fault, refused, applied⟩ | ⟨next, middle, added, applied, counted, holdsNext⟩
    · rw [refused]
      exact .inl ⟨fault, draft, rfl, run_run_bind_of_error applied⟩
    · rw [added]
      rcases ih holdsNext with
        ⟨fault, after, refused, others⟩ | ⟨result, after, succeeded, others, holdsResult⟩
      · exact .inl ⟨fault, after, refused,
          (run_run_bind_of_ok applied).trans (run_run_bind_of_error others)⟩
      · have ids : draft.nextStage.run (rest.length + 1) =
            draft.nextStage :: middle.nextStage.run rest.length := by
          rw [counted, Nat.add_comm, ← Id.run_append]
          rfl
        rw [List.length_cons, ids]
        exact .inr ⟨result, after, succeeded,
          (run_run_bind_of_ok applied).trans ((run_run_bind_of_ok others).trans rfl), holdsResult⟩

/-- The tables of the primitive plan come out of a draft to which its cuts are added. -/
theorem exists_represents_primitivePlan (represents : arena.Represents graph) {order : List OperatorId}
    (ordered : graph.dependencies.order = .ok order) (isPlan : graph.primitivePlan = .ok plan) :
    ∃ ids after, Drafting.apply ((graph.cuts order).mapM (Drafting.addStage arena)) {} =
      (.ok ids, after) ∧ after.Represents plan := by
  rw [Graph.primitivePlan, ordered] at isPlan
  rcases represents_empty.addStages represents (graph.cuts order) with
    ⟨fault, -, failed, -⟩ | ⟨result, after, isResult, applied, holds⟩
  · cases failed.symm.trans isPlan
  · obtain rfl := Except.ok.inj (isResult.symm.trans isPlan)
    exact ⟨_, after, applied, holds⟩

end Draft

/-! ### Exactness -/

/-- Members of a graph are copied when all of them are known and refused when one is not. A draft gets
what a sound cut asks for, with the wires that the cut lets through, and is left as it is by any other
cut. -/
theorem Drafting.copying_exact {arena : Arena} {graph : Graph} (represents : arena.Represents graph) :
    (∀ (members : OrderedSet OperatorId) (keep : OperatorId → OperatorId → Bool),
      ((∀ id ∈ members, id ∈ graph.operatorIds) →
        ∃ copied, arena.copyOf members keep = .ok copied ∧ copied.CopiesMembers graph members keep) ∧
      ∀ unknown ∈ members, unknown ∉ graph.operatorIds → ∃ id ∈ members, id ∉ graph.operatorIds ∧
        arena.copyOf members keep = .error (.unknownOperator id)) ∧
    ∀ (cut : StageCut) (draft : Draft),
      (cut.Sound graph → ∃ stage after,
        (addStage arena cut).apply draft = (.ok draft.nextStage, after) ∧ draft.Adds after stage ∧
        stage.Realizes graph cut ∧ ∀ source target, stage.CopiesWire source target ↔
          graph.Wired source target ∧ source.operator ∈ cut.members ∧ target.operator ∈ cut.members ∧
            target.operator ∉ cut.inputs ∧ source.operator ∉ cut.outputs ∧
              (target.operator ∈ cut.outputs → source.operator ∈ cut.producers)) ∧
      (¬ cut.Sound graph → ∃ fault, (addStage arena cut).apply draft = (.error fault, draft)) := by
  refine ⟨fun members keep => ⟨Arena.exists_copyOf represents keep, fun unknown =>
    Arena.copyOf_eq_error represents keep⟩, fun cut draft => ⟨fun sound => ?_, fun unsound => ?_⟩⟩
  · obtain ⟨copied, after, -, applied, realizes, adds⟩ := exists_apply_addStage represents sound draft
    refine ⟨_, after, applied, adds, realizes, fun source target => ?_⟩
    rw [realizes.copiesWire_iff, ← StageCut.keeps_iff]
    exact ⟨fun ⟨wired, isSource, isTarget, kept⟩ => ⟨wired, isSource, isTarget, kept⟩,
      fun ⟨wired, isSource, isTarget, kept⟩ => ⟨wired, isSource, isTarget, kept⟩⟩
  · obtain ⟨fault, -, applied⟩ := apply_addStage_of_unsound represents unsound draft
    exact ⟨fault, applied⟩

/-- Two checkpoints that feed each other, and a projection behind the first that feeds the second. -/
def Graph.cutSample : Graph :=
  let marked := (Graph.empty.add (.marker .checkpoint (.named "t"))).2
  let graph := ((marked.add (.marker .checkpoint (.named "t"))).2.add (.core .project (.named "t"))).2
  (((graph.link ⟨1⟩ ⟨2⟩).link ⟨3⟩ ⟨0⟩).link ⟨1⟩ ⟨4⟩).link ⟨5⟩ ⟨2⟩

/-- All three operators between the two checkpoints, which alone are producers. -/
def StageCut.sample : StageCut where
  members := .ofList [⟨0⟩, ⟨1⟩, ⟨2⟩]
  producers := .ofList [⟨0⟩, ⟨1⟩]
  inputs := .singleton ⟨0⟩
  outputs := .singleton ⟨1⟩

theorem Arena.exists_represents_cutSample : ∃ arena : Arena, arena.Represents Graph.cutSample := by
  have empty := Arena.represents_empty ⟨0⟩
  refine ⟨_, .link (.link (.link (.link (((empty.add _).add _).add _) ?_ ?_) ?_ ?_) ?_ ?_) ?_ ?_⟩
  all_goals decide

theorem StageCut.sound_sample : StageCut.sample.Sound Graph.cutSample := by
  refine ⟨by decide, by decide, by decide, by decide⟩

/-- The edge from the checkpoint behind to the one in front is not copied, nor is that from the projection,
which is no producer. A checkpoint on both sides is refused, and so is a member that is not there. -/
theorem Drafting.copying_exact_cutSample : ∃ (arena : Arena) (stage : Stage) (after : Draft),
    arena.Represents Graph.cutSample ∧
    (addStage arena .sample).apply {} = (.ok ⟨0⟩, after) ∧ Draft.Adds {} after stage ∧
    stage.CopiesWire ⟨⟨0⟩, 0⟩ ⟨⟨1⟩, 0⟩ ∧ stage.CopiesWire ⟨⟨0⟩, 0⟩ ⟨⟨2⟩, 0⟩ ∧
    ¬ stage.CopiesWire ⟨⟨1⟩, 0⟩ ⟨⟨0⟩, 0⟩ ∧ ¬ stage.CopiesWire ⟨⟨2⟩, 0⟩ ⟨⟨1⟩, 0⟩ ∧
    (∃ fault, (addStage arena { StageCut.sample with outputs := .ofList [⟨0⟩, ⟨1⟩] }).apply after =
      (.error fault, after)) ∧
    ∃ id, arena.copyOf (.ofList [⟨0⟩, ⟨3⟩]) (fun _ _ => true) = .error (.unknownOperator id) := by
  obtain ⟨arena, represents⟩ := Arena.exists_represents_cutSample
  obtain ⟨copies, drafts⟩ := copying_exact represents
  obtain ⟨stage, after, applied, adds, -, wires⟩ := (drafts .sample {}).1 StageCut.sound_sample
  have doubled :
      ¬ StageCut.Sound { StageCut.sample with outputs := .ofList [⟨0⟩, ⟨1⟩] } Graph.cutSample :=
    fun sound => sound.apart ⟨0⟩ (by decide) (by decide)
  obtain ⟨id, -, -, refused⟩ :=
    (copies (.ofList [⟨0⟩, ⟨3⟩]) fun _ _ => true).2 ⟨3⟩ (by decide) (by decide)
  refine ⟨arena, stage, after, represents, applied, adds, (wires _ _).2 (by decide),
    (wires _ _).2 (by decide), fun wired => ?_, fun wired => ?_, (drafts _ after).2 doubled,
    id, refused⟩
  · exact ((wires _ _).1 wired).2.2.2.1 (by decide)
  · exact absurd (((wires _ _).1 wired).2.2.2.2.2 (by decide)) (by decide)

end StagePlanner
