import StagePlanner.Plan.Cutting
import StagePlanner.Proofs.Graph.Copying
import StagePlanner.Proofs.Plan.Connection

/-!
# Stages built from cuts

`Plan.addStage` turns a cut of a graph into a stage. `Stage.Realizes` says what that stage is in
terms of the graph: the copies, ports and wires that the cut asks for and nothing else.

* `exists_addStage`: a sound cut becomes a stage that realizes it.
* `Plan.Built`: a plan built up stage by stage realizes its cuts in order, under distinct
  identifiers.
-/

namespace StagePlanner

namespace StageCut

/-- A cut that `Plan.addStage` accepts. -/
structure Sound (cut : StageCut) (graph : Graph) : Prop where
  members : ∀ id ∈ cut.members, id ∈ graph.operatorIds
  inputs : ∀ id ∈ cut.inputs, id ∈ cut.members ∧ graph.isMarker id = true
  outputs : ∀ id ∈ cut.outputs, id ∈ cut.members ∧ graph.isMarker id = true
  /-- No marker is a port on both sides. -/
  apart : ∀ id ∈ cut.inputs, id ∉ cut.outputs

variable {cut : StageCut} {graph : Graph}

theorem keeps_iff {source target : OperatorId} :
    cut.keeps source target = true ↔ target ∉ cut.inputs ∧ source ∉ cut.outputs ∧
      (target ∈ cut.outputs → source ∈ cut.producers) := by
  simp only [keeps, Bool.and_eq_true, Bool.or_eq_true, decide_eq_true_eq, and_assoc,
    imp_iff_not_or]

theorem checkPort_eq_ok_iff {port : OperatorId} :
    cut.checkPort graph port = .ok () ↔ port ∈ cut.members ∧ graph.isMarker port = true := by
  rw [checkPort, Graph.isMarker, Graph.holds]
  by_cases member : port ∈ cut.members
  · rw [if_neg (not_not.2 member), and_iff_right member]
    cases graph.operator? port with
    | none => simp
    | some operator =>
      cases isMarker : operator.isMarker with
      | true => simp [isMarker]
      | false => simp [isMarker]
  · rw [if_pos member]
    simp [member]

theorem check_eq_ok_iff : cut.check graph = .ok () ↔
    (∀ id ∈ cut.inputs, id ∈ cut.members ∧ graph.isMarker id = true) ∧
      (∀ id ∈ cut.outputs, id ∈ cut.members ∧ graph.isMarker id = true) ∧
        ∀ id ∈ cut.inputs, id ∉ cut.outputs := by
  have none : (cut.inputs.filter fun port => port ∈ cut.outputs).min? = none ↔
      ∀ id ∈ cut.inputs, id ∉ cut.outputs := by
    rw [OrderedSet.min?_eq_none_iff]
    simp only [OrderedSet.mem_filter, decide_eq_true_eq, not_and]
  have ports : ∀ ports : OrderedSet OperatorId, ports.toList.forM (cut.checkPort graph) = .ok () ↔
      ∀ id ∈ ports, id ∈ cut.members ∧ graph.isMarker id = true := by
    intro ports
    rw [forM_eq_ok_iff]
    simp only [checkPort_eq_ok_iff, OrderedSet.mem_toList]
  constructor
  · intro checked
    obtain ⟨_, inputs, rest⟩ := bind_eq_ok_iff.1 checked
    obtain ⟨_, outputs, apart⟩ := bind_eq_ok_iff.1 rest
    refine ⟨(ports _).1 inputs, (ports _).1 outputs, none.1 ?_⟩
    split at apart
    · next isNone => exact isNone
    · cases apart
  · rintro ⟨inputs, outputs, apart⟩
    rw [StageCut.check, (ports _).2 inputs, (ports _).2 outputs, none.2 apart]
    rfl

theorem Sound.check (sound : cut.Sound graph) : cut.check graph = .ok () :=
  check_eq_ok_iff.2 ⟨sound.inputs, sound.outputs, sound.apart⟩

end StageCut

/-- A wire of the graph that a stage built from the cut copies. -/
structure StageCut.Carries (cut : StageCut) (graph : Graph) (source target : Terminal) : Prop where
  wired : graph.Wired source target
  sourceMember : source.operator ∈ cut.members
  targetMember : target.operator ∈ cut.members
  kept : cut.keeps source.operator target.operator = true

/-- A cut holds what it needs: all producers of its operators, markers at its ends only, and no
idle end. -/
structure StageCut.Complete (cut : StageCut) (graph : Graph) : Prop where
  /-- An operator that is no marker is fed in the cut by all that feeds it in the graph. -/
  producers : ∀ source target, graph.Wired source target → target.operator ∈ cut.members →
    graph.isMarker target.operator = false → cut.Carries graph source target
  markers : ∀ id ∈ cut.members, graph.isMarker id = true → id ∈ cut.inputs ∨ id ∈ cut.outputs
  /-- An input feeds something in the cut. -/
  read : ∀ id ∈ cut.inputs, ∃ index target, cut.Carries graph ⟨id, index⟩ target
  /-- An output is fed by something in the cut. -/
  written : ∀ id ∈ cut.outputs, ∃ source index, cut.Carries graph source ⟨id, index⟩

/-- A stage port stands for one marker only, of which its own marker is a copy. -/
def StagePort.StandsFor (provenance : List (CopiedPair .operator)) (port : StagePort)
    (marker : OperatorId) : Prop :=
  port.origins = .singleton marker ∧ ⟨port.marker, marker⟩ ∈ provenance

/-- The stage holds a copy of each member of a cut and of nothing else, has a port for each
listed marker, and wires copies exactly where the cut keeps wires of the graph. -/
structure Stage.Realizes (stage : Stage) (graph : Graph) (cut : StageCut) : Prop where
  wellFormed : stage.graph.WellFormed
  copies : stage.provenance.map CopiedPair.copy = stage.graph.operatorIds
  sources : stage.provenance.map CopiedPair.source = cut.members.toList
  /-- A copy differs from its original in identifiers only. -/
  alike : ∀ pair ∈ stage.provenance, ∃ copy ∈ stage.graph.operators,
    ∃ original ∈ graph.operators,
      copy.id = pair.copy ∧ original.id = pair.source ∧ copy.blueprint = original.blueprint
  wired : ∀ left ∈ stage.provenance, ∀ right ∈ stage.provenance, ∀ output input,
    stage.graph.Wired ⟨left.copy, output⟩ ⟨right.copy, input⟩ ↔
      graph.Wired ⟨left.source, output⟩ ⟨right.source, input⟩ ∧
        cut.keeps left.source right.source = true
  inputs : List.Forall₂ (StagePort.StandsFor stage.provenance) stage.inputs cut.inputs.toList
  outputs : List.Forall₂ (StagePort.StandsFor stage.provenance) stage.outputs cut.outputs.toList

/-- A wire of the prepared graph of which the stage has a copy. -/
def Stage.CopiesWire (stage : Stage) (source target : Terminal) : Prop :=
  ∃ left ∈ stage.provenance, ∃ right ∈ stage.provenance,
    left.source = source.operator ∧ right.source = target.operator ∧
      stage.graph.Wired ⟨left.copy, source.index⟩ ⟨right.copy, target.index⟩

namespace Stage

variable {stage : Stage} {graph : Graph} {cut : StageCut}

theorem mem_sources {id : OperatorId} :
    id ∈ stage.sources ↔ ∃ pair ∈ stage.provenance, pair.source = id := by
  simp [sources]

namespace Realizes

variable (realizes : stage.Realizes graph cut)

include realizes

theorem source_mem {pair : CopiedPair .operator} (member : pair ∈ stage.provenance) :
    pair.source ∈ cut.members := by
  rw [← OrderedSet.mem_toList, ← realizes.sources]
  exact List.mem_map_of_mem member

theorem exists_copy {id : OperatorId} (member : id ∈ cut.members) :
    ∃ pair ∈ stage.provenance, pair.source = id := by
  rw [← OrderedSet.mem_toList, ← realizes.sources] at member
  exact List.mem_map.1 member

theorem mem_sources_iff {id : OperatorId} : id ∈ stage.sources ↔ id ∈ cut.members := by
  rw [mem_sources]
  refine ⟨?_, realizes.exists_copy⟩
  rintro ⟨pair, member, rfl⟩
  exact realizes.source_mem member

/-- Every operator of the stage is a copy. -/
theorem exists_source {operator : Operator} (member : operator ∈ stage.graph.operators) :
    ∃ pair ∈ stage.provenance, pair.copy = operator.id := by
  have listed : operator.id ∈ stage.provenance.map CopiedPair.copy :=
    realizes.copies ▸ List.mem_map_of_mem member
  exact List.mem_map.1 listed

/-- A stage port of either side stands for a marker on that side of the cut. -/
theorem exists_standsFor {port : StagePort} (isPort : port ∈ stage.ports) :
    ∃ marker, port.StandsFor stage.provenance marker ∧
      (marker ∈ cut.inputs ∨ marker ∈ cut.outputs) := by
  rcases List.mem_append.1 isPort with isInput | isOutput
  · obtain ⟨marker, member, standsFor⟩ := exists_partner_of_mem realizes.inputs isInput
    exact ⟨marker, standsFor, .inl (OrderedSet.mem_toList.1 member)⟩
  · obtain ⟨marker, member, standsFor⟩ := exists_partner_of_mem realizes.outputs isOutput
    exact ⟨marker, standsFor, .inr (OrderedSet.mem_toList.1 member)⟩

/-- A port stands for the one marker of which its own marker is a copy. -/
theorem exists_origin {port : StagePort} (isPort : port ∈ stage.ports) :
    ∃ marker, port.StandsFor stage.provenance marker := by
  obtain ⟨marker, standsFor, -⟩ := realizes.exists_standsFor isPort
  exact ⟨marker, standsFor⟩

theorem pair_unique_of_copy {left right : CopiedPair .operator} (isLeft : left ∈ stage.provenance)
    (isRight : right ∈ stage.provenance) (same : left.copy = right.copy) : left = right :=
  List.inj_on_of_nodup_map (realizes.copies ▸ realizes.wellFormed.nodup_operatorIds) isLeft isRight
    same

theorem pair_unique_of_source {left right : CopiedPair .operator} (isLeft : left ∈ stage.provenance)
    (isRight : right ∈ stage.provenance) (same : left.source = right.source) : left = right :=
  List.inj_on_of_nodup_map (realizes.sources ▸ cut.members.nodup) isLeft isRight same

theorem source?_eq_some_iff {copy source : OperatorId} :
    stage.source? copy = some source ↔ ⟨copy, source⟩ ∈ stage.provenance := by
  have distinct : (stage.provenance.map CopiedPair.copy).Nodup :=
    realizes.copies ▸ realizes.wellFormed.nodup_operatorIds
  rw [source?, Option.map_eq_some_iff]
  simp only [find?_key_eq_some_iff distinct]
  constructor
  · rintro ⟨pair, ⟨member, rfl⟩, rfl⟩
    exact member
  · intro member
    exact ⟨_, ⟨member, rfl⟩, rfl⟩

/-- The stage copies the wires that its cut carries. -/
theorem copiesWire_iff {source target : Terminal} :
    stage.CopiesWire source target ↔ cut.Carries graph source target := by
  constructor
  · rintro ⟨left, isLeft, right, isRight, leftSource, rightSource, wired⟩
    obtain ⟨original, kept⟩ := (realizes.wired left isLeft right isRight _ _).1 wired
    rw [leftSource, rightSource] at original kept
    exact ⟨original, leftSource ▸ realizes.source_mem isLeft,
      rightSource ▸ realizes.source_mem isRight, kept⟩
  · rintro ⟨wired, sourceMember, targetMember, kept⟩
    obtain ⟨left, isLeft, leftSource⟩ := realizes.exists_copy sourceMember
    obtain ⟨right, isRight, rightSource⟩ := realizes.exists_copy targetMember
    refine ⟨left, isLeft, right, isRight, leftSource, rightSource,
      (realizes.wired left isLeft right isRight _ _).2 ?_⟩
    rw [leftSource, rightSource]
    exact ⟨wired, kept⟩

/-- A wire of the stage is the copy of a wire of the graph. -/
theorem exists_original {source target : Terminal} (wired : stage.graph.Wired source target) :
    ∃ left ∈ stage.provenance, ∃ right ∈ stage.provenance,
      left.copy = source.operator ∧ right.copy = target.operator ∧
        cut.Carries graph ⟨left.source, source.index⟩ ⟨right.source, target.index⟩ := by
  obtain ⟨⟨producer, isProducer, producerId⟩, consumer, isConsumer, consumerId⟩ :=
    wired.feeds.operators
  obtain ⟨left, isLeft, leftCopy⟩ := realizes.exists_source isProducer
  obtain ⟨right, isRight, rightCopy⟩ := realizes.exists_source isConsumer
  rw [producerId] at leftCopy
  rw [consumerId] at rightCopy
  refine ⟨left, isLeft, right, isRight, leftCopy, rightCopy, realizes.copiesWire_iff.1
    ⟨left, isLeft, right, isRight, rfl, rfl, ?_⟩⟩
  rw [leftCopy, rightCopy]
  exact wired

theorem exists_input_iff {id : OperatorId} :
    (∃ port ∈ stage.inputs, id ∈ port.origins) ↔ id ∈ cut.inputs := by
  constructor
  · rintro ⟨port, isInput, isOrigin⟩
    obtain ⟨marker, member, origins, -⟩ := exists_partner_of_mem realizes.inputs isInput
    rw [origins, OrderedSet.mem_singleton] at isOrigin
    exact isOrigin ▸ member
  · intro member
    rw [← OrderedSet.mem_toList] at member
    obtain ⟨port, isInput, origins, -⟩ := exists_partner realizes.inputs member
    exact ⟨port, isInput, origins ▸ OrderedSet.mem_singleton.2 rfl⟩

theorem exists_output_iff {id : OperatorId} :
    (∃ port ∈ stage.outputs, id ∈ port.origins) ↔ id ∈ cut.outputs := by
  constructor
  · rintro ⟨port, isOutput, isOrigin⟩
    obtain ⟨marker, member, origins, -⟩ := exists_partner_of_mem realizes.outputs isOutput
    rw [origins, OrderedSet.mem_singleton] at isOrigin
    exact isOrigin ▸ member
  · intro member
    rw [← OrderedSet.mem_toList] at member
    obtain ⟨port, isOutput, origins, -⟩ := exists_partner realizes.outputs member
    exact ⟨port, isOutput, origins ▸ OrderedSet.mem_singleton.2 rfl⟩

end Realizes

/-- Stages supply each other as their cuts say. -/
theorem Realizes.supplies_iff {producer consumer : Stage} {first second : StageCut}
    (isProducer : producer.Realizes graph first) (isConsumer : consumer.Realizes graph second) :
    producer.Supplies consumer ↔ ∃ id, id ∈ first.outputs ∧ id ∈ second.inputs := by
  constructor
  · rintro ⟨output, isOutput, input, isInput, id, inOutput, inInput⟩
    exact ⟨id, isProducer.exists_output_iff.1 ⟨output, isOutput, inOutput⟩,
      isConsumer.exists_input_iff.1 ⟨input, isInput, inInput⟩⟩
  · rintro ⟨id, inFirst, inSecond⟩
    obtain ⟨output, isOutput, inOutput⟩ := isProducer.exists_output_iff.2 inFirst
    obtain ⟨input, isInput, inInput⟩ := isConsumer.exists_input_iff.2 inSecond
    exact ⟨output, isOutput, input, isInput, id, inOutput, inInput⟩

end Stage

namespace Plan

theorem map_id_stagePorts {provenance : List (CopiedPair .operator)}
    {markers : OrderedSet OperatorId} {first : StagePortId} :
    (stagePorts provenance markers first).map StagePort.id =
      first.run (stagePorts provenance markers first).length := by
  rw [stagePorts, List.map_map, List.length_map, List.length_zipIdx, Id.run,
    ← List.zipIdx_map_snd, List.map_map]
  rfl

/-- The ports of a new stage stand for the listed markers, in order. -/
theorem standsFor_stagePorts {provenance : List (CopiedPair .operator)}
    {markers : OrderedSet OperatorId} {first : StagePortId}
    (members : ∀ marker ∈ markers, marker ∈ provenance.map CopiedPair.source) :
    List.Forall₂ (StagePort.StandsFor provenance) (stagePorts provenance markers first)
      markers.toList := by
  have paired : List.Forall₂ (fun pair marker => pair ∈ provenance ∧ pair.source = marker)
      (markers.toList.filterMap fun marker => provenance.find? fun pair => pair.source = marker)
      markers.toList := by
    have all : ∀ marker ∈ markers.toList, marker ∈ provenance.map CopiedPair.source := members
    generalize markers.toList = listed at all
    induction listed with
    | nil => exact .nil
    | cons marker rest ih =>
      have others := ih fun other member => all other (List.mem_cons_of_mem _ member)
      obtain ⟨pair, pairMember, isSource⟩ := List.mem_map.1 (all marker List.mem_cons_self)
      cases found : provenance.find? fun pair => pair.source = marker with
      | none => simpa [isSource] using List.find?_eq_none.1 found pair pairMember
      | some first =>
        have head := List.filterMap_cons_some
          (f := fun marker => provenance.find? fun pair => pair.source = marker) (l := rest) found
        rw [head]
        exact .cons ⟨List.mem_of_find?_eq_some found, by simpa using List.find?_some found⟩ others
  rw [stagePorts, List.forall₂_map_left_iff]
  have indexed := paired
  rw [← List.zipIdx_map_fst 0 (markers.toList.filterMap _), List.forall₂_map_left_iff] at indexed
  refine indexed.imp fun pair marker both => ?_
  obtain ⟨member, rfl⟩ := both
  exact ⟨rfl, member⟩

/-- The stage that a copy of the members of a cut becomes. -/
def newStage (cut : StageCut) (copied : GraphCopy) (id : StageId) (first : StagePortId) : Stage :=
  let inputs := stagePorts copied.origins cut.inputs first
  { id, graph := copied.graph, inputs
    outputs := stagePorts copied.origins cut.outputs ⟨first.index + inputs.length⟩
    provenance := copied.origins }

/-- The ports of a new stage get consecutive identifiers. -/
theorem map_id_ports_newStage (cut : StageCut) (copied : GraphCopy) (id : StageId)
    (first : StagePortId) : (newStage cut copied id first).ports.map StagePort.id =
      first.run (newStage cut copied id first).ports.length := by
  rw [Stage.ports, List.map_append, List.length_append, ← Id.run_append]
  exact congrArg₂ (· ++ ·) map_id_stagePorts map_id_stagePorts

/-- The copy of a sound cut becomes a stage that realizes it. -/
theorem realizes_newStage {graph : Graph} {cut : StageCut} {copied : GraphCopy}
    (sound : cut.Sound graph) (part : graph.CopiesPart cut.members.toList cut.keeps copied)
    (id : StageId) (first : StagePortId) : (newStage cut copied id first).Realizes graph cut := by
  have standFor : ∀ {markers : OrderedSet OperatorId} {first : StagePortId},
      (∀ id ∈ markers, id ∈ cut.members ∧ graph.isMarker id = true) →
      List.Forall₂ (StagePort.StandsFor copied.origins) (stagePorts copied.origins markers first)
        markers.toList := fun inside =>
    standsFor_stagePorts fun marker member => part.sources ▸ (inside marker member).1
  exact ⟨part.wellFormed, part.copies, part.sources, part.alike, part.wired,
    standFor sound.inputs, standFor sound.outputs⟩

/-- A plan whose stages realize some cuts in order, under distinct identifiers. -/
structure Built (plan : Plan) (graph : Graph) (cuts : List StageCut) : Prop where
  realized : List.Forall₂ (fun stage cut => Stage.Realizes stage graph cut) plan.stages cuts
  distinctStages : plan.stageIds.Nodup
  stagesBelow : ∀ stage ∈ plan.stages, stage.id.index < plan.nextStage.index
  distinctPorts : (plan.stages.flatMap fun stage => stage.ports.map StagePort.id).Nodup
  portsBelow : ∀ stage ∈ plan.stages, ∀ port ∈ stage.ports, port.id.index < plan.nextPort.index

variable {plan : Plan} {graph : Graph} {cut : StageCut} {cuts : List StageCut}

theorem Built.start : Built {} graph [] where
  realized := .nil
  distinctStages := List.nodup_nil
  stagesBelow := by simp
  distinctPorts := List.nodup_nil
  portsBelow := by simp

/-- A plan gets a stage when its cut passes the check and its members can be copied. -/
theorem addStage_eq_ok {copied : GraphCopy} (checked : cut.check graph = .ok ())
    (isCopy : graph.copyOf cut.members cut.keeps = .ok copied) :
    let stage := newStage cut copied plan.nextStage plan.nextPort
    plan.addStage graph cut = .ok {
      stages := plan.stages ++ [stage]
      nextStage := plan.nextStage.next
      nextPort := ⟨plan.nextPort.index + stage.ports.length⟩ } := by
  intro stage
  have counted : stage.ports.length = stage.inputs.length + stage.outputs.length := List.length_append
  rw [addStage, checked, isCopy, counted, ← Nat.add_assoc]
  rfl

/-- Only sound cuts become stages. -/
theorem sound_of_addStage {result : Plan} (added : plan.addStage graph cut = .ok result) :
    cut.Sound graph := by
  obtain ⟨_, checked, rest⟩ := bind_eq_ok_iff.1 added
  obtain ⟨inputs, outputs, apart⟩ := StageCut.check_eq_ok_iff.1 checked
  refine ⟨fun id member => ?_, inputs, outputs, apart⟩
  split at rest
  · cases rest
  · next copied isCopy => exact Graph.mem_operatorIds_of_copyOf isCopy member

/-- A sound cut becomes the last stage. -/
theorem Built.exists_addStage (built : plan.Built graph cuts) (wellFormed : graph.WellFormed)
    (sound : cut.Sound graph) :
    ∃ result, plan.addStage graph cut = .ok result ∧ result.Built graph (cuts ++ [cut]) := by
  obtain ⟨copied, isCopy, part⟩ := Graph.exists_copyOf wellFormed sound.members cut.keeps
  have newPorts := map_id_ports_newStage cut copied plan.nextStage plan.nextPort
  refine ⟨_, addStage_eq_ok sound.check isCopy, ?_, ?_, ?_, ?_, ?_⟩
  · exact List.rel_append built.realized (.cons (realizes_newStage sound part _ _) .nil)
  · rw [stageIds, List.map_append]
    refine List.nodup_append.2 ⟨built.distinctStages, List.nodup_singleton _, ?_⟩
    rintro old isOld new isNew rfl
    obtain ⟨stage, member, rfl⟩ := List.mem_map.1 isOld
    have below := built.stagesBelow stage member
    rw [List.mem_singleton.1 isNew] at below
    exact Nat.lt_irrefl _ below
  · intro stage member
    rcases List.mem_append.1 member with old | new
    · exact Nat.lt_succ_of_lt (built.stagesBelow stage old)
    · rw [List.mem_singleton.1 new]
      exact Nat.lt_succ_self _
  · rw [List.flatMap_append, List.flatMap_singleton, newPorts]
    refine List.nodup_append.2 ⟨built.distinctPorts, Id.nodup_run _ _, ?_⟩
    rintro old isOld new isNew rfl
    obtain ⟨stage, member, owns⟩ := List.mem_flatMap.1 isOld
    obtain ⟨port, isPort, rfl⟩ := List.mem_map.1 owns
    have below := built.portsBelow stage member port isPort
    have bounds := Id.bounds_of_mem_run isNew
    omega
  · intro stage member port isPort
    rcases List.mem_append.1 member with old | new
    · exact Nat.lt_add_right _ (built.portsBelow stage old port isPort)
    · rw [List.mem_singleton.1 new] at isPort
      have isNew := List.mem_map_of_mem (f := StagePort.id) isPort
      rw [newPorts] at isNew
      exact (Id.bounds_of_mem_run isNew).2

/-- The stages of a built plan realize the cuts one by one. -/
theorem exists_foldlM_addStage (wellFormed : graph.WellFormed)
    (sound : ∀ cut ∈ cuts, StageCut.Sound cut graph) :
    ∃ plan : Plan, cuts.foldlM (fun (plan : Plan) cut => plan.addStage graph cut) {} = .ok plan ∧
      plan.Built graph cuts := by
  refine exists_foldlM _ cuts [] {} (fun passed plan => Built plan graph passed) .start ?_
  intro before cut after plan split built
  refine built.exists_addStage wellFormed (sound cut ?_)
  rw [split]
  exact List.mem_append_right _ List.mem_cons_self

end Plan

end StagePlanner
