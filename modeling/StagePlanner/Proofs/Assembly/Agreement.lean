import StagePlanner.Proofs.Assembly.Descent
import StagePlanner.Stage.Role

/-!
# Ports agree with their origins

A port keeps one marker of its own while it comes to stand for many markers of the prepared graph.
All of them are markers of the kind of its own one, and the same data cross them (`Plan.Agrees`).
Ports are only merged when their keys are equal, and equal keys mean equal markers and data unless
they are of one operator (`Stage.Sound.exchange?_eq`); what takes over from a dissolved output is fed
by checkpoints like it. Hence the two ends of a connection agree.
-/

namespace StagePlanner

open Relation

/-- The kind of marker that an operator is, and the data that cross it. -/
def Operator.exchange (operator : Operator) : Option Marker × Option Crossing :=
  (operator.marker?, operator.traits.crossing)

/-- The kind of marker that a port is, and the data that cross it. -/
def Stage.exchange? (stage : Stage) (port : StagePort) : Option (Option Marker × Option Crossing) :=
  (stage.operator? port).map Operator.exchange

theorem Stage.marker?_eq_exchange? {stage : Stage} {port : StagePort} :
    stage.marker? port = (stage.exchange? port).bind Prod.fst := by
  rw [exchange?, marker?]
  cases stage.operator? port <;> rfl

theorem Stage.crossing?_eq_exchange? {stage : Stage} {port : StagePort} :
    stage.crossing? port = (stage.exchange? port).bind Prod.snd := by
  rw [exchange?, crossing?]
  cases stage.operator? port <;> rfl

/-- What comparing markers relies on: no serial number is given twice, and checkpoints have no
identity of the data that cross them. -/
structure Graph.Identified (graph : Graph) : Prop where
  serials : ∀ left ∈ graph.operators, ∀ right ∈ graph.operators, left.serial = right.serial →
    left = right
  checkpoints : ∀ operator ∈ graph.operators, operator.marker? = some .checkpoint →
    operator.traits.crossing = none

theorem Graph.Identified.of_subset {graph result : Graph} (identified : graph.Identified)
    (fewer : ∀ operator ∈ result.operators, operator ∈ graph.operators) : result.Identified where
  serials left isLeft right isRight := identified.serials left (fewer left isLeft) right (fewer right isRight)
  checkpoints operator member := identified.checkpoints operator (fewer operator member)

/-! ### Keys -/

/-- What the key of an operator tells about it. -/
inductive EquivalenceKey.Describes (operator : Operator) : EquivalenceKey → Prop
  | serial : Describes operator (.serial operator.serial)
  | dataType (isCheckpoint : operator.marker? = some .checkpoint) (type : DataType) :
      Describes operator (.dataType type)
  | crossing {marker : Marker} {crossing : Crossing} (isMarker : operator.marker? = some marker)
      (crosses : operator.traits.crossing = some crossing) :
      Describes operator (.crossing marker crossing)

theorem EquivalenceKey.describes_content {operator : Operator} {isOutput : Bool}
    {key : EquivalenceKey} (found : contentKey? operator isOutput = some key) :
    key.Describes operator := by
  have crosses : ∀ marker, operator.marker? = some marker →
      operator.traits.crossing.map (EquivalenceKey.crossing marker) = some key →
        key.Describes operator := by
    intro marker isMarker found
    obtain ⟨crossing, crosses, rfl⟩ := Option.map_eq_some_iff.1 found
    exact .crossing isMarker crosses
  rw [contentKey?] at found
  split at found
  · next isCheckpoint =>
    obtain ⟨port, -, rfl⟩ := Option.map_eq_some_iff.1 found
    exact .dataType isCheckpoint port.dataType
  · next isGather =>
    split at found
    · exact crosses .gather isGather found
    · cases found
  · next isBroadcast => exact crosses .broadcast isBroadcast found
  · cases found

theorem EquivalenceKey.describes_key (equivalence : Equivalence) {stage : Stage} {id : OperatorId}
    {operator : Operator} (found : stage.graph.operator? id = some operator) :
    (equivalence.key stage id).Describes operator := by
  rw [Equivalence.key, found]
  cases equivalence with
  | bySerial => exact .serial
  | byContent =>
    dsimp only
    split
    · cases content : contentKey? operator (stage.outputAt? id).isSome with
      | none => exact .serial
      | some key => exact describes_content content
    · exact .serial

/-- Different ports with equal keys are markers of one kind for the same data. -/
theorem Stage.Sound.exchange?_eq {stage : Stage} (sound : stage.Sound)
    (identified : stage.graph.Identified) {equivalence : Equivalence} {left right : StagePort}
    (isLeft : left ∈ stage.ports) (isRight : right ∈ stage.ports) (differ : left ≠ right)
    (equivalent : equivalence.key stage left.marker = equivalence.key stage right.marker) :
    stage.exchange? left = stage.exchange? right := by
  obtain ⟨first, firstFound, isFirst, firstId, -⟩ := sound.exists_operator isLeft
  obtain ⟨second, secondFound, isSecond, secondId, -⟩ := sound.exists_operator isRight
  have firstKey := EquivalenceKey.describes_key equivalence firstFound
  have secondKey := EquivalenceKey.describes_key equivalence secondFound
  have same : first.exchange = second.exchange := by
    rw [equivalent] at firstKey
    generalize equivalence.key stage right.marker = key at firstKey secondKey
    rw [Operator.exchange, Operator.exchange]
    cases firstKey with
    | serial =>
      -- One serial number means one operator, and no two ports share a marker.
      generalize sameSerial : first.serial = serial at secondKey
      cases secondKey
      obtain rfl := identified.serials first isFirst second isSecond sameSerial
      exact absurd (sound.proper.port_unique_of_marker isLeft isRight (firstId.symm.trans secondId)) differ
    | dataType isCheckpoint =>
      cases secondKey with
      | dataType alsoCheckpoint =>
        rw [isCheckpoint, alsoCheckpoint, identified.checkpoints first isFirst isCheckpoint,
          identified.checkpoints second isSecond alsoCheckpoint]
    | crossing isMarker crosses =>
      cases secondKey with
      | crossing alsoMarker alsoCrosses => rw [isMarker, crosses, alsoMarker, alsoCrosses]
  rw [exchange?, exchange?, operator?, operator?, firstFound, secondFound, Option.map_some,
    Option.map_some, same]

/-- A port that is left is the marker that it was. -/
theorem Stage.Derives.exchange?_eq {result stage : Stage} (derives : result.Derives stage)
    (resultSound : result.Sound) (sound : stage.Sound) {port former : StagePort}
    (isPort : port ∈ result.ports) (same : former.marker = port.marker) :
    result.exchange? port = stage.exchange? former :=
  congrArg (Option.map Operator.exchange) (derives.operator?_port resultSound sound isPort same)

/-! ### Plans -/

/-- The origins of every port are markers of its kind for the same data. -/
structure Plan.Agrees (plan : Plan) (graph : Graph) : Prop where
  identified : ∀ stage ∈ plan.stages, stage.graph.Identified
  ports : ∀ stage ∈ plan.stages, ∀ port ∈ stage.ports, ∀ origin ∈ port.origins,
    (graph.operator? origin).map Operator.exchange = stage.exchange? port

namespace Plan

variable {plan result : Plan} {graph : Graph}

/-- Both ends of a connection agree. -/
theorem Agrees.exchange?_eq (agrees : plan.Agrees graph) {producer consumer : Stage}
    (isProducer : producer ∈ plan.stages) (isConsumer : consumer ∈ plan.stages)
    {output input : StagePort} (isOutput : output ∈ producer.outputs)
    (isInput : input ∈ consumer.inputs) (meets : output.Meets input) :
    producer.exchange? output = consumer.exchange? input := by
  obtain ⟨origin, inOutput, inInput⟩ := meets
  exact (agrees.ports producer isProducer output (List.mem_append_right _ isOutput) origin inOutput).symm.trans
    (agrees.ports consumer isConsumer input (List.mem_append_left _ isInput) origin inInput)

/-- A plan agrees when its ports descend from ports that do, and every origin of a port is that of a
port like it. -/
theorem Agrees.of_descends (agrees : plan.Agrees graph) (descends : result.Descends plan)
    (ports : ∀ new ∈ result.stages, ∀ port ∈ new.ports, ∀ origin ∈ port.origins,
      ∃ old ∈ plan.stages, ∃ former ∈ old.ports, origin ∈ former.origins ∧
        new.exchange? port = old.exchange? former) : result.Agrees graph where
  identified new isNew := by
    obtain ⟨old, isOld, left⟩ := descends new isNew
    exact (agrees.identified old isOld).of_subset left.operators
  ports new isNew port isPort origin isOrigin := by
    obtain ⟨old, isOld, former, isFormer, wasOrigin, same⟩ := ports new isNew port isPort origin isOrigin
    rw [agrees.ports old isOld former isFormer origin wasOrigin, same]

theorem Agrees.trim {needed : Stage → StagePort → Prop} (agrees : plan.Agrees graph)
    (sound : plan.Sound) (descends : result.Descends plan) (trims : result.Trims plan needed) :
    result.Agrees graph := by
  refine agrees.of_descends descends fun new isNew port isPort origin isOrigin => ?_
  obtain ⟨old, isOld, stays, restricts, -⟩ := trims.stages new isNew
  have resultSound := restricts.sound (sound.stages old isOld)
  refine ⟨old, isOld, port, (restricts.mem_ports.1 isPort).1, isOrigin, ?_⟩
  exact restricts.derives.exchange?_eq resultSound (sound.stages old isOld) isPort rfl

/-- Where one of two ports with equal keys is merged into the other one, the plan agrees if the other
ports stay. -/
theorem Agrees.merge (agrees : plan.Agrees graph) (sound : plan.Sound) (descends : result.Descends plan)
    {stage : Stage} {kept absorbed : StagePort} (isStage : stage ∈ plan.stages)
    (isKept : kept ∈ stage.ports) (isAbsorbed : absorbed ∈ stage.ports)
    (same : stage.exchange? kept = stage.exchange? absorbed)
    (changes : result.ChangesOnly plan stage fun merged => merged.Sound ∧ merged.Derives stage ∧
      ∀ port ∈ merged.ports, port ∈ stage.ports ∨ port = kept.widened absorbed.origins) :
    result.Agrees graph := by
  refine agrees.of_descends descends fun new isNew port isPort origin isOrigin => ?_
  obtain ⟨old, isOld, ⟨rfl, newSound, derives, ports⟩ | ⟨-, rfl⟩⟩ := exists_partner changes isNew
  · have oldSound := sound.stages old isOld
    rcases ports port isPort with isFormer | rfl
    · exact ⟨old, isOld, port, isFormer, isOrigin, derives.exchange?_eq newSound oldSound isPort rfl⟩
    · have stays : new.exchange? (kept.widened absorbed.origins) = old.exchange? kept :=
        derives.exchange?_eq newSound oldSound isPort rfl
      rcases OrderedSet.mem_union.1 isOrigin with ofKept | ofAbsorbed
      · exact ⟨old, isOld, kept, isKept, ofKept, stays⟩
      · exact ⟨old, isOld, absorbed, isAbsorbed, ofAbsorbed, stays.trans same⟩
  · exact ⟨new, isOld, port, isPort, isOrigin, rfl⟩

/-- A checkpoint has no identity of the data that cross it. -/
theorem Agrees.exchange?_checkpoint (agrees : plan.Agrees graph) (sound : plan.Sound) {stage : Stage}
    (isStage : stage ∈ plan.stages) {port : StagePort}
    (isCheckpoint : stage.marker? port = some .checkpoint) :
    stage.exchange? port = some (some .checkpoint, none) := by
  obtain ⟨operator, found, isMarker⟩ := Option.bind_eq_some_iff.1 isCheckpoint
  obtain ⟨member, -⟩ := (sound.stages stage isStage).wellFormed.operator?_eq_some_iff.1 found
  rw [Stage.exchange?, found, Option.map_some, Operator.exchange, isMarker,
    (agrees.identified stage isStage).checkpoints operator member isMarker]

/-- The outputs that take over from a checkpoint feed a checkpoint already. -/
theorem Agrees.dissolve (agrees : plan.Agrees graph) (sound : plan.Sound)
    (descends : result.Descends plan) {found : Stage} {output input : StagePort}
    (isFound : found ∈ plan.stages) (isOutput : output ∈ found.outputs) (isInput : input ∈ found.inputs)
    (areCheckpoints : found.marker? output = some .checkpoint ∧
      found.marker? input = some .checkpoint)
    (changes : List.Forall₂ (fun old new => new.TakesOver old found output input) plan.stages
      result.stages) : result.Agrees graph := by
  refine agrees.of_descends descends fun new isNew port isPort origin isOrigin => ?_
  obtain ⟨old, isOld, takesOver⟩ := exists_partner changes isNew
  have oldSound := sound.stages old isOld
  have stays : ∀ former : StagePort, former.marker = port.marker →
      new.exchange? port = old.exchange? former := fun former same =>
    takesOver.derives.exchange?_eq takesOver.sound oldSound isPort same
  rcases List.mem_append.1 isPort with isNewInput | isNewOutput
  · exact ⟨old, isOld, port, List.mem_append_left _ ((takesOver.inputs port).1 isNewInput), isOrigin,
      stays port rfl⟩
  obtain ⟨former, isFormer, -, rfl⟩ := (takesOver.outputs port).1 isNewOutput
  have place := congrArg Prod.snd (former.place_takingOver output input).symm
  rcases StagePort.mem_origins_takingOver.1 isOrigin with wasOrigin | ⟨meets, ofOutput⟩
  · exact ⟨old, isOld, former, List.mem_append_right _ isFormer, wasOrigin, stays former place⟩
  · refine ⟨found, isFound, output, List.mem_append_right _ isOutput, ofOutput, (stays former place).trans ?_⟩
    rw [agrees.exchange?_eq isOld isFound isFormer isInput meets,
      agrees.exchange?_checkpoint sound isFound areCheckpoints.1,
      agrees.exchange?_checkpoint sound isFound areCheckpoints.2]

/-- Steps of assembly keep ports in agreement with their origins. -/
theorem Step.agrees {equivalence : Equivalence} (step : Step equivalence plan result)
    (sound : plan.Sound) (agrees : plan.Agrees graph) : result.Agrees graph := by
  have descends := step.descends
  cases step with
  | trim trims => exact agrees.trim sound descends trims
  | @mergeOutputs stage kept absorbed isStage isKept isAbsorbed differ equivalent _ changes =>
    have keptPort := List.mem_append_right stage.inputs isKept
    have absorbedPort := List.mem_append_right stage.inputs isAbsorbed
    refine agrees.merge sound descends isStage keptPort absorbedPort
      ((sound.stages stage isStage).exchange?_eq (agrees.identified stage isStage) keptPort absorbedPort
        differ equivalent) (changes.imp fun _ _ => Or.imp_left (And.imp_right ?_))
    rintro ⟨mergedSound, merges⟩
    refine ⟨mergedSound, merges.derives, fun port isPort => ?_⟩
    rcases List.mem_append.1 isPort with isInput | isOutput
    · exact .inl (List.mem_append_left _ ((merges.inputs port).1 isInput))
    · exact ((merges.outputs port).1 isOutput).imp_left fun old => List.mem_append_right _ old.1
  | @mergeInputs stage kept absorbed isStage isKept isAbsorbed differ equivalent _ changes =>
    have keptPort := List.mem_append_left stage.outputs isKept
    have absorbedPort := List.mem_append_left stage.outputs isAbsorbed
    refine agrees.merge sound descends isStage keptPort absorbedPort
      ((sound.stages stage isStage).exchange?_eq (agrees.identified stage isStage) keptPort absorbedPort
        differ equivalent) (changes.imp fun _ _ => Or.imp_left (And.imp_right ?_))
    rintro ⟨mergedSound, merges⟩
    refine ⟨mergedSound, merges.derives, fun port isPort => ?_⟩
    rcases List.mem_append.1 isPort with isInput | isOutput
    · exact ((merges.inputs port).1 isInput).imp_left fun old => List.mem_append_left _ old.1
    · exact .inl (List.mem_append_right _ ((merges.outputs port).1 isOutput))
  | dissolve isFound isOutput isInput areCheckpoints _ changes =>
    exact agrees.dissolve sound descends isFound isOutput isInput areCheckpoints changes

/-- So do all steps together. -/
theorem agrees_of_steps {equivalence : Equivalence} (sound : plan.Sound) (agrees : plan.Agrees graph)
    (steps : ReflTransGen (Step equivalence) plan result) : result.Agrees graph := by
  induction steps with
  | refl => exact agrees
  | tail before last ih =>
    exact last.agrees (sound_of_steps (fun _ _ sound step => step.sound sound) sound before) ih

theorem Agrees.of_finished (agrees : plan.Agrees graph) (sound : plan.Sound)
    (same : result.stages.Perm plan.tidied.stages) : result.Agrees graph := by
  refine agrees.of_descends (descends_of_finished sound same) fun new isNew port isPort origin isOrigin => ?_
  have isTidied := same.mem_iff.1 isNew
  obtain ⟨old, isOld, rfl⟩ := List.mem_map.1 isTidied
  exact ⟨old, isOld, port, isPort, isOrigin, rfl⟩

end Plan

/-! ### Merged plans -/

/-- Where a stage realizes a cut, a port is a marker like the one for which it stands. -/
theorem Stage.Realizes.exchange?_eq {stage : Stage} {graph : Graph} {cut : StageCut}
    (realizes : stage.Realizes graph cut) (wellFormed : graph.WellFormed) {port : StagePort}
    (isPort : port ∈ stage.ports) {origin : OperatorId} (isOrigin : origin ∈ port.origins) :
    (graph.operator? origin).map Operator.exchange = stage.exchange? port := by
  obtain ⟨marker, origins, isPair⟩ := realizes.exists_origin isPort
  rw [origins, OrderedSet.mem_singleton] at isOrigin
  obtain ⟨copy, isCopy, original, isOriginal, copyId, originalId, alike⟩ := realizes.alike _ isPair
  rw [isOrigin, Stage.exchange?, Stage.operator?,
    realizes.wellFormed.operator?_eq_some_iff.2 ⟨isCopy, copyId⟩,
    wellFormed.operator?_eq_some_iff.2 ⟨isOriginal, originalId⟩]
  exact congrArg (fun blueprint : Blueprint =>
    some (blueprint.kind.marker?, blueprint.traits.crossing)) alike.symm

namespace Merging

variable {graph : Graph} {primitive merged : Plan} {groups : List StageGroup}
  {level : OperatorId → Nat} {cuts mergedCuts : List StageCut}
  (merging : Merging graph primitive groups level cuts merged mergedCuts)

include merging

/-- In a merged plan a port is a copy of the one marker for which it stands. -/
theorem agrees (identified : graph.Identified) : merged.Agrees graph where
  identified stage isStage := by
    obtain ⟨cut, -, realizes⟩ := exists_partner_of_mem merging.mergedPlan.built.realized isStage
    have original : ∀ operator ∈ stage.graph.operators, ∃ original ∈ graph.operators,
        ⟨operator.id, original.id⟩ ∈ stage.provenance ∧
          operator.blueprint = original.blueprint := by
      intro operator member
      obtain ⟨pair, isPair, isCopy⟩ := realizes.exists_source member
      obtain ⟨copy, isCopied, source, isSource, copyId, sourceId, alike⟩ := realizes.alike pair isPair
      obtain rfl := realizes.wellFormed.operator_unique isCopied member (copyId.trans isCopy)
      exact ⟨source, isSource, by rwa [copyId, sourceId], alike⟩
    refine ⟨fun left isLeft right isRight same => ?_, fun operator member isCheckpoint => ?_⟩
    · obtain ⟨first, isFirst, fromFirst, firstAlike⟩ := original left isLeft
      obtain ⟨second, isSecond, fromSecond, secondAlike⟩ := original right isRight
      have firstSerial := congrArg Blueprint.serial firstAlike
      have secondSerial := congrArg Blueprint.serial secondAlike
      obtain rfl := identified.serials first isFirst second isSecond (Option.some.inj
        (firstSerial.symm.trans ((congrArg some same).trans secondSerial)))
      have samePair := realizes.pair_unique_of_source fromFirst fromSecond rfl
      exact realizes.wellFormed.operator_unique isLeft isRight (congrArg CopiedPair.copy samePair)
    · obtain ⟨source, isSource, -, alike⟩ := original operator member
      have sameKind := congrArg (fun blueprint : Blueprint => blueprint.kind.marker?) alike
      have sameTraits := congrArg (fun blueprint : Blueprint => blueprint.traits.crossing) alike
      exact sameTraits.trans (identified.checkpoints source isSource (sameKind.symm.trans isCheckpoint))
  ports stage isStage port isPort origin isOrigin := by
    obtain ⟨cut, -, realizes⟩ := exists_partner_of_mem merging.mergedPlan.built.realized isStage
    exact realizes.exchange?_eq merging.wellFormed isPort isOrigin

end Merging

end StagePlanner
