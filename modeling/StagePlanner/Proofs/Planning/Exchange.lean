import StagePlanner.Description
import StagePlanner.Proofs.Annotation.Decoration
import StagePlanner.Proofs.Planning.Staging
import StagePlanner.Proofs.Preparation.Readiness

/-!
# Exchanges fit together

Both ends of a connection between stages are markers of one kind for the same data, so what is
described at the two ends fits together: an output that is moved, shuffled or broadcast is read as
such, with the same partition keys (`AnnotatedPlan.Fits`). Everything for which a port stands is a
marker like its own, so no output serves two aggregations, or an aggregation and a plain shuffle.
-/

namespace StagePlanner

/-! ### Roles of ports -/

namespace Stage

variable {stage : Stage} {port : StagePort}

theorem requireMarker_eq_ok {marker : Marker} :
    stage.requireMarker port = .ok marker ↔ stage.marker? port = some marker := by
  rw [requireMarker]
  cases stage.marker? port with
  | none => exact ⟨nofun, nofun⟩
  | some found => rw [Except.ok.injEq, Option.some.injEq]

/-- The role of an input is that of its marker and of the data that cross it. -/
theorem inputRole_eq_ok {role : InputRole} :
    stage.inputRole port = .ok role ↔ ∃ marker, stage.marker? port = some marker ∧
      stage.inputDistribution marker = .ok role.distribution ∧ role.dataType = stage.dataType port ∧
        role.partition = (stage.crossing? port).bind Crossing.group := by
  rw [inputRole, bind_eq_ok_iff]
  simp only [bind_eq_ok_iff, requireMarker_eq_ok]
  constructor
  · rintro ⟨marker, isMarker, distribution, distributed, same⟩
    cases same
    exact ⟨marker, isMarker, distributed, rfl, rfl⟩
  · rintro ⟨marker, isMarker, distributed, type, partition⟩
    exact ⟨marker, isMarker, role.distribution, distributed, by rw [← type, ← partition]; rfl⟩

/-- The role of an output is that of its marker and of the data that cross it. -/
theorem outputRole_eq_ok {role : OutputRole} :
    stage.outputRole port = .ok role ↔ ∃ marker, stage.marker? port = some marker ∧
      stage.outputDistribution role.aggregation.isSome marker = .ok role.distribution ∧
        role.dataType = stage.dataType port ∧
        role.partition = (stage.crossing? port).bind Crossing.group ∧
        role.aggregation = (stage.crossing? port).bind Crossing.aggregation := by
  rw [outputRole, bind_eq_ok_iff]
  simp only [bind_eq_ok_iff, requireMarker_eq_ok]
  constructor
  · rintro ⟨marker, isMarker, distribution, distributed, same⟩
    cases same
    exact ⟨marker, isMarker, distributed, rfl, rfl, rfl⟩
  · rintro ⟨marker, isMarker, distributed, type, partition, aggregation⟩
    exact ⟨marker, isMarker, role.distribution, aggregation ▸ distributed,
      by rw [← type, ← partition, ← aggregation]; rfl⟩

end Stage

/-! ### Exchanges -/

/-- How data that leave a stage in one way enter another stage. -/
inductive DataExchange.Fits : DataExchange → DataExchange → Prop
  | move : Fits .move .move
  | shuffle : Fits .shuffle .shuffle
  | aggregate : Fits .aggregate .shuffle
  | broadcast : Fits .broadcast .broadcast

/-- What is written through a marker in one stage fits what is read through such a marker in another
stage. -/
theorem DataExchange.fits_of_distributions {producer consumer : Stage} {marker : Marker}
    {aggregated : Bool} {written : OutputDistribution} {read : InputDistribution}
    (isWritten : producer.outputDistribution aggregated marker = .ok written)
    (isRead : consumer.inputDistribution marker = .ok read) :
    DataExchange.Fits (.ofOutput (some written)) (.ofInput (some read)) := by
  cases marker with
  | begin => cases isWritten
  | finish => cases isRead
  | checkpoint =>
    cases isWritten
    cases isRead
    exact .move
  | broadcast =>
    cases isWritten
    cases isRead
    exact .broadcast
  | gather =>
    cases isRead
    cases aggregated <;> cases isWritten
    · exact .shuffle
    · exact .aggregate

/-- The two ends of a connection are ports of the plan and markers of one kind for the same data, and
their descriptions fit together. -/
structure AnnotatedPlan.Fits {ν : Type} (annotated : AnnotatedPlan ν) (connection : Connection)
    (producer consumer : Stage) (output input : StagePort) : Prop where
  isProducer : annotated.plan.stage? connection.source.stage = some producer
  isOutput : producer.output? connection.source.port = some output
  isConsumer : annotated.plan.stage? connection.target.stage = some consumer
  isInput : consumer.input? connection.target.port = some input
  marker : producer.marker? output = consumer.marker? input
  crossing : producer.crossing? output = consumer.crossing? input
  exchange : (annotated.describeOutput output).exchange.Fits (annotated.describeInput input).exchange
  partition : (annotated.describeOutput output).partition = (annotated.describeInput input).partition
  /-- Data are aggregated as the marker that is read says. -/
  aggregation : (annotated.describeOutput output).aggregation =
    (consumer.crossing? input).bind Crossing.aggregation

namespace Planner

variable {ν : Type} [Volume ν] (planner : Planner ν) {document : Document} {named : NamedGraph}
  {annotated : AnnotatedPlan ν} {prepared : Graph}

/-- The notes about a plan that was made tell the roles of its ports. -/
theorem tellsRoles_of_planning (described : document.build = .ok named)
    (tame : planner.simplifier.Tame) (planning : planner.Planning named.graph annotated prepared) :
    annotated.notes.TellsRoles annotated.plan := by
  obtain ⟨staging⟩ := planner.exists_staging described tame planning
  obtain ⟨order, isOrder⟩ := Plan.exists_order staging.circuitless
  obtain ⟨roles, isRoles⟩ := planner.exists_roles_of_decorate planning.isDecorated
  obtain ⟨notes, isNotes, tells⟩ :=
    planner.decorate_succeeds staging.sound staging.distinctPorts isOrder isRoles {}
  obtain rfl : notes = annotated.notes :=
    congrArg Prod.snd (isNotes.symm.trans planning.isDecorated)
  exact tells

/-- The two ends of every connection fit together, and all that a port stands for is a marker of the
kind that it is, for the same data. -/
theorem plan_fits (described : document.build = .ok named) (tame : planner.simplifier.Tame)
    (succeeds : planner.plan.apply named.graph = (.ok annotated, prepared)) :
    (∀ connection ∈ annotated.plan.connections, ∃ producer consumer output input,
      annotated.Fits connection producer consumer output input) ∧
    ∀ stage ∈ annotated.plan.stages, ∀ port ∈ stage.ports, ∀ origin ∈ port.origins,
      ∃ operator, prepared.operator? origin = some operator ∧
        operator.marker? = stage.marker? port ∧ operator.traits.crossing = stage.crossing? port := by
  have planning := planner.exists_planning succeeds
  obtain ⟨report, isPrepared⟩ := planning.isPrepared
  obtain ⟨-, identified⟩ := planner.regular_of_prepare described tame isPrepared
  obtain ⟨staging⟩ := planner.exists_staging described tame planning
  have agrees := staging.agrees identified
  have tells := planner.tellsRoles_of_planning described tame planning
  refine ⟨fun connection isConnection => ?_, fun stage isStage port isPort origin isOrigin => ?_⟩
  · obtain ⟨producer, isProducer, output, isOutput, consumer, isConsumer, input, isInput, meets, rfl⟩ :=
      Plan.mem_connections.1 isConnection
    have same := agrees.exchange?_eq isProducer isConsumer isOutput isInput meets
    have sameMarker : producer.marker? output = consumer.marker? input := by
      rw [Stage.marker?_eq_exchange?, same, ← Stage.marker?_eq_exchange?]
    have sameCrossing : producer.crossing? output = consumer.crossing? input := by
      rw [Stage.crossing?_eq_exchange?, same, ← Stage.crossing?_eq_exchange?]
    obtain ⟨written, isWritten, noted⟩ := tells.outputs producer isProducer output isOutput
    obtain ⟨read, isRead, alsoNoted⟩ := tells.inputs consumer isConsumer input isInput
    obtain ⟨marker, isMarker, writes, -, writtenBy, aggregatedBy⟩ := Stage.outputRole_eq_ok.1 isWritten
    obtain ⟨other, isOther, reads, -, readBy⟩ := Stage.inputRole_eq_ok.1 isRead
    obtain rfl : marker = other := Option.some.inj (isMarker.symm.trans (sameMarker.trans isOther))
    refine ⟨producer, consumer, output, input, ?_, ?_, ?_, ?_, sameMarker, sameCrossing, ?_, ?_, ?_⟩
    · exact (Plan.stage?_eq_some_iff staging.sound.distinct).2 ⟨isProducer, rfl⟩
    · exact (staging.sound.stages producer isProducer).proper.output?_eq_some_iff.2 ⟨isOutput, rfl⟩
    · exact (Plan.stage?_eq_some_iff staging.sound.distinct).2 ⟨isConsumer, rfl⟩
    · exact (staging.sound.stages consumer isConsumer).proper.input?_eq_some_iff.2 ⟨isInput, rfl⟩
    · simp only [AnnotatedPlan.describeOutput, AnnotatedPlan.describeInput, noted, alsoNoted]
      exact DataExchange.fits_of_distributions writes reads
    · simp only [AnnotatedPlan.describeOutput, AnnotatedPlan.describeInput, noted, alsoNoted,
        Option.bind_some, writtenBy, readBy, sameCrossing]
    · simp only [AnnotatedPlan.describeOutput, noted, Option.bind_some, aggregatedBy, sameCrossing]
  · have same := agrees.ports stage isStage port isPort origin isOrigin
    obtain ⟨operator, isOperator, -⟩ := (staging.sound.stages stage isStage).exists_operator isPort
    rw [Stage.exchange?, Stage.operator?, isOperator] at same
    obtain ⟨original, isOriginal, alike⟩ := Option.map_eq_some_iff.1 same
    refine ⟨original, isOriginal, ?_, ?_⟩
    · rw [Stage.marker?, Stage.operator?, isOperator]
      exact congrArg Prod.fst alike
    · rw [Stage.crossing?, Stage.operator?, isOperator]
      exact congrArg Prod.snd alike

/-- The plan of the sample in which sales are joined has two connections. -/
theorem plan_fits_joinSample : ∃ named annotated prepared, joinSample.build = .ok named ∧
    ({ config := .standard } : Planner Nat).plan.apply named.graph = (.ok annotated, prepared) ∧
    annotated.plan.connections.size = 2 ∧
    ∀ connection ∈ annotated.plan.connections, ∃ producer consumer output input,
      annotated.Fits connection producer consumer output input := by
  obtain ⟨named, described⟩ := exists_of_isOk (by decide +kernel : joinSample.build.isOk = true)
  have computed : (joinSample.build >>= fun named =>
      (({ config := .standard } : Planner Nat).plan.apply named.graph).1.map fun annotated =>
        annotated.plan.connections.size).toOption = some 2 := by
    simp only [plan, planPrepared, stage, Plan.groups_eq_groupsSoon]
    decide +kernel
  rw [described] at computed
  obtain ⟨annotated, isPlanned, two⟩ := exists_of_map_toOption computed
  exact ⟨named, annotated, _, described, Prod.ext isPlanned rfl, two,
    (plan_fits _ described (Simplifier.tame_ofRules _) (Prod.ext isPlanned rfl)).1⟩

end Planner

end StagePlanner
