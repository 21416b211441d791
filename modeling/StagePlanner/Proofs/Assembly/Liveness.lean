import StagePlanner.Proofs.Assembly.Pass

/-!
# Operators that contribute to outputs

An operator of a stage is live when it reaches an output of the stage. Every round of assembly ends
by pruning, so all operators of a settled plan that are no markers are live. No step brings an
operator back to life, and pruning keeps every live operator; so what a settled plan has left is in
every plan that was only pruned.
-/

namespace StagePlanner

open Relation

/-- Every operator of the stage that is no marker reaches an output. -/
def Stage.Lives (stage : Stage) : Prop :=
  ∀ operator ∈ stage.graph.operators, operator.isMarker = false → operator.id ∈ stage.live

def Plan.Lives (plan : Plan) : Prop := ∀ stage ∈ plan.stages, stage.Lives

namespace Stage

variable {result stage : Stage}

/-- A trimmed stage that has all outputs has all operators that are live. -/
theorem Trims.live (trims : result.Trims stage) (sound : stage.Sound)
    (outputs : ∀ output ∈ stage.outputs, output ∈ result.outputs) {operator : Operator}
    (member : operator ∈ stage.graph.operators) (live : operator.id ∈ stage.live) :
    operator ∈ result.graph.operators ∧ operator.id ∈ result.live := by
  obtain ⟨stays, restricts, closed⟩ := trims
  obtain ⟨output, isOutput, way⟩ := sound.proper.mem_live.1 live
  have stillOutput := outputs output isOutput
  have outputStays := ((restricts.mem_outputs output).1 stillOutput).2
  have kept : ∀ id, ReflTransGen stage.graph.Feeds id output.marker →
      stays id ∧ ReflTransGen result.graph.Feeds id output.marker := by
    intro id way
    induction way using ReflTransGen.head_induction_on with
    | refl => exact ⟨outputStays, .refl⟩
    | head first _ ih =>
      have stay := closed _ _ first ih.1
      obtain ⟨exit, entry, wired⟩ := first
      exact ⟨stay, ih.2.head ⟨exit, entry, (restricts.graph.wired _ _).2 ⟨wired, stay, ih.1⟩⟩⟩
  obtain ⟨stay, stillWay⟩ := kept operator.id way
  exact ⟨(restricts.graph.operators operator).2 ⟨member, stay⟩,
    (restricts.sound sound).proper.mem_live.2 ⟨output, stillOutput, stillWay⟩⟩

theorem Sound.live_of_withoutDead (sound : stage.Sound) {operator : Operator}
    (member : operator ∈ stage.withoutDead.graph.operators) (noMarker : operator.isMarker = false) :
    operator.id ∈ stage.live := by
  have distinct : stage.graph.operators.Nodup := sound.wellFormed.nodup_operatorIds.of_map
  have restricts := sound.wellFormed.restricts_foldl_without
    (fun operator isDead => (sound.proper.mem_deadOperators.1 isDead).1)
    (distinct.filter _ : stage.deadOperators.Nodup)
  obtain ⟨wasThere, stays⟩ := (restricts.operators operator).1 member
  by_contra notLive
  refine stays (List.mem_map_of_mem (sound.proper.mem_deadOperators.2 ⟨wasThere, notLive, ?_⟩))
  exact fun port isInput same =>
    sound.proper.id_ne_marker wasThere noMarker (List.mem_append_left _ isInput) same.symm

theorem Sound.live_output (sound : stage.Sound) {output : StagePort} (isOutput : output ∈ stage.outputs) :
    output.marker ∈ stage.live :=
  sound.proper.mem_live.2 ⟨output, isOutput, .refl⟩

/-- Operators with the wires and the outputs of a stage are live in it. -/
theorem Sound.live_of_feeds_of_outputs (sound : stage.Sound) (resultSound : result.Sound)
    (inside : OperatorId → Prop)
    (feeds : ∀ source target, result.graph.Feeds source target → inside source →
      (inside target ∧ stage.graph.Feeds source target) ∨ source ∈ stage.live)
    (outputs : ∀ output ∈ result.outputs, output.marker ∈ stage.live) {id : OperatorId}
    (isInside : inside id) (live : id ∈ result.live) : id ∈ stage.live := by
  obtain ⟨output, isOutput, way⟩ := resultSound.proper.mem_live.1 live
  induction way using ReflTransGen.head_induction_on with
  | refl => exact outputs output isOutput
  | head first rest ih =>
    rcases feeds _ _ first isInside with ⟨stillInside, wasFed⟩ | isLive
    · exact sound.proper.live_of_feeds wasFed
        (ih stillInside (resultSound.proper.mem_live.2 ⟨output, isOutput, rest⟩))
    · exact isLive

/-- What is left of a stage that is pruned, which has outputs: of the stage without its dead operators
the inputs go that feed nothing. -/
theorem Sound.exists_used (sound : stage.Sound) (pruned : stage.prune? = .ok (some result)) :
    (∃ stays, stage.withoutDead.Restricts stage stays) ∧
      result.Restricts stage.withoutDead
        (fun id => id ∉ stage.withoutDead.unusedInputs.map StagePort.marker) ∧
      result.Trims stage ∧ stage.outputs ≠ [] ∧ ∀ output ∈ stage.outputs, output ∈ result.outputs := by
  by_cases empty : stage.outputs = []
  · rw [prune?, empty] at pruned
    cases pruned
  obtain ⟨trimmed, isTrimmed, trims, outputs⟩ := sound.proper.exists_prune? empty
  obtain rfl : result = trimmed := Option.some.inj (Except.ok.inj (pruned.symm.trans isTrimmed))
  obtain ⟨stays, alive, -⟩ := sound.proper.exists_withoutDead
  obtain ⟨used, isUsed, restricts⟩ := (alive.sound sound).proper.exists_removeInputs
    (List.filter_sublist : stage.withoutDead.unusedInputs.Sublist stage.withoutDead.inputs)
  have alsoPruned : stage.prune? = .ok (some used) := by
    rw [prune?, if_neg (by simpa using empty)]
    exact congrArg (Except.map some) isUsed
  obtain rfl : used = result := Option.some.inj (Except.ok.inj (alsoPruned.symm.trans pruned))
  exact ⟨⟨stays, alive⟩, restricts, trims, empty, outputs⟩

/-- What is left of a pruned stage is live. -/
theorem Sound.lives_of_prune? (sound : stage.Sound) (pruned : stage.prune? = .ok (some result)) :
    result.Lives := by
  obtain ⟨⟨_, alive⟩, restricts, trims, -, outputs⟩ := sound.exists_used pruned
  intro operator member noMarker
  have aliveMember := ((restricts.graph.operators operator).1 member).1
  have wasThere := ((alive.graph.operators operator).1 aliveMember).1
  exact (trims.live sound outputs wasThere (sound.live_of_withoutDead aliveMember noMarker)).2

/-- A stage that writes, and whose inputs all feed something. -/
structure Busy (stage : Stage) : Prop where
  writes : stage.outputs ≠ []
  reads : ∀ input ∈ stage.inputs, ∃ id, stage.graph.Feeds input.marker id

/-- What is left of a pruned stage is busy. -/
theorem Sound.busy_of_prune? (sound : stage.Sound) (pruned : stage.prune? = .ok (some result)) :
    result.Busy := by
  obtain ⟨⟨_, alive⟩, restricts, -, nonempty, outputs⟩ := sound.exists_used pruned
  have aliveSound := alive.sound sound
  refine ⟨fun none => ?_, fun input isInput => ?_⟩
  · obtain ⟨output, isOutput⟩ := List.exists_mem_of_ne_nil _ nonempty
    exact List.not_mem_nil (none ▸ outputs output isOutput)
  · obtain ⟨wasInput, used⟩ := (restricts.mem_inputs input).1 isInput
    have isRead : ∃ target, target ∈ stage.withoutDead.graph.successors input.marker := by
      by_contra unread
      refine used (List.mem_map_of_mem (List.mem_filter.2 ⟨wasInput, OrderedSet.isEmpty_iff.2 ?_⟩))
      exact not_exists.1 unread
    obtain ⟨target, isTarget⟩ := isRead
    have feeds := (Graph.mem_successors aliveSound.wellFormed).1 isTarget
    -- What an input feeds is no input, so it is still there.
    have stays : target ∉ stage.withoutDead.unusedInputs.map StagePort.marker := by
      intro isUnused
      obtain ⟨other, isOther, rfl⟩ := List.mem_map.1 isUnused
      exact aliveSound.unfed other (List.mem_filter.1 isOther).1 _ feeds
    obtain ⟨exit, entry, wired⟩ := feeds
    exact ⟨target, exit, entry, (restricts.graph.wired _ _).2 ⟨wired, used, stays⟩⟩

end Stage

namespace Plan

variable {plan result : Plan}

/-- What pruned stages are like the stages of a pruned plan are like. -/
theorem Sound.of_prune (sound : plan.Sound) (pruned : plan.prune = .ok result) {property : Stage → Prop}
    (each : ∀ stage result : Stage, stage.Sound → stage.prune? = .ok (some result) → property result) :
    ∀ stage ∈ result.stages, property stage := by
  obtain ⟨results, stages, same⟩ := bind_eq_ok_iff.1 pruned
  cases same
  intro stage isStage
  obtain ⟨_, isResult, rfl⟩ := List.mem_filterMap.1 isStage
  obtain ⟨old, isOld, isPruned⟩ := exists_partner (mapM_eq_ok_iff.1 stages) isResult
  exact each old stage (sound.stages old isOld) isPruned

/-! ### Settled plans -/

/-- What a pass leaves of sound plans has a property. -/
def Leaves (property : Plan → Prop) (pass : Plan → Except Fault Plan) : Prop :=
  ∀ plan : Plan, plan.Sound → ∀ result, pass plan = .ok result → property result

section Leaves

variable {step : Plan → Plan → Prop}
  (keeps : ∀ plan result, plan.Sound → step plan result → result.Sound)
  {property : Plan → Prop} {pass next : Plan → Except Fault Plan}

include keeps

theorem Leaves.bind (first : Performs step pass) (later : Leaves property next) :
    Leaves property fun plan => pass plan >>= next := by
  intro plan sound result isResult
  obtain ⟨middle, isMiddle, before⟩ := first plan sound
  change pass plan >>= next = .ok result at isResult
  rw [isMiddle] at isResult
  exact later middle (sound_of_steps keeps sound before) result isResult

/-- What a pass leaves is left in the end when it is repeated, unless there are no stages at all. -/
theorem Leaves.settle (performs : Performs step pass) (leaves : Leaves property pass)
    (empty : ∀ plan : Plan, plan.stages = [] → property plan) : Leaves property (settle pass) := by
  have bounded : ∀ rounds (plan : Plan), plan.Sound → plan.weight ≤ rounds →
      ∀ result, settleFor pass rounds plan = .ok result → property result := by
    intro rounds
    induction rounds with
    | zero =>
      intro plan _ light result isResult
      cases isResult
      refine empty plan (List.length_eq_zero_iff.1 (Nat.le_zero.1 (le_trans ?_ light)))
      exact Nat.le_add_right _ _
    | succ more ih =>
      intro plan sound light result isResult
      obtain ⟨middle, isMiddle, before⟩ := performs plan sound
      rw [settleFor, isMiddle] at isResult
      change (if middle.weight < plan.weight then settleFor pass more middle else .ok middle) = _
        at isResult
      split at isResult
      · next lighter =>
        exact ih middle (sound_of_steps keeps sound before) (by omega) result isResult
      · cases isResult
        exact leaves plan sound _ isMiddle
  exact fun plan sound => bounded plan.weight plan sound (Nat.le_refl _)

end Leaves

/-- What pruned stages are like the stages of a plan are like that rounds of assembly settle. -/
theorem leaves_settle (passes : AssemblyPasses) (equivalence : Equivalence) {property : Stage → Prop}
    (each : ∀ stage result : Stage, stage.Sound → stage.prune? = .ok (some result) → property result) :
    Leaves (fun plan => ∀ stage ∈ plan.stages, property stage)
      (settle (assemblyRound passes equivalence)) := by
  refine .settle (step_sound equivalence) (performs_assemblyRound passes equivalence) ?_
    fun plan none stage isStage => ?_
  · exact round_of_last equivalence passes (fun plan sound _ pruned => sound.of_prune pruned each)
      fun first next performs => .bind (step_sound equivalence) performs
  · rw [none] at isStage
    cases isStage

/-- In a plan that rounds of assembly settle every operator that is no marker is live. -/
theorem lives_of_settle (passes : AssemblyPasses) (equivalence : Equivalence) :
    Leaves Lives (settle (assemblyRound passes equivalence)) :=
  leaves_settle passes equivalence fun _ _ sound => sound.lives_of_prune?

/-- All its stages are busy. -/
theorem busy_of_settle (passes : AssemblyPasses) (equivalence : Equivalence) :
    Leaves (fun plan => ∀ stage ∈ plan.stages, stage.Busy) (settle (assemblyRound passes equivalence)) :=
  leaves_settle passes equivalence fun _ _ sound => sound.busy_of_prune?

/-! ### Steps -/

/-- Every operator that is live in a stage of the first plan, and no marker, is live in a stage of the
second one. -/
def RevivesNothing (result plan : Plan) : Prop :=
  ∀ new ∈ result.stages, ∀ operator ∈ new.graph.operators, operator.isMarker = false →
    operator.id ∈ new.live → ∃ old ∈ plan.stages, new.id = old.id ∧
      operator ∈ old.graph.operators ∧ operator.id ∈ old.live

theorem RevivesNothing.trans {middle : Plan} (later : result.RevivesNothing middle)
    (earlier : middle.RevivesNothing plan) : result.RevivesNothing plan := by
  intro new isNew operator member noMarker live
  obtain ⟨between, isBetween, sameId, wasThere, wasLive⟩ := later new isNew operator member noMarker live
  obtain ⟨old, isOld, alsoSame, rest⟩ := earlier between isBetween operator wasThere noMarker wasLive
  exact ⟨old, isOld, sameId.trans alsoSame, rest⟩

theorem Trims.revivesNothing {needed : Stage → StagePort → Prop} (trims : result.Trims plan needed)
    (sound : plan.Sound) : result.RevivesNothing plan := by
  intro new isNew operator member _ live
  obtain ⟨old, isOld, _, restricts, -⟩ := trims.stages new isNew
  have oldSound := sound.stages old isOld
  refine ⟨old, isOld, restricts.id, ((restricts.graph.operators operator).1 member).1,
    oldSound.live_of_feeds_of_outputs (restricts.sound oldSound) (fun _ => True) ?_ ?_ trivial live⟩
  · rintro source target ⟨exit, entry, wired⟩ -
    exact .inl ⟨trivial, exit, entry, ((restricts.graph.wired _ _).1 wired).1⟩
  · exact fun output isOutput => oldSound.live_output (restricts.outputs.subset isOutput)

theorem revivesNothing_of_mergeOutputs (sound : plan.Sound) {stage : Stage} {kept absorbed : StagePort}
    (isKept : kept ∈ stage.outputs) (isAbsorbed : absorbed ∈ stage.outputs)
    (changes : result.ChangesOnly plan stage fun merged =>
      merged.Sound ∧ merged.MergesOutputs stage kept absorbed) : result.RevivesNothing plan := by
  intro new isNew operator member _ live
  obtain ⟨old, isOld, ⟨rfl, newSound, merges⟩ | ⟨-, rfl⟩⟩ := exists_partner changes isNew
  · have oldSound := sound.stages old isOld
    refine ⟨old, isOld, merges.id, ((merges.operators operator).1 member).1,
      oldSound.live_of_feeds_of_outputs newSound (fun _ => True) ?_ ?_ trivial live⟩
    · rintro source target ⟨exit, entry, wired⟩ -
      rcases ((merges.wired _ _).1 wired).2 with direct | ⟨-, past⟩
      · exact .inl ⟨trivial, exit, entry, direct⟩
      · exact .inr (oldSound.proper.live_of_feeds past.feeds (oldSound.live_output isAbsorbed))
    · intro output isOutput
      rcases (merges.outputs output).1 isOutput with ⟨wasOutput, -⟩ | rfl
      · exact oldSound.live_output wasOutput
      · change kept.marker ∈ _
        exact oldSound.live_output isKept
  · exact ⟨new, isOld, rfl, member, live⟩

theorem revivesNothing_of_mergeInputs (sound : plan.Sound) {stage : Stage} {kept absorbed : StagePort}
    (isKept : kept ∈ stage.inputs)
    (changes : result.ChangesOnly plan stage fun merged =>
      merged.Sound ∧ merged.MergesInputs stage kept absorbed) : result.RevivesNothing plan := by
  intro new isNew operator member noMarker live
  obtain ⟨old, isOld, ⟨rfl, newSound, merges⟩ | ⟨-, rfl⟩⟩ := exists_partner changes isNew
  · have oldSound := sound.stages old isOld
    have wasThere := ((merges.operators operator).1 member).1
    have noInput : operator.id ≠ kept.marker :=
      oldSound.proper.id_ne_marker wasThere noMarker (List.mem_append_left _ isKept)
    -- Ways from other operators never come to the input, for nothing feeds it.
    refine ⟨old, isOld, merges.id, wasThere,
      oldSound.live_of_feeds_of_outputs newSound (fun id => id ≠ kept.marker) ?_ ?_ noInput live⟩
    · rintro source target ⟨exit, entry, wired⟩ away
      rcases ((merges.wired _ _).1 wired).2 with direct | ⟨atKept, -⟩
      · exact .inl ⟨fun same => oldSound.unfed kept isKept source (same ▸ direct.feeds), exit, entry,
          direct⟩
      · exact absurd (congrArg Terminal.operator atKept) away
    · exact fun output isOutput => oldSound.live_output ((merges.outputs output).1 isOutput)
  · exact ⟨new, isOld, rfl, member, live⟩

theorem revivesNothing_of_dissolve (sound : plan.Sound) {found : Stage} {output input : StagePort}
    (changes : List.Forall₂ (fun old new => new.TakesOver old found output input) plan.stages
      result.stages) : result.RevivesNothing plan := by
  intro new isNew operator member _ live
  obtain ⟨old, isOld, takesOver⟩ := exists_partner changes isNew
  have oldSound := sound.stages old isOld
  refine ⟨old, isOld, takesOver.id, ((takesOver.graph.operators operator).1 member).1,
    oldSound.live_of_feeds_of_outputs takesOver.sound (fun _ => True) ?_ ?_ trivial live⟩
  · rintro source target ⟨exit, entry, wired⟩ -
    exact .inl ⟨trivial, exit, entry, ((takesOver.graph.wired _ _).1 wired).1⟩
  · intro port isPort
    obtain ⟨former, isFormer, -, rfl⟩ := (takesOver.outputs port).1 isPort
    have same : (former.takingOver output input).marker = former.marker :=
      congrArg Prod.snd (former.place_takingOver output input)
    exact same ▸ oldSound.live_output isFormer

/-- A step of assembly brings no operator back to life. -/
theorem Step.revivesNothing {equivalence : Equivalence} (step : Step equivalence plan result)
    (sound : plan.Sound) : result.RevivesNothing plan := by
  cases step with
  | trim trims => exact trims.revivesNothing sound
  | mergeOutputs _ isKept isAbsorbed _ _ _ changes =>
    exact revivesNothing_of_mergeOutputs sound isKept isAbsorbed changes
  | mergeInputs _ isKept _ _ _ _ changes => exact revivesNothing_of_mergeInputs sound isKept changes
  | dissolve _ _ _ _ _ changes => exact revivesNothing_of_dissolve sound changes

theorem revivesNothing_of_steps {equivalence : Equivalence} (sound : plan.Sound)
    (steps : ReflTransGen (Step equivalence) plan result) : result.RevivesNothing plan := by
  induction steps with
  | refl => exact fun new isNew _ member _ live => ⟨new, isNew, rfl, member, live⟩
  | tail before last ih =>
    exact (last.revivesNothing (sound_of_steps (step_sound equivalence) sound before)).trans ih

/-- A plan that is only pruned keeps whatever is live. -/
theorem exists_live_of_trims (sound : plan.Sound)
    (trims : ReflTransGen (fun (plan result : Plan) => result.Trims plan fun _ _ => True) plan result)
    {old : Stage} (isOld : old ∈ plan.stages) {operator : Operator}
    (member : operator ∈ old.graph.operators) (live : operator.id ∈ old.live) :
    ∃ new ∈ result.stages, new.id = old.id ∧ operator ∈ new.graph.operators ∧
      operator.id ∈ new.live := by
  induction trims with
  | refl => exact ⟨old, isOld, rfl, member, live⟩
  | tail before last ih =>
    obtain ⟨between, isBetween, same, isThere, isLive⟩ := ih
    have betweenSound := sound_of_steps (fun _ _ sound (trims : Trims _ _ _) => trims.sound sound)
      sound before
    have stageSound := betweenSound.stages between isBetween
    obtain ⟨output, isOutput, -⟩ := stageSound.proper.mem_live.1 isLive
    obtain ⟨new, isNew, trimmed, -⟩ := last.exists_trimmed betweenSound.proper isBetween isOutput trivial
    have outputs : ∀ output ∈ between.outputs, output ∈ new.outputs := by
      intro output isOutput
      obtain ⟨other, isOther, sameId, isThere⟩ := last.outputs between isBetween output isOutput trivial
      rwa [← stage_unique (last.sound betweenSound).distinct isOther isNew
        (sameId.trans trimmed.id.symm)]
    exact ⟨new, isNew, trimmed.id.trans same, trimmed.live stageSound outputs isThere isLive⟩

end Plan

end StagePlanner
