import StagePlanner.Plan.Assembly
import StagePlanner.Proofs.Assembly.Takeover

/-!
# What passes take out of plans

A pass of assembly leaves a plan as it is, or takes something out of it: the plan stays proper, has
no further operators and is lighter (`Plan.Lightens`). A step that leaves a plan as it is has found
nothing to be done. `Plan.Shrinks` states this for a pass, and that it only fails where a marker lacks
an input or an output; it carries over to repetition, to passes that may be switched off and to
sequences of passes, so that a round of assembly shrinks plans whatever it runs
(`shrinks_assemblyRound`).

What a repeated pass leaves is left as it is by the pass (`Shrinks.rests_of_settle`), and a sequence of
passes that leaves a plan as it is consists of passes that do (`Shrinks.rests_of_bind`).
-/

namespace StagePlanner

namespace Stage

/-- Pruning takes something out of a stage, unless there is nothing to be taken out. -/
theorem prune?_spec {stage result : Stage} (pruned : stage.prune? = .ok (some result)) :
    (result = stage ∧ stage.outputs ≠ [] ∧ stage.deadOperators = [] ∧ stage.unusedInputs = []) ∨
      result.weight < stage.weight := by
  rw [prune?] at pruned
  split at pruned
  · cases pruned
  · next someOutput =>
    dsimp only at pruned
    have writes : stage.outputs ≠ [] := by simpa using someOutput
    cases removed : stage.withoutDead.removeInputs stage.withoutDead.unusedInputs with
    | error cause => rw [removed] at pruned; cases pruned
    | ok left =>
      rw [removed] at pruned
      obtain rfl : left = result := Option.some.inj (Except.ok.inj pruned)
      have fewer := weight_removeInputs removed
      by_cases noneDead : stage.deadOperators = []
      · have same : stage.withoutDead = stage := by rw [withoutDead, noneDead]; rfl
        rw [same] at fewer
        exact fewer.imp_left fun both => ⟨both.2, writes, noneDead, both.1⟩
      · have dropped := size_foldl_without_lt
          (fun _ isDead => List.mem_of_mem_filter isDead : ∀ operator ∈ stage.deadOperators, _) noneDead
        have lighter : stage.withoutDead.weight < stage.weight := by
          simp only [weight, withoutDead]
          omega
        rcases fewer with ⟨-, rfl⟩ | further
        · exact .inr lighter
        · exact .inr (further.trans lighter)

end Stage

namespace Plan

/-- Something was taken out of a plan. -/
structure Lightens (result plan : Plan) : Prop where
  proper : result.Proper
  /-- There are no further operators. -/
  operators : ∀ new ∈ result.stages, ∀ operator ∈ new.graph.operators,
    ∃ old ∈ plan.stages, operator ∈ old.graph.operators
  lighter : result.weight < plan.weight

variable {plan result middle : Plan}

theorem Lightens.trans (later : result.Lightens middle) (earlier : middle.Lightens plan) :
    result.Lightens plan where
  proper := later.proper
  operators new isNew operator member := by
    obtain ⟨between, isBetween, wasThere⟩ := later.operators new isNew operator member
    exact earlier.operators between isBetween operator wasThere
  lighter := later.lighter.trans earlier.lighter

theorem Lightens.ne (lightens : result.Lightens plan) : result ≠ plan :=
  fun same => Nat.lt_irrefl _ (same ▸ lightens.lighter)

theorem Lightens.ported (lightens : result.Lightens plan) (ported : plan.PortedMarkers) :
    result.PortedMarkers := by
  intro new isNew operator member
  obtain ⟨old, isOld, wasThere⟩ := lightens.operators new isNew operator member
  exact ported old isOld operator wasThere

/-! ### Weights of lists of stages -/

/-- Stages that stay or get lighter or vanish all stay, or else their list is lighter. -/
theorem weight_of_partners {idle : Stage → Prop} {olds : List Stage} {news : List (Option Stage)}
    (paired : List.Forall₂ (fun old new => (new = some old ∧ idle old) ∨
      ∀ left, new = some left → left.weight < old.weight) olds news) :
    (news.filterMap id = olds ∧ ∀ old ∈ olds, idle old) ∨
      (news.filterMap id).length + total ((news.filterMap id).map Stage.weight) <
        olds.length + total (olds.map Stage.weight) := by
  induction paired with
  | nil => exact .inl ⟨rfl, by simp⟩
  | @cons old new olds news first _ ih =>
    have rest : (news.filterMap id).length + total ((news.filterMap id).map Stage.weight) ≤
        olds.length + total (olds.map Stage.weight) := by
      rcases ih with ⟨same, -⟩ | lighter
      · rw [same]
      · exact lighter.le
    rcases first with ⟨rfl, isIdle⟩ | lighter
    · rw [List.filterMap_cons_some (by rfl : id (some old) = some old)]
      rcases ih with ⟨same, areIdle⟩ | further
      · exact .inl ⟨by rw [same], List.forall_mem_cons.2 ⟨isIdle, areIdle⟩⟩
      · right
        simp only [List.length_cons, List.map_cons, total_cons]
        omega
    · right
      cases new with
      | none =>
        rw [List.filterMap_cons_none (by rfl : id (none : Option Stage) = none)]
        simp only [List.length_cons, List.map_cons, total_cons]
        omega
      | some left =>
        have below := lighter left rfl
        rw [List.filterMap_cons_some (by rfl : id (some left) = some left)]
        simp only [List.length_cons, List.map_cons, total_cons]
        omega

/-- The same when none vanishes. -/
theorem weight_of_staying_partners {idle : Stage → Prop} {olds news : List Stage}
    (paired : List.Forall₂ (fun old new => (new = old ∧ idle old) ∨ new.weight < old.weight)
      olds news) :
    (news = olds ∧ ∀ old ∈ olds, idle old) ∨
      news.length + total (news.map Stage.weight) < olds.length + total (olds.map Stage.weight) := by
  have wrapped : List.Forall₂ (fun old new => (new = some old ∧ idle old) ∨
      ∀ left, new = some left → left.weight < old.weight) olds (news.map some) := by
    rw [List.forall₂_map_right_iff]
    refine paired.imp fun old new first => ?_
    rcases first with ⟨rfl, isIdle⟩ | lighter
    · exact .inl ⟨rfl, isIdle⟩
    · exact .inr fun left same => Option.some.inj same ▸ lighter
  have unwrapped : (news.map some).filterMap id = news := by
    rw [List.filterMap_map]
    exact List.filterMap_some
  have weights := weight_of_partners wrapped
  rwa [unwrapped] at weights

/-- Putting a lighter stage in the place of the one with its identifier makes a plan lighter. -/
theorem weight_replace_lt (distinct : plan.stageIds.Nodup) {stage new : Stage}
    (isStage : stage ∈ plan.stages) (same : new.id = stage.id) (lighter : new.weight < stage.weight) :
    (plan.replace new).weight < plan.weight := by
  have paired : List.Forall₂ (fun old now => (now = old ∧ old.id ≠ new.id) ∨ now.weight < old.weight)
      plan.stages (plan.replace new).stages := by
    rw [replace, List.forall₂_map_right_iff, List.forall₂_same]
    intro old isOld
    by_cases here : old.id = new.id
    · obtain rfl := stage_unique distinct isOld isStage (here.trans same)
      exact .inr (by rwa [if_pos here])
    · exact .inl ⟨if_neg here, here⟩
  rcases weight_of_staying_partners paired with ⟨-, elsewhere⟩ | below
  · exact absurd same.symm (elsewhere stage isStage)
  · exact below

theorem stageIds_replace (new : Stage) : (plan.replace new).stageIds = plan.stageIds := by
  rw [stageIds, replace, List.map_map]
  refine List.map_congr_left fun old _ => ?_
  rw [Function.comp_apply]
  split
  · next here => exact here.symm
  · rfl

/-- Something is taken out of a plan when it is taken out of one stage. -/
theorem Proper.lightens_replace (proper : plan.Proper) {stage new : Stage}
    (isStage : stage ∈ plan.stages) (same : new.id = stage.id) (newProper : new.Proper)
    (operators : ∀ operator ∈ new.graph.operators, operator ∈ stage.graph.operators)
    (lighter : new.weight < stage.weight) : (plan.replace new).Lightens plan := by
  have either : ∀ now ∈ (plan.replace new).stages, now = new ∨ now ∈ plan.stages := by
    intro now isNow
    obtain ⟨old, isOld, rfl⟩ := List.mem_map.1 isNow
    split
    · exact .inl rfl
    · exact .inr isOld
  refine ⟨⟨?_, fun now isNow => ?_⟩, fun now isNow operator member => ?_,
    weight_replace_lt proper.distinct isStage same lighter⟩
  · rw [stageIds_replace]
    exact proper.distinct
  · rcases either now isNow with rfl | isOld
    · exact newProper
    · exact proper.stages now isOld
  · rcases either now isNow with rfl | isOld
    · exact ⟨stage, isStage, operators operator member⟩
    · exact ⟨now, isOld, member⟩

/-- Something is taken out of a plan that is trimmed and lighter. -/
theorem Trims.lightens {needed : Stage → StagePort → Prop} (trims : result.Trims plan needed)
    (proper : plan.Proper) (lighter : result.weight < plan.weight) : result.Lightens plan where
  proper := by
    refine ⟨proper.distinct.sublist trims.stageIds, fun stage isStage => ?_⟩
    obtain ⟨old, isOld, stays, restricts, -⟩ := trims.stages stage isStage
    exact restricts.proper (proper.stages old isOld)
  operators new isNew operator member := by
    obtain ⟨old, isOld, stays, restricts, -⟩ := trims.stages new isNew
    exact ⟨old, isOld, ((restricts.graph.operators operator).1 member).1⟩
  lighter := lighter

/-! ### Steps -/

section Steps

variable {equivalence : Equivalence}

/-- Merging outputs takes something out of a plan, unless no outputs are found. -/
theorem mergeOutputPair_spec {test : Plan → Stage → StagePort → StagePort → Bool}
    (proper : plan.Proper) (merged : mergeOutputPair equivalence test plan = .ok result) :
    (result = plan ∧ plan.outputPair? equivalence (test plan) = none) ∨ result.Lightens plan := by
  rw [mergeOutputPair] at merged
  split at merged
  · next none => exact .inl ⟨(Except.ok.inj merged).symm, none⟩
  · next stage kept absorbed found =>
    obtain ⟨isStage, isKept, isAbsorbed, differ, -⟩ := proper.outputPair?_spec found
    cases isMerged : stage.mergeOutputs kept absorbed with
    | error cause => rw [isMerged] at merged; cases merged
    | ok new =>
      rw [isMerged] at merged
      cases merged
      obtain ⟨⟨_, absorbedAt⟩, _, keptAt⟩ := Stage.portAt_of_mergeOutputs isMerged
      obtain ⟨other, isOther, newProper, merges, lighter⟩ :=
        (proper.stages stage isStage).exists_mergeOutputs isKept isAbsorbed differ keptAt absorbedAt
      obtain rfl := Except.ok.inj (isMerged.symm.trans isOther)
      exact .inr (proper.lightens_replace isStage merges.id newProper
        (fun operator member => ((merges.operators operator).1 member).1) lighter)

/-- Merging inputs takes something out of a plan, unless no inputs are found. -/
theorem mergeInputPair_spec (proper : plan.Proper)
    (merged : mergeInputPair equivalence plan = .ok result) :
    (result = plan ∧ plan.inputPair? equivalence = none) ∨ result.Lightens plan := by
  rw [mergeInputPair] at merged
  split at merged
  · next none => exact .inl ⟨(Except.ok.inj merged).symm, none⟩
  · next stage kept absorbed found =>
    obtain ⟨isStage, isKept, isAbsorbed, differ, -⟩ := proper.inputPair?_spec found
    cases isMerged : stage.mergeInputs kept absorbed with
    | error cause => rw [isMerged] at merged; cases merged
    | ok new =>
      rw [isMerged] at merged
      cases merged
      obtain ⟨⟨_, absorbedAt⟩, _, keptAt⟩ := Stage.portAt_of_mergeInputs isMerged
      obtain ⟨other, isOther, newProper, merges, lighter⟩ :=
        (proper.stages stage isStage).exists_mergeInputs isKept isAbsorbed differ keptAt absorbedAt
      obtain rfl := Except.ok.inj (isMerged.symm.trans isOther)
      exact .inr (proper.lightens_replace isStage merges.id newProper
        (fun operator member => ((merges.operators operator).1 member).1) lighter)

/-- A plan whose outputs stand for further origins. -/
theorem Proper.of_spread (proper : plan.Proper) {widened : Plan} {addresses : List PortAddress}
    {origins : OrderedSet OperatorId}
    (spread : widened.stages = plan.stages.map fun stage => stage.spread addresses origins) :
    widened.Proper ∧ widened.weight = plan.weight := by
  refine ⟨⟨?_, fun stage isStage => ?_⟩, ?_⟩
  · rw [stageIds, spread, List.map_map]
    exact proper.distinct
  · rw [spread] at isStage
    obtain ⟨old, isOld, rfl⟩ := List.mem_map.1 isStage
    exact (proper.stages old isOld).spread _ _
  · rw [weight, weight, spread, List.length_map, List.map_map]
    refine congrArg (fun weights => plan.stages.length + total weights)
      (List.map_congr_left fun stage _ => ?_)
    simp only [Function.comp_apply, Stage.weight, Stage.spread, List.length_map]

/-- Dissolving an output takes something out of a plan, unless none is found, and never fails. -/
theorem dissolveForwarded_spec (proper : plan.Proper) : ∃ result,
    dissolveForwarded plan = .ok result ∧
      ((result = plan ∧ plan.forwarded? = none) ∨ result.Lightens plan) := by
  rw [dissolveForwarded]
  split
  · next none => exact ⟨plan, rfl, .inl ⟨rfl, none⟩⟩
  · next found output producers isForwarded =>
    obtain ⟨isFound, isOutput, input, -, rfl⟩ := proper.forwarded?_spec isForwarded
    have spread := foldl_widenOutput_eq proper.distinct output.origins (plan.outputsFrom input.origins)
    generalize (plan.outputsFrom input.origins).foldl _ plan = widened at spread
    obtain ⟨stage, isStage, restricts⟩ := proper.exists_dissolved isFound isOutput input spread
    obtain ⟨widenedProper, sameWeight⟩ := proper.of_spread spread
    have isThere : found.spread (plan.outputsFrom input.origins) output.origins ∈ widened.stages :=
      spread ▸ List.mem_map_of_mem isFound
    obtain ⟨before, located, removed⟩ := bind_eq_ok_iff.1 isStage
    have isBefore : before = found.spread (plan.outputsFrom input.origins) output.origins := by
      have isLocated : widened.stage? found.id = some _ :=
        (stage?_eq_some_iff widenedProper.distinct).2 ⟨isThere, rfl⟩
      rw [Plan.stage, isLocated] at located
      exact (Except.ok.inj located).symm
    subst isBefore
    have lightens := widenedProper.lightens_replace isThere restricts.id
      (restricts.proper (widenedProper.stages _ isThere))
      (fun operator member => ((restricts.graph.operators operator).1 member).1)
      (Stage.weight_removeOutput_lt removed)
    refine ⟨widened.replace stage, by rw [← bind_assoc, isStage]; rfl, .inr ⟨lightens.proper, ?_, ?_⟩⟩
    · intro new isNew operator member
      obtain ⟨old, isOld, wasThere⟩ := lightens.operators new isNew operator member
      rw [spread] at isOld
      obtain ⟨former, isFormer, rfl⟩ := List.mem_map.1 isOld
      exact ⟨former, isFormer, wasThere⟩
    · exact lightens.lighter.trans_eq sameWeight

/-- Dropping unread outputs takes something out of a plan, unless every output is read, and never
fails. -/
theorem dropUnread_spec (proper : plan.Proper) : ∃ result, dropUnread plan = .ok result ∧
    ((result = plan ∧ ∀ stage ∈ plan.stages, plan.unreadOutputs stage = []) ∨
      result.Lightens plan) := by
  obtain ⟨result, isResult, trims⟩ := proper.exists_dropUnread
  refine ⟨result, isResult, ?_⟩
  obtain ⟨stages, isStages, same⟩ := bind_eq_ok_iff.1 isResult
  cases same
  have paired := (mapM_eq_ok_iff.1 isStages).imp fun old new removed =>
    (Stage.weight_removeOutputs removed).imp_left And.symm
  rcases weight_of_staying_partners paired with ⟨same, areRead⟩ | lighter
  · exact .inl ⟨by rw [same], areRead⟩
  · exact .inr (trims.lightens proper lighter)

/-- Pruning takes something out of a plan, unless there is nothing to be taken out, and never fails. -/
theorem prune_spec (proper : plan.Proper) : ∃ result, prune plan = .ok result ∧
    ((result = plan ∧ ∀ stage ∈ plan.stages,
        stage.outputs ≠ [] ∧ stage.deadOperators = [] ∧ stage.unusedInputs = []) ∨
      result.Lightens plan) := by
  obtain ⟨result, isResult, trims⟩ := proper.exists_prune
  refine ⟨result, isResult, ?_⟩
  obtain ⟨stages, isStages, same⟩ := bind_eq_ok_iff.1 isResult
  cases same
  have paired : List.Forall₂ (fun (old : Stage) new => (new = some old ∧ old.outputs ≠ [] ∧
      old.deadOperators = [] ∧ old.unusedInputs = []) ∨
        ∀ left, new = some left → left.weight < old.weight) plan.stages stages := by
    refine (mapM_eq_ok_iff.1 isStages).imp fun old new pruned => ?_
    cases new with
    | none => exact .inr nofun
    | some left =>
      rcases Stage.prune?_spec pruned with ⟨rfl, idle⟩ | lighter
      · exact .inl ⟨rfl, idle⟩
      · exact .inr fun other same => Option.some.inj same ▸ lighter
  rcases weight_of_partners paired with ⟨same, areIdle⟩ | lighter
  · exact .inl ⟨by rw [same], areIdle⟩
  · exact .inr (trims.lightens proper lighter)

end Steps

/-! ### Passes -/

/-- A pass leaves proper plans as they are or takes something out of them, and only fails where a
marker lacks an input or an output. -/
structure Shrinks (pass : Plan → Except Fault Plan) : Prop where
  lightens : ∀ plan result : Plan, plan.Proper → pass plan = .ok result →
    result = plan ∨ result.Lightens plan
  succeeds : ∀ plan : Plan, plan.Proper → plan.PortedMarkers → ∃ result, pass plan = .ok result

namespace Shrinks

variable {pass next : Plan → Except Fault Plan} (shrinks : Shrinks pass)

include shrinks

theorem proper (proper : plan.Proper) (passed : pass plan = .ok result) : result.Proper := by
  rcases shrinks.lightens plan result proper passed with rfl | lightens
  · exact proper
  · exact lightens.proper

theorem ported (proper : plan.Proper) (passed : pass plan = .ok result)
    (ported : plan.PortedMarkers) : result.PortedMarkers := by
  rcases shrinks.lightens plan result proper passed with rfl | lightens
  · exact ported
  · exact lightens.ported ported

/-- A pass has nothing to do on a plan without stages. -/
theorem rests_of_weightless (proper : plan.Proper) (weightless : plan.weight = 0) :
    pass plan = .ok plan := by
  have none : plan.stages = [] :=
    List.length_eq_zero_iff.1 (Nat.le_zero.1 (weightless ▸ Nat.le_add_right _ _))
  obtain ⟨result, passed⟩ := shrinks.succeeds plan proper (by simp [PortedMarkers, none])
  rcases shrinks.lightens plan result proper passed with rfl | lightens
  · exact passed
  · exact absurd lightens.lighter (by omega)

theorem bind (later : Shrinks next) : Shrinks fun plan => pass plan >>= next where
  lightens plan result proper passed := by
    obtain ⟨middle, first, second⟩ := bind_eq_ok_iff.1 passed
    rcases shrinks.lightens plan middle proper first with rfl | earlier
    · exact later.lightens _ _ proper second
    · rcases later.lightens _ _ earlier.proper second with rfl | further
      · exact .inr earlier
      · exact .inr (further.trans earlier)
  succeeds plan proper ported := by
    obtain ⟨middle, first⟩ := shrinks.succeeds plan proper ported
    obtain ⟨result, second⟩ := later.succeeds middle (shrinks.proper proper first)
      (shrinks.ported proper first ported)
    exact ⟨result, bind_eq_ok_iff.2 ⟨middle, first, second⟩⟩

theorem runIf (enabled : Bool) : Shrinks (runIf enabled pass) := by
  cases enabled with
  | true => exact shrinks
  | false => exact ⟨fun _ _ _ same => .inl (Except.ok.inj same).symm, fun plan _ _ => ⟨plan, rfl⟩⟩

/-- When two passes after each other leave a plan as it is, each of them does. -/
theorem rests_of_bind (later : Shrinks next) (proper : plan.Proper)
    (rests : (pass plan >>= next) = .ok plan) : pass plan = .ok plan ∧ next plan = .ok plan := by
  obtain ⟨middle, first, second⟩ := bind_eq_ok_iff.1 rests
  rcases shrinks.lightens plan middle proper first with rfl | earlier
  · exact ⟨first, second⟩
  · rcases later.lightens _ _ earlier.proper second with same | further
    · exact absurd same.symm earlier.ne
    · exact absurd (further.trans earlier).lighter (Nat.lt_irrefl _)

/-- A pass that is repeated often enough takes things out, until it leaves the plan as it is. -/
theorem settleFor_spec {rounds : Nat} (proper : plan.Proper) (enough : plan.weight ≤ rounds)
    (settled : settleFor pass rounds plan = .ok result) :
    (result = plan ∨ result.Lightens plan) ∧ pass result = .ok result := by
  induction rounds generalizing plan with
  | zero =>
    cases settled
    exact ⟨.inl rfl, shrinks.rests_of_weightless proper (Nat.le_zero.1 enough)⟩
  | succ more ih =>
    obtain ⟨middle, first, others⟩ := bind_eq_ok_iff.1 settled
    rcases shrinks.lightens plan middle proper first with rfl | earlier
    · rw [if_neg (Nat.lt_irrefl _)] at others
      cases others
      exact ⟨.inl rfl, first⟩
    · have below := earlier.lighter
      rw [if_pos below] at others
      obtain ⟨either, rests⟩ := ih earlier.proper (by omega) others
      refine ⟨.inr ?_, rests⟩
      rcases either with rfl | further
      · exact earlier
      · exact further.trans earlier

/-- What a repeated pass leaves is left as it is by the pass. -/
theorem rests_of_settle (proper : plan.Proper) (settled : settle pass plan = .ok result) :
    pass result = .ok result :=
  (shrinks.settleFor_spec proper (Nat.le_refl _) settled).2

theorem exists_settleFor {rounds : Nat} (proper : plan.Proper) (ported : plan.PortedMarkers) :
    ∃ result, settleFor pass rounds plan = .ok result := by
  induction rounds generalizing plan with
  | zero => exact ⟨plan, rfl⟩
  | succ more ih =>
    obtain ⟨middle, first⟩ := shrinks.succeeds plan proper ported
    by_cases lighter : middle.weight < plan.weight
    · obtain ⟨result, others⟩ := ih (shrinks.proper proper first) (shrinks.ported proper first ported)
      exact ⟨result, bind_eq_ok_iff.2 ⟨middle, first, (if_pos lighter).trans others⟩⟩
    · exact ⟨middle, bind_eq_ok_iff.2 ⟨middle, first, if_neg lighter⟩⟩

theorem settle : Shrinks (settle pass) where
  lightens _ _ proper settled := (shrinks.settleFor_spec proper (Nat.le_refl _) settled).1
  succeeds _ proper ported := shrinks.exists_settleFor proper ported

end Shrinks

section Passes

variable (equivalence : Equivalence)

theorem shrinks_mergeOutputPair (test : Plan → Stage → StagePort → StagePort → Bool) :
    Shrinks (mergeOutputPair equivalence test) where
  lightens plan result proper merged := (mergeOutputPair_spec proper merged).imp_left And.left
  succeeds plan proper ported := by
    rw [mergeOutputPair]
    split
    · exact ⟨plan, rfl⟩
    · next stage kept absorbed found =>
      obtain ⟨isStage, isKept, isAbsorbed, differ, -⟩ := proper.outputPair?_spec found
      have stageProper := proper.stages stage isStage
      have stagePorted := ported stage isStage
      obtain ⟨_, keptAt⟩ := stageProper.exists_portAt stagePorted (List.mem_append_right _ isKept) .input
      obtain ⟨_, absorbedAt⟩ :=
        stageProper.exists_portAt stagePorted (List.mem_append_right _ isAbsorbed) .input
      obtain ⟨merged, isMerged, -⟩ :=
        stageProper.exists_mergeOutputs isKept isAbsorbed differ keptAt absorbedAt
      exact ⟨plan.replace merged, by rw [isMerged]; rfl⟩

theorem shrinks_mergeInputPair : Shrinks (mergeInputPair equivalence) where
  lightens plan result proper merged := (mergeInputPair_spec proper merged).imp_left And.left
  succeeds plan proper ported := by
    rw [mergeInputPair]
    split
    · exact ⟨plan, rfl⟩
    · next stage kept absorbed found =>
      obtain ⟨isStage, isKept, isAbsorbed, differ, -⟩ := proper.inputPair?_spec found
      have stageProper := proper.stages stage isStage
      have stagePorted := ported stage isStage
      obtain ⟨_, keptAt⟩ := stageProper.exists_portAt stagePorted (List.mem_append_left _ isKept) .output
      obtain ⟨_, absorbedAt⟩ :=
        stageProper.exists_portAt stagePorted (List.mem_append_left _ isAbsorbed) .output
      obtain ⟨merged, isMerged, -⟩ :=
        stageProper.exists_mergeInputs isKept isAbsorbed differ keptAt absorbedAt
      exact ⟨plan.replace merged, by rw [isMerged]; rfl⟩

/-- A pass that never fails, and takes something out unless a search finds nothing, shrinks plans. -/
theorem shrinks_of_spec {pass : Plan → Except Fault Plan} {idle : Plan → Prop}
    (spec : ∀ plan : Plan, plan.Proper → ∃ result, pass plan = .ok result ∧
      ((result = plan ∧ idle plan) ∨ result.Lightens plan)) : Shrinks pass where
  lightens plan result proper passed := by
    obtain ⟨other, isOther, either⟩ := spec plan proper
    obtain rfl := Except.ok.inj (passed.symm.trans isOther)
    exact either.imp_left And.left
  succeeds plan proper _ := by
    obtain ⟨result, passed, -⟩ := spec plan proper
    exact ⟨result, passed⟩

theorem shrinks_dissolveForwarded : Shrinks dissolveForwarded :=
  shrinks_of_spec fun _ => dissolveForwarded_spec

theorem shrinks_dropUnread : Shrinks dropUnread := shrinks_of_spec fun _ => dropUnread_spec

theorem shrinks_prune : Shrinks prune := shrinks_of_spec fun _ => prune_spec

theorem shrinks_unifyOutputs : Shrinks (unifyOutputs equivalence) :=
  (shrinks_mergeOutputPair equivalence sameFeeders).settle

theorem shrinks_unifyInputs : Shrinks (unifyInputs equivalence) :=
  (shrinks_mergeInputPair equivalence).settle

theorem shrinks_pushUnions : Shrinks (pushUnions equivalence) :=
  (shrinks_mergeOutputPair equivalence sameConsumers).settle

theorem shrinks_dissolveCheckpoints : Shrinks dissolveCheckpoints := shrinks_dissolveForwarded.settle

/-- A round of assembly shrinks plans, whatever passes it runs. -/
theorem shrinks_assemblyRound (passes : AssemblyPasses) :
    Shrinks (assemblyRound passes equivalence) :=
  ((shrinks_unifyOutputs equivalence).runIf _).bind
    (((shrinks_unifyInputs equivalence).runIf _).bind
      (((shrinks_pushUnions equivalence).runIf _).bind
        ((shrinks_dissolveCheckpoints.runIf _).bind
          ((shrinks_dropUnread.runIf _).bind shrinks_prune))))

end Passes

end Plan

end StagePlanner
