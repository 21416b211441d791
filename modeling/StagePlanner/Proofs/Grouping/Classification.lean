import StagePlanner.Proofs.Assembly.Settlement

/-!
# The groups of a plan

Every change of groups, be it a split or a broken circuit, leaves parts of groups: members of one
old group with the sources of that group (`StageGroup.PartOf`). What the members of every group
have in common with its sources is therefore kept. Neither loop ends because its rounds run out:
as many rounds as there are members split all that can be split (`settled_splitRounds`), and further
ones break no further circuit (`breakRounds_eq_breakCircuits`).
-/

namespace StagePlanner

open Relation

variable {dependencies : DependencyGraph StageId} {ids : List StageId} {groups : List StageGroup}

theorem GroupsOf.population_eq (isDivision : GroupsOf ids groups) :
    StageGroup.population groups = ids.length := by
  rw [StageGroup.population_eq, isDivision.members.length_eq]

namespace StageGroup

/-- Some members of a group, with the same sources. -/
def PartOf (part whole : StageGroup) : Prop :=
  part.sources = whole.sources ∧ part.elements ⊆ whole.elements

theorem PartOf.refl (group : StageGroup) : group.PartOf group := ⟨rfl, fun _ member => member⟩

theorem PartOf.trans {part middle whole : StageGroup} (inner : part.PartOf middle)
    (outer : middle.PartOf whole) : part.PartOf whole :=
  ⟨inner.1.trans outer.1, fun _ member => outer.2 (inner.2 member)⟩

/-- Every group of the first list is part of a group of the second one. -/
def Refines (parts groups : List StageGroup) : Prop :=
  ∀ part ∈ parts, ∃ whole ∈ groups, part.PartOf whole

theorem Refines.refl (groups : List StageGroup) : Refines groups groups :=
  fun group isGroup => ⟨group, isGroup, .refl group⟩

theorem Refines.trans {parts middle : List StageGroup} (inner : Refines parts middle)
    (outer : Refines middle groups) : Refines parts groups := by
  intro part isPart
  obtain ⟨between, isBetween, first⟩ := inner part isPart
  obtain ⟨whole, isWhole, second⟩ := outer between isBetween
  exact ⟨whole, isWhole, first.trans second⟩

/-- The members of a group stand in some relation to its sources. -/
def Shares (reads : OrderedSet OperatorId → StageId → Prop) (group : StageGroup) : Prop :=
  ∀ element ∈ group.elements, reads group.sources element

theorem Refines.shares {parts : List StageGroup} {reads : OrderedSet OperatorId → StageId → Prop}
    (refines : Refines parts groups) (shared : ∀ group ∈ groups, group.Shares reads) :
    ∀ part ∈ parts, part.Shares reads := by
  intro part isPart element member
  obtain ⟨whole, isWhole, sameSources, included⟩ := refines part isPart
  rw [sameSources]
  exact shared whole isWhole element (included member)

/-! ### Combining -/

theorem shares_addTo {reads : OrderedSet OperatorId → StageId → Prop} {group : StageGroup}
    (shared : group.Shares reads) (others : ∀ other ∈ groups, other.Shares reads) :
    ∀ other ∈ group.addTo groups, other.Shares reads := by
  induction groups with
  | nil => simpa [addTo] using shared
  | cons first rest ih =>
    obtain ⟨firstShared, restShared⟩ := List.forall_mem_cons.1 others
    rw [addTo]
    split
    · next sameSources =>
      refine List.forall_mem_cons.2 ⟨fun element member => ?_, restShared⟩
      rcases List.mem_append.1 member with old | new
      · exact firstShared element old
      · exact sameSources ▸ shared element new
    · exact List.forall_mem_cons.2 ⟨firstShared, ih restShared⟩

theorem shares_combine {reads : OrderedSet OperatorId → StageId → Prop}
    (shared : ∀ group ∈ groups, group.Shares reads) :
    ∀ group ∈ combine groups, group.Shares reads := by
  have along : ∀ items combined : List StageGroup, (∀ group ∈ items, group.Shares reads) →
      (∀ group ∈ combined, group.Shares reads) →
      ∀ group ∈ items.foldl (fun combined group => group.addTo combined) combined,
        group.Shares reads := by
    intro items
    induction items with
    | nil => exact fun _ _ others => others
    | cons group rest ih =>
      intro combined itemsShared others
      obtain ⟨groupShared, restShared⟩ := List.forall_mem_cons.1 itemsShared
      exact ih (group.addTo combined) restShared (shares_addTo groupShared others)
  exact along groups [] shared fun _ isGroup => by cases isGroup

/-! ### Splitting -/

theorem partOf_split (dependencies : DependencyGraph StageId) (group : StageGroup) :
    (split dependencies group).1.PartOf group ∧
      ∀ purged ∈ (split dependencies group).2, purged.PartOf group := by
  rw [split]
  split
  · exact ⟨.refl group, fun _ isPurged => by cases isPurged⟩
  · dsimp only
    split
    · exact ⟨.refl group, fun _ isPurged => by cases isPurged⟩
    · refine ⟨⟨rfl, fun _ member => List.mem_of_mem_filter member⟩, fun purged isPurged => ?_⟩
      obtain rfl := Option.some.inj isPurged
      exact ⟨rfl, fun _ member => List.mem_of_mem_filter member⟩

theorem refines_splitRound (dependencies : DependencyGraph StageId) (groups : List StageGroup) :
    Refines ((splitRound dependencies groups).1 ++ (splitRound dependencies groups).2) groups := by
  intro part member
  rcases List.mem_append.1 member with isKept | isPurged
  · obtain ⟨parts, isParts, rfl⟩ := List.mem_map.1 isKept
    obtain ⟨group, isGroup, rfl⟩ := List.mem_map.1 isParts
    exact ⟨group, isGroup, (partOf_split dependencies group).1⟩
  · obtain ⟨parts, isParts, isPart⟩ := List.mem_filterMap.1 isPurged
    obtain ⟨group, isGroup, rfl⟩ := List.mem_map.1 isParts
    exact ⟨group, isGroup, (partOf_split dependencies group).2 part isPart⟩

theorem refines_splitRounds (dependencies : DependencyGraph StageId) (rounds : Nat)
    (groups : List StageGroup) : Refines (splitRounds dependencies rounds groups) groups := by
  induction rounds generalizing groups with
  | zero => exact .refl groups
  | succ rounds ih =>
    rw [splitRounds]
    split
    · exact .refl groups
    · next kept purged _ result =>
      have once := refines_splitRound dependencies groups
      rw [result] at once
      exact (ih (kept ++ purged)).trans once

/-! ### Breaking circuits -/

theorem refines_splitAt (circuit : List StageId) (groups : List StageGroup) (position : Nat) :
    Refines (splitAt dependencies circuit groups position) groups := by
  rw [splitAt]
  split
  · exact .refl groups
  · next group isGroup =>
    have divides := (circuitParts_spec dependencies circuit group).1
    have isPartOf : ∀ elements ∈ circuitParts dependencies circuit group,
        PartOf { group with elements } group := by
      refine fun elements isPart => ⟨rfl, fun element member => ?_⟩
      exact divides.mem_iff.1 (List.mem_flatten.2 ⟨elements, isPart, member⟩)
    split
    · exact .refl groups
    · next first others parts =>
      rw [parts] at isPartOf
      intro part member
      rcases List.mem_append.1 member with changed | new
      · rcases List.mem_or_eq_of_mem_set changed with old | rfl
        · exact ⟨part, old, .refl part⟩
        · exact ⟨group, List.mem_of_getElem? isGroup, isPartOf first List.mem_cons_self⟩
      · obtain ⟨elements, isOther, rfl⟩ := List.mem_map.1 new
        exact ⟨group, List.mem_of_getElem? isGroup,
          isPartOf elements (List.mem_cons_of_mem _ isOther)⟩

theorem refines_breakRounds (dependencies : DependencyGraph StageId) (rounds : Nat)
    (groups : List StageGroup) : Refines (breakRounds dependencies rounds groups) groups := by
  induction rounds generalizing groups with
  | zero => exact .refl groups
  | succ rounds ih =>
    rw [breakRounds]
    split
    · exact .refl groups
    · next position circuit found =>
      exact (ih (splitAt dependencies circuit groups position)).trans
        (refines_splitAt circuit groups position)

/-- Splitting and then breaking circuits leaves parts of groups. -/
theorem refines_settled (wellFormed : dependencies.WellFormed)
    (circuitless : Circuitless dependencies.Depends) (groups : List StageGroup) :
    Refines (breakCircuits dependencies (splitAll dependencies groups)) groups := by
  rw [splitAll_eq_of_separable wellFormed
    (fun group _ => separable_of_circuitless circuitless group) (Nat.le_refl _)]
  exact (refines_breakRounds _ _ _).trans (refines_splitRounds _ _ _)

theorem breakRounds_of_settled {groups : List StageGroup}
    (settled : onCircuit? dependencies groups = none) (rounds : Nat) :
    breakRounds dependencies rounds groups = groups := by
  cases rounds with
  | zero => rfl
  | succ rounds => rw [breakRounds, settled]

/-- Rounds of breaking circuits can be counted off in two goes. -/
theorem breakRounds_add (first second : Nat) (groups : List StageGroup) :
    breakRounds dependencies (first + second) groups =
      breakRounds dependencies second (breakRounds dependencies first groups) := by
  induction first generalizing groups with
  | zero => rw [Nat.zero_add, breakRounds]
  | succ first ih =>
    cases found : onCircuit? dependencies groups with
    | none => simp only [breakRounds_of_settled found]
    | some next =>
      rw [Nat.succ_add, breakRounds, breakRounds, found]
      exact ih (splitAt dependencies next.2 groups next.1)

theorem onCircuit?_eq_none_of_circuitless
    (circuitless : Circuitless (contracted dependencies groups).Depends) :
    onCircuit? dependencies groups = none := by
  have wellFormed : (contracted dependencies groups).WellFormed := DependencyGraph.ofLists_wellFormed
  rw [onCircuit?, (DependencyGraph.circuits_eq_nil_iff wellFormed).2 circuitless]

/-- More rounds than stages break no further circuit. -/
theorem breakRounds_eq_breakCircuits (distinct : ids.Nodup)
    (circuitless : Circuitless dependencies.Depends) (isDivision : GroupsOf ids groups)
    (independent : ∀ group ∈ groups, group.Independent dependencies) {rounds : Nat}
    (enough : ids.length ≤ rounds) :
    breakRounds dependencies rounds groups = breakCircuits dependencies groups := by
  have noCircuit := (breakCircuits_spec distinct circuitless isDivision independent).2.2
  obtain ⟨more, rfl⟩ := Nat.exists_eq_add_of_le enough
  rw [breakRounds_add, ← isDivision.population_eq]
  exact breakRounds_of_settled (onCircuit?_eq_none_of_circuitless noCircuit) more

end StageGroup

/-! ### The groups of a plan -/

/-- Some input of the stage, not a broadcast, stands for the operator. -/
def Stage.DrivenBy (stage : Stage) (origin : OperatorId) : Prop :=
  ∃ port ∈ stage.inputs, stage.marker? port ≠ some .broadcast ∧ origin ∈ port.origins

theorem Stage.mem_drivingOrigins {stage : Stage} {origin : OperatorId} :
    origin ∈ stage.drivingOrigins ↔ stage.DrivenBy origin := by
  simp only [drivingOrigins, DrivenBy, OrderedSet.mem_unions, List.mem_map, List.mem_filter,
    decide_eq_true_eq]
  constructor
  · rintro ⟨_, ⟨port, ⟨isInput, noBroadcast⟩, rfl⟩, member⟩
    exact ⟨port, isInput, noBroadcast, member⟩
  · rintro ⟨port, isInput, noBroadcast, member⟩
    exact ⟨port.origins, ⟨port, ⟨isInput, noBroadcast⟩, rfl⟩, member⟩

theorem Stage.group_eq_ok {stage : Stage} {origin : OperatorId} (driven : stage.DrivenBy origin) :
    stage.group = .ok { sources := stage.drivingOrigins, elements := [stage.id] } := by
  have some : ¬ stage.drivingOrigins.isEmpty = true := fun empty =>
    OrderedSet.isEmpty_iff.1 empty origin (mem_drivingOrigins.2 driven)
  rw [group]
  simp only [some, Bool.false_eq_true, if_false]

/-- A stage that makes up a group is driven by something. -/
theorem Stage.drivenBy_of_group {stage : Stage} {group : StageGroup}
    (isGroup : stage.group = .ok group) : ∃ origin, stage.DrivenBy origin := by
  rw [Stage.group] at isGroup
  split at isGroup
  · cases isGroup
  · next some =>
    obtain ⟨origin, member⟩ := not_forall_not.1 fun none => some (OrderedSet.isEmpty_iff.2 none)
    exact ⟨origin, mem_drivingOrigins.1 member⟩

/-- A stage that makes up no group is driven by nothing. -/
theorem Stage.group_eq_error {stage : Stage} {fault : Fault} (failed : stage.group = .error fault) :
    (∀ origin, ¬ stage.DrivenBy origin) ∧ fault = .invariant (.nothingToGroupBy stage.id) := by
  rw [Stage.group] at failed
  split at failed
  · next empty =>
    cases failed
    exact ⟨fun origin driven => OrderedSet.isEmpty_iff.1 empty origin (mem_drivingOrigins.2 driven), rfl⟩
  · cases failed

namespace Plan

variable {plan : Plan}

/-- The stages of a plan are divided so that every group can be merged into one stage. -/
structure Classified (plan : Plan) (groups : List StageGroup) : Prop
    extends Mergeable plan.dependencies plan.stageIds groups where
  /-- Every stage belongs to exactly one group. -/
  unique : ∀ id ∈ plan.stageIds, ∃! group, group ∈ groups ∧ id ∈ group.elements
  /-- What drives a member is what drives the group. -/
  driven : ∀ group ∈ groups, ∀ stage ∈ plan.stages, stage.id ∈ group.elements →
    ∀ origin, origin ∈ group.sources ↔ stage.DrivenBy origin

/-- The groups that some rounds of splitting and then some rounds of breaking circuits leave. -/
def groupsAfter (plan : Plan) (splits breaks : Nat) : Except Fault (List StageGroup) := do
  let groups ← plan.stages.mapM Stage.group
  return StageGroup.breakRounds plan.dependencies breaks
    (StageGroup.splitRounds plan.dependencies splits (StageGroup.combine groups))

/-- In a plan that has groups every stage is driven by something. -/
theorem drivenBy_of_groups {groups : List StageGroup} (isGroups : plan.groups = .ok groups) :
    ∀ stage ∈ plan.stages, ∃ origin, stage.DrivenBy origin := by
  intro stage isStage
  obtain ⟨single, mapped, -⟩ := bind_eq_ok_iff.1 isGroups
  obtain ⟨group, -, isGroup⟩ := exists_partner_of_mem (mapM_eq_ok_iff.1 mapped) isStage
  exact Stage.drivenBy_of_group isGroup

/-- A plan that has no groups has a stage that is driven by nothing. -/
theorem groups_eq_error {fault : Fault} (failed : plan.groups = .error fault) :
    ∃ stage ∈ plan.stages, (∀ origin, ¬ stage.DrivenBy origin) ∧
      fault = .invariant (.nothingToGroupBy stage.id) := by
  rcases bind_eq_error_iff.1 failed with mapped | ⟨single, -, wrong⟩
  · obtain ⟨stage, isStage, isCause⟩ := exists_of_mapM_error mapped
    exact ⟨stage, isStage, Stage.group_eq_error isCause⟩
  · cases wrong

/-- The groups of a plan without circuits in which every stage is driven by something: there are some,
they classify the stages, and no loop that finds them is cut short. -/
theorem exists_groups_classified (distinct : plan.stageIds.Nodup)
    (circuitless : Circuitless plan.dependencies.Depends)
    (driven : ∀ stage ∈ plan.stages, ∃ origin, stage.DrivenBy origin) :
    ∃ groups, plan.groups = .ok groups ∧ plan.Classified groups ∧
      ∀ splits breaks, plan.stages.length ≤ splits → plan.stages.length ≤ breaks →
        plan.groupsAfter splits breaks = .ok groups := by
  have alone : ∃ single, plan.stages.mapM Stage.group = .ok single ∧ List.Forall₂
      (fun stage group => group = ⟨stage.drivingOrigins, [stage.id]⟩) plan.stages single := by
    refine exists_mapM fun stage isStage => ?_
    obtain ⟨origin, isDriven⟩ := driven stage isStage
    exact ⟨_, Stage.group_eq_ok isDriven, rfl⟩
  obtain ⟨single, mapped, paired⟩ := alone
  have combined := StageGroup.groupsOf_combine (groupsOf_single mapped)
  obtain ⟨split, independent⟩ :=
    StageGroup.splitAll_spec dependencies_wellFormed circuitless combined
  have isGroups : plan.groups = .ok (StageGroup.breakCircuits plan.dependencies
      (StageGroup.splitAll plan.dependencies (StageGroup.combine single))) := by
    rw [groups, mapped]
    rfl
  have mergeable := mergeable_groups distinct circuitless isGroups
  refine ⟨_, isGroups, ⟨mergeable, fun id isId => ?_, fun group isGroup stage isStage member => ?_⟩,
    fun splits breaks manySplits manyBreaks => ?_⟩
  · obtain ⟨group, isGroup, member⟩ := mergeable.mem_iff.1 isId
    refine ⟨group, ⟨isGroup, member⟩, ?_⟩
    rintro other ⟨isOther, inOther⟩
    exact mergeable.group_unique distinct isOther isGroup inOther member
  · -- A group shares the driving origins of its stages, and so does what it is split into.
    have shared : ∀ group ∈ single, group.Shares fun sources id =>
        ∀ stage ∈ plan.stages, stage.id = id → sources = stage.drivingOrigins := by
      intro group isGroup element member other isOther same
      obtain ⟨stage, isStage, rfl⟩ := exists_partner paired isGroup
      rw [List.mem_singleton.1 member] at same
      rw [List.inj_on_of_nodup_map distinct isOther isStage same]
    have refines := StageGroup.refines_settled dependencies_wellFormed circuitless
      (StageGroup.combine single)
    rw [refines.shares (StageGroup.shares_combine shared) group isGroup stage.id member stage isStage
      rfl]
    exact fun origin => Stage.mem_drivingOrigins
  · rw [← List.length_map Stage.id, ← stageIds] at manySplits manyBreaks
    rw [groupsAfter, mapped]
    change Except.ok _ = _
    rw [← StageGroup.splitAll_eq_of_separable dependencies_wellFormed
        (fun group _ => StageGroup.separable_of_circuitless circuitless group)
        (combined.population_eq.trans_le manySplits),
      StageGroup.breakRounds_eq_breakCircuits distinct circuitless split independent manyBreaks]

/-- The stages that the sample graph is cut into are classified. -/
theorem exists_groups_classified_sample : ∃ plan, Graph.sample.primitivePlan = .ok plan ∧
    plan.stageIds.Nodup ∧ Circuitless plan.dependencies.Depends ∧
    (∀ stage ∈ plan.stages, ∃ origin, stage.DrivenBy origin) ∧
    ∃ groups, plan.groups = .ok groups ∧ plan.Classified groups := by
  obtain ⟨primitive, groups, grouped⟩ := Graph.exists_grouped_sample
  obtain ⟨level, cuts, plan, isPlan, cutsOf, built⟩ :=
    Graph.exists_primitivePlan grouped.wellFormed grouped.acyclic
  have circuitless := cutsOf.circuitless grouped.wellFormed built
  have driven : ∀ stage ∈ plan.stages, ∃ origin, stage.DrivenBy origin := by
    have all : (Graph.sample.primitivePlan.map fun plan =>
        plan.stages.all fun stage => !stage.drivingOrigins.isEmpty).toOption = some true := by
      decide +kernel
    rw [isPlan] at all
    intro stage isStage
    have some := List.all_eq_true.1 (Option.some.inj all) stage isStage
    by_contra undriven
    have empty : stage.drivingOrigins.isEmpty = true := OrderedSet.isEmpty_iff.2
      fun origin member => undriven ⟨origin, Stage.mem_drivingOrigins.1 member⟩
    simp [empty] at some
  obtain ⟨groups, isGroups, classified, -⟩ :=
    exists_groups_classified built.distinctStages circuitless driven
  exact ⟨plan, isPlan, built.distinctStages, circuitless, driven, groups, isGroups, classified⟩

end Plan

end StagePlanner
