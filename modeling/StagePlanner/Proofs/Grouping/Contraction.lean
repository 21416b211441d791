import StagePlanner.Proofs.Fallible
import StagePlanner.Proofs.Grouping.Splitting
import StagePlanner.Proofs.Plan.Connection

/-!
# Groups that can be merged all at once

Merging every group into one stage contracts the dependencies between stages.
`depends_contracted` reads the contraction that `StageGroup.breakCircuits` looks at, and
`breakCircuits_spec` shows that it ends with groups whose contraction has no circuit: as long as
there is one, some group on it has several members and is split.
-/

namespace StagePlanner

open Relation

variable {dependencies : DependencyGraph StageId} {ids : List StageId} {groups : List StageGroup}

namespace GroupsOf

/-- A stage belongs to one group, at one position. -/
theorem position_unique (isDivision : GroupsOf ids groups) (distinct : ids.Nodup)
    {first second : Nat} {left right : StageGroup} (isLeft : groups[first]? = some left)
    (isRight : groups[second]? = some right) {id : StageId} (inLeft : id ∈ left.elements)
    (inRight : id ∈ right.elements) : first = second := by
  have nodup : (groups.flatMap StageGroup.elements).Nodup :=
    isDivision.members.nodup_iff.2 distinct
  have apart := (List.nodup_flatMap.1 nodup).2
  obtain ⟨firstBound, firstAt⟩ := List.getElem?_eq_some_iff.1 isLeft
  obtain ⟨secondBound, secondAt⟩ := List.getElem?_eq_some_iff.1 isRight
  rw [List.pairwise_iff_getElem] at apart
  rcases Nat.lt_trichotomy first second with before | same | after
  · have disjoint := apart first second firstBound secondBound before
    rw [firstAt, secondAt] at disjoint
    exact absurd inRight (disjoint inLeft)
  · exact same
  · have disjoint := apart second first secondBound firstBound after
    rw [firstAt, secondAt] at disjoint
    exact absurd inLeft (disjoint inRight)

theorem group_unique (isDivision : GroupsOf ids groups) (distinct : ids.Nodup)
    {left right : StageGroup} (isLeft : left ∈ groups) (isRight : right ∈ groups) {id : StageId}
    (inLeft : id ∈ left.elements) (inRight : id ∈ right.elements) : left = right :=
  (List.idxOf_inj isLeft).1 (isDivision.position_unique distinct (List.getElem?_idxOf isLeft)
    (List.getElem?_idxOf isRight) inLeft inRight)

/-- No group is listed twice. -/
theorem nodup (isDivision : GroupsOf ids groups) (distinct : ids.Nodup) : groups.Nodup := by
  have apart := (List.nodup_flatMap.1 (isDivision.members.nodup_iff.2 distinct)).2
  refine apart.imp_of_mem fun {left right} isLeft _ disjoint same => ?_
  subst same
  obtain ⟨id, member⟩ := List.exists_mem_of_ne_nil _ (isDivision.nonempty left isLeft)
  exact disjoint member member

theorem findIdx?_eq_some_iff (isDivision : GroupsOf ids groups) (distinct : ids.Nodup)
    {id : StageId} {position : Nat} :
    (groups.findIdx? fun group => id ∈ group.elements) = some position ↔
      ∃ group, groups[position]? = some group ∧ id ∈ group.elements := by
  rw [List.findIdx?_eq_some_iff_getElem]
  constructor
  · rintro ⟨bound, belongs, -⟩
    exact ⟨groups[position], List.getElem?_eq_getElem bound, of_decide_eq_true belongs⟩
  · rintro ⟨group, isGroup, belongs⟩
    obtain ⟨bound, isAt⟩ := List.getElem?_eq_some_iff.1 isGroup
    refine ⟨bound, by rw [isAt]; exact decide_eq_true belongs, fun earlier before found => ?_⟩
    have earlierBound : earlier < groups.length := Nat.lt_trans before bound
    have same := isDivision.position_unique distinct (List.getElem?_eq_getElem earlierBound) isGroup
      (of_decide_eq_true found) belongs
    exact Nat.ne_of_lt before same

end GroupsOf

namespace StageGroup

/-- A member of the first group depends directly on a member of the second one. -/
def DependsOn (dependencies : DependencyGraph StageId) (group other : StageGroup) : Prop :=
  ∃ dependent ∈ group.elements, ∃ dependency ∈ other.elements,
    dependencies.Depends dependent dependency

/-- One group depends on another one if a member of it does. -/
theorem depends_contracted (isDivision : GroupsOf ids groups) (distinct : ids.Nodup)
    {first second : Nat} :
    (contracted dependencies groups).Depends first second ↔
      ∃ left right, groups[first]? = some left ∧ groups[second]? = some right ∧
        first ≠ second ∧ left.DependsOn dependencies right := by
  simp only [contracted, DependencyGraph.depends_ofLists, List.mem_flatMap, List.mem_filterMap,
    Prod.exists]
  constructor
  · rintro ⟨left, position, isLeft, dependency, ⟨dependent, isMember, depends⟩, isArc⟩
    split at isArc
    · next other owner =>
      split at isArc
      · cases isArc
      · next differ =>
        cases isArc
        obtain ⟨right, isRight, belongs⟩ := (isDivision.findIdx?_eq_some_iff distinct).1 owner
        exact ⟨left, right, List.mem_zipIdx_iff_getElem?.1 isLeft, isRight, fun same =>
          differ same.symm, dependent, isMember, dependency, belongs,
          DependencyGraph.mem_dependencies.1 depends⟩
    · cases isArc
  · rintro ⟨left, right, isLeft, isRight, differ, dependent, isMember, dependency, belongs, depends⟩
    refine ⟨left, first, List.mem_zipIdx_iff_getElem?.2 isLeft, dependency,
      ⟨dependent, isMember, DependencyGraph.mem_dependencies.2 depends⟩, ?_⟩
    rw [(isDivision.findIdx?_eq_some_iff distinct).2 ⟨right, isRight, belongs⟩]
    simp only [if_neg fun same : second = first => differ same.symm]

/-! ### Combining -/

theorem perm_addTo (group : StageGroup) (groups : List StageGroup) :
    ((group.addTo groups).flatMap elements).Perm (groups.flatMap elements ++ group.elements) := by
  induction groups with
  | nil => simp [addTo]
  | cons first rest ih =>
    rw [addTo]
    split
    · rw [List.perm_iff_count]
      intro element
      simp only [List.flatMap_cons, List.count_append]
      omega
    · rw [List.flatMap_cons, List.flatMap_cons, List.append_assoc]
      exact ih.append_left _

theorem nonempty_addTo {group : StageGroup} (nonempty : group.elements ≠ [])
    (others : ∀ other ∈ groups, other.elements ≠ []) :
    ∀ other ∈ group.addTo groups, other.elements ≠ [] := by
  induction groups with
  | nil => simpa [addTo] using nonempty
  | cons first rest ih =>
    obtain ⟨firstNonempty, restNonempty⟩ := List.forall_mem_cons.1 others
    rw [addTo]
    split
    · exact List.forall_mem_cons.2 ⟨by simp [firstNonempty], restNonempty⟩
    · exact List.forall_mem_cons.2 ⟨firstNonempty, ih restNonempty⟩

theorem groupsOf_combine (isDivision : GroupsOf ids groups) : GroupsOf ids (combine groups) := by
  have along : ∀ items combined : List StageGroup, (∀ group ∈ items, group.elements ≠ []) →
      (∀ group ∈ combined, group.elements ≠ []) →
      GroupsOf (combined.flatMap elements ++ items.flatMap elements)
        (items.foldl (fun combined group => group.addTo combined) combined) := by
    intro items
    induction items with
    | nil =>
      intro combined _ nonempty
      exact ⟨by simp, nonempty⟩
    | cons group rest ih =>
      intro combined itemsNonempty nonempty
      obtain ⟨groupNonempty, restNonempty⟩ := List.forall_mem_cons.1 itemsNonempty
      have later := ih (group.addTo combined) restNonempty (nonempty_addTo groupNonempty nonempty)
      refine ⟨later.members.trans ?_, later.nonempty⟩
      rw [List.flatMap_cons, ← List.append_assoc]
      exact (perm_addTo group combined).append_right _
  have all := along groups [] isDivision.nonempty (by simp)
  rw [List.flatMap_nil, List.nil_append] at all
  exact ⟨all.members.trans isDivision.members, all.nonempty⟩

/-! ### Breaking circuits -/

/-- The parts of a group on a circuit divide its members, and there are several if the group has
several members. -/
theorem circuitParts_spec (dependencies : DependencyGraph StageId) (circuit : List StageId)
    (group : StageGroup) :
    ((circuitParts dependencies circuit group).flatten).Perm group.elements ∧
      (∀ part ∈ circuitParts dependencies circuit group, part ≠ []) ∧
      (1 < group.elements.length → 1 < (circuitParts dependencies circuit group).length) := by
  rw [circuitParts]
  dsimp only
  split
  · refine ⟨?_, ?_, fun several => by rwa [List.length_map]⟩
    · rw [← List.flatMap_def, List.flatMap_singleton']
    · simp
  · next proper =>
    simp only [Bool.or_eq_true, List.isEmpty_iff, not_or] at proper
    refine ⟨?_, ?_, fun _ => by simp⟩
    · rw [List.flatten_cons, List.flatten_cons, List.flatten_nil, List.append_nil]
      have parts := List.filter_append_perm (fun element => !((blockers dependencies [element]).any
        fun other => other ≠ element && other ∈ circuit)) group.elements
      simpa only [Bool.not_not] using parts
    · rintro part isPart rfl
      rcases List.mem_cons.1 isPart with isKept | isMoved
      · exact proper.2 isKept.symm
      · exact proper.1 (List.mem_singleton.1 isMoved).symm

/-- The groups that stand at the place of a split group and behind the others. -/
def withParts (groups : List StageGroup) (position : Nat) (group : StageGroup)
    (first : List StageId) (others : List (List StageId)) : List StageGroup :=
  groups.set position { group with elements := first } ++
    others.map fun elements => { group with elements }

theorem mem_withParts {position : Nat} {group part : StageGroup} {first : List StageId}
    {others : List (List StageId)} (isPart : part ∈ withParts groups position group first others) :
    part ∈ groups ∨ part.elements ∈ first :: others := by
  rcases List.mem_append.1 isPart with changed | new
  · rcases List.mem_or_eq_of_mem_set changed with old | rfl
    · exact .inl old
    · exact .inr List.mem_cons_self
  · obtain ⟨elements, isOther, rfl⟩ := List.mem_map.1 new
    exact .inr (List.mem_cons_of_mem _ isOther)

/-- Parts that divide a group have the members of the group in its place. -/
theorem perm_withParts {position : Nat} {group : StageGroup}
    (isGroup : groups[position]? = some group) {first : List StageId} {others : List (List StageId)}
    (divides : (first :: others).flatten.Perm group.elements) :
    ((withParts groups position group first others).flatMap elements).Perm
      (groups.flatMap elements) := by
  obtain ⟨bound, isAt⟩ := List.getElem?_eq_some_iff.1 isGroup
  have around : groups = groups.take position ++ group :: groups.drop (position + 1) := by
    rw [← isAt, ← List.drop_eq_getElem_cons bound, List.take_append_drop]
  have apart : (others.map fun elements => { group with elements }).flatMap elements =
      others.flatten := by
    rw [List.flatMap_map]
    exact List.flatMap_id
  rw [withParts, List.set_eq_take_append_cons_drop, if_pos bound, List.flatMap_append, apart]
  rw [List.perm_iff_count] at divides ⊢
  intro element
  have same := divides element
  conv_rhs => rw [around]
  simp only [List.flatMap_append, List.flatMap_cons, List.count_append,
    List.flatten_cons] at same ⊢
  omega

/-- Splitting the group at a position divides the same stages into more groups, each within an old
one. -/
theorem splitAt_spec (circuit : List StageId) (isDivision : GroupsOf ids groups) {position : Nat}
    {group : StageGroup} (isGroup : groups[position]? = some group)
    (several : 1 < group.elements.length) :
    GroupsOf ids (splitAt dependencies circuit groups position) ∧
      groups.length < (splitAt dependencies circuit groups position).length ∧
      ∀ part ∈ splitAt dependencies circuit groups position, ∃ whole ∈ groups,
        part.elements ⊆ whole.elements := by
  obtain ⟨divides, nonempty, manyParts⟩ := circuitParts_spec dependencies circuit group
  have enough := manyParts several
  cases parts : circuitParts dependencies circuit group with
  | nil =>
    rw [parts] at enough
    cases enough
  | cons first others =>
    rw [parts] at divides nonempty enough
    have result : splitAt dependencies circuit groups position =
        withParts groups position group first others := by
      rw [splitAt, isGroup]
      simp only [parts, withParts]
    rw [result]
    refine ⟨⟨(perm_withParts isGroup divides).trans isDivision.members, fun part isPart => ?_⟩, ?_,
      fun part isPart => ?_⟩
    · rcases mem_withParts isPart with old | new
      · exact isDivision.nonempty part old
      · exact nonempty part.elements new
    · rw [List.length_cons] at enough
      rw [withParts, List.length_append, List.length_set, List.length_map]
      omega
    · rcases mem_withParts isPart with old | new
      · exact ⟨part, old, fun _ member => member⟩
      · refine ⟨group, List.mem_of_getElem? isGroup, fun element member => ?_⟩
        exact divides.mem_iff.1 (List.mem_flatten.2 ⟨part.elements, new, member⟩)

theorem onCircuit?_eq_some {position : Nat} {circuit : List StageId}
    (found : onCircuit? dependencies groups = some (position, circuit)) :
    ∃ group, groups[position]? = some group ∧ 1 < group.elements.length := by
  rw [onCircuit?] at found
  split at found
  · cases found
  · obtain ⟨place, isPlace, same⟩ := Option.map_eq_some_iff.1 found
    cases same
    have several := List.find?_some isPlace
    cases isGroup : groups[position]? with
    | none => simp [isGroup] at several
    | some group => exact ⟨group, rfl, by simpa [isGroup] using several⟩

/-- Along a circuit of groups with a single member each, ways are ways between these members. -/
theorem transGen_of_single (isDivision : GroupsOf ids groups) (distinct : ids.Nodup)
    {circuit : OrderedSet Nat} {start : Nat} (isStart : start ∈ circuit)
    (isCircuit : ∀ position, position ∈ circuit ↔
      TransGen (contracted dependencies groups).Depends start position ∧
        TransGen (contracted dependencies groups).Depends position start)
    (single : ∀ position ∈ circuit, ∀ group, groups[position]? = some group →
      ∀ left ∈ group.elements, ∀ right ∈ group.elements, left = right)
    {position : Nat} (way : TransGen (contracted dependencies groups).Depends start position)
    (onCircuit : position ∈ circuit) {left right : StageGroup} (isLeft : groups[start]? = some left)
    (isRight : groups[position]? = some right) {dependent dependency : StageId}
    (isDependent : dependent ∈ left.elements) (isDependency : dependency ∈ right.elements) :
    TransGen dependencies.Depends dependent dependency := by
  induction way generalizing right dependency with
  | single step =>
    obtain ⟨first, second, isFirst, isSecond, -, source, isSource, target, isTarget, depends⟩ :=
      (depends_contracted isDivision distinct).1 step
    obtain rfl := Option.some.inj (isLeft.symm.trans isFirst)
    obtain rfl := Option.some.inj (isRight.symm.trans isSecond)
    rw [single start isStart left isLeft dependent isDependent source isSource,
      single _ onCircuit right isRight dependency isDependency target isTarget]
    exact .single depends
  | @tail middle position before step ih =>
    obtain ⟨first, second, isFirst, isSecond, -, source, isSource, target, isTarget, depends⟩ :=
      (depends_contracted isDivision distinct).1 step
    obtain rfl := Option.some.inj (isRight.symm.trans isSecond)
    have middleOn : middle ∈ circuit :=
      (isCircuit middle).2 ⟨before, .head step ((isCircuit position).1 onCircuit).2⟩
    rw [single _ onCircuit right isRight dependency isDependency target isTarget]
    exact (ih middleOn isFirst isSource).tail depends

/-- When no group is left to be split, the contraction has no circuit. -/
theorem circuitless_of_onCircuit?_eq_none (isDivision : GroupsOf ids groups) (distinct : ids.Nodup)
    (circuitless : Circuitless dependencies.Depends)
    (settled : onCircuit? dependencies groups = none) :
    Circuitless (contracted dependencies groups).Depends := by
  have wellFormed : (contracted dependencies groups).WellFormed := DependencyGraph.ofLists_wellFormed
  rw [← DependencyGraph.circuits_eq_nil_iff wellFormed]
  rw [onCircuit?] at settled
  split at settled
  · assumption
  · next circuit others listed =>
    rw [Option.map_eq_none_iff, List.find?_eq_none] at settled
    have single : ∀ position ∈ circuit, ∀ group, groups[position]? = some group →
        ∀ left ∈ group.elements, ∀ right ∈ group.elements, left = right := by
      intro position onCircuit group isGroup left isLeft right isRight
      have few := settled position onCircuit
      simp only [isGroup, Option.map_some, Option.getD_some, decide_eq_true_eq] at few
      obtain ⟨only, isOnly⟩ := List.length_eq_one_iff.1
        (Nat.le_antisymm (Nat.not_lt.1 few) (List.length_pos_of_mem isLeft))
      rw [isOnly, List.mem_singleton] at isLeft isRight
      exact isLeft.trans isRight.symm
    obtain ⟨start, isStart, isCircuit⟩ := (DependencyGraph.mem_circuits_iff wellFormed).1
      (listed ▸ List.mem_cons_self)
    have around := ((isCircuit start).1 isStart).1
    obtain ⟨position, step, -⟩ := TransGen.head'_iff.1 around
    obtain ⟨left, -, isLeft, -, -, dependent, isDependent, -⟩ :=
      (depends_contracted isDivision distinct).1 step
    exact absurd (transGen_of_single isDivision distinct isStart isCircuit single around isStart
      isLeft isLeft isDependent isDependent) (circuitless dependent)

/-- After some rounds no group is left to be split, or there are as many more groups. -/
theorem breakRounds_spec (rounds : Nat) {groups : List StageGroup} (isDivision : GroupsOf ids groups)
    (independent : ∀ group ∈ groups, group.Independent dependencies) :
    GroupsOf ids (breakRounds dependencies rounds groups) ∧
      (∀ group ∈ breakRounds dependencies rounds groups, group.Independent dependencies) ∧
      (onCircuit? dependencies (breakRounds dependencies rounds groups) = none ∨
        groups.length + rounds ≤ (breakRounds dependencies rounds groups).length) := by
  induction rounds generalizing groups with
  | zero => exact ⟨isDivision, independent, .inr (Nat.le_refl _)⟩
  | succ rounds ih =>
    rw [breakRounds]
    split
    · next settled => exact ⟨isDivision, independent, .inl settled⟩
    · next position circuit found =>
      obtain ⟨group, isGroup, several⟩ := onCircuit?_eq_some found
      obtain ⟨next, longer, within⟩ := splitAt_spec circuit isDivision isGroup several
      obtain ⟨still, allIndependent, done⟩ := ih next fun part isPart => by
        obtain ⟨whole, isWhole, included⟩ := within part isPart
        exact (independent whole isWhole).subset included
      exact ⟨still, allIndependent, done.imp_right fun enough => by omega⟩

/-- Breaking circuits ends with independent groups whose contraction has no circuit. -/
theorem breakCircuits_spec (distinct : ids.Nodup) (circuitless : Circuitless dependencies.Depends)
    (isDivision : GroupsOf ids groups)
    (independent : ∀ group ∈ groups, group.Independent dependencies) :
    GroupsOf ids (breakCircuits dependencies groups) ∧
      (∀ group ∈ breakCircuits dependencies groups, group.Independent dependencies) ∧
      Circuitless (contracted dependencies (breakCircuits dependencies groups)).Depends := by
  obtain ⟨still, allIndependent, done⟩ :=
    breakRounds_spec (population groups) isDivision independent
  refine ⟨still, allIndependent, circuitless_of_onCircuit?_eq_none still distinct circuitless ?_⟩
  rcases done with settled | enough
  · exact settled
  · have population := population_eq groups
    have few := still.length_le
    rw [isDivision.members.length_eq] at population
    have none : groups.length = 0 := by omega
    rw [breakCircuits, List.length_eq_zero_iff.1 none]
    rfl

end StageGroup

/-- Groups of stages that can be merged all at once. -/
structure Mergeable (dependencies : DependencyGraph StageId) (ids : List StageId)
    (groups : List StageGroup) : Prop extends GroupsOf ids groups where
  /-- No member of a group depends on another one, directly or not. -/
  independent : ∀ group ∈ groups, group.Independent dependencies
  /-- Between groups there is no circuit. -/
  circuitless : Circuitless fun group other : StageGroup =>
    group ∈ groups ∧ other ∈ groups ∧ group ≠ other ∧ group.DependsOn dependencies other

/-- The groups of the single stages divide the stages. -/
theorem Plan.groupsOf_single {plan : Plan} {single : List StageGroup}
    (mapped : plan.stages.mapM Stage.group = .ok single) : GroupsOf plan.stageIds single := by
  have elements : single.map StageGroup.elements = plan.stages.map fun stage => [stage.id] := by
    have same : List.Forall₂ (· = ·) (plan.stages.map fun stage => [stage.id])
        (single.map StageGroup.elements) := by
      rw [List.forall₂_map_left_iff, List.forall₂_map_right_iff]
      refine (mapM_eq_ok_iff.1 mapped).imp fun stage group isGroup => ?_
      rw [Stage.group] at isGroup
      split at isGroup
      · cases isGroup
      · cases isGroup
        rfl
    exact (List.forall₂_eq_eq_eq ▸ same).symm
  refine ⟨?_, fun group isGroup => ?_⟩
  · rw [List.flatMap_def, elements, ← List.flatMap_def, stageIds, List.map_eq_flatMap]
  · have listed := List.mem_map_of_mem (f := StageGroup.elements) isGroup
    rw [elements] at listed
    obtain ⟨stage, -, same⟩ := List.mem_map.1 listed
    simp [← same]

/-- The groups that a plan without circuits is divided into can be merged all at once. -/
theorem Plan.mergeable_groups {plan : Plan} (distinct : plan.stageIds.Nodup)
    (circuitless : Circuitless plan.dependencies.Depends) {groups : List StageGroup}
    (isGroups : plan.groups = .ok groups) :
    Mergeable plan.dependencies plan.stageIds groups := by
  obtain ⟨single, mapped, rest⟩ := bind_eq_ok_iff.1 isGroups
  have settled := Except.ok.inj rest
  obtain ⟨split, independent⟩ := StageGroup.splitAll_spec dependencies_wellFormed circuitless
    (StageGroup.groupsOf_combine (groupsOf_single mapped))
  obtain ⟨divides, stillIndependent, noCircuit⟩ :=
    StageGroup.breakCircuits_spec distinct circuitless split independent
  rw [settled] at divides stillIndependent noCircuit
  refine ⟨divides, stillIndependent, noCircuit.of_map groups.idxOf ?_⟩
  rintro group other ⟨isGroup, isOther, differ, depends⟩
  refine (StageGroup.depends_contracted divides distinct).2 ⟨group, other,
    List.getElem?_idxOf isGroup, List.getElem?_idxOf isOther, fun same => differ ?_, depends⟩
  exact (List.idxOf_inj isGroup).1 same

end StagePlanner
