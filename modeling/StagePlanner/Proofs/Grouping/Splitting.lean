import StagePlanner.Plan.Grouping
import StagePlanner.Proofs.Dependency.Circuit

/-!
# Splitting groups until their members are independent

`GroupsOf` says that groups divide a list of stages, `StageGroup.Independent` that no member of a
group depends on another one. A member that a circuit through members leads to is `Entangled`: it
is split off in every round. A group of which no two members are entangled falls into two smaller
parts that are of the same kind, so its rounds come to an end (`settled_splitRounds`), and without
circuits the groups that they leave are independent (`splitAll_spec`).
-/

namespace StagePlanner

open Relation

/-- The groups divide some stages: each of them belongs to one group, and no group is empty. -/
structure GroupsOf (ids : List StageId) (groups : List StageGroup) : Prop where
  members : (groups.flatMap StageGroup.elements).Perm ids
  nonempty : ∀ group ∈ groups, group.elements ≠ []

theorem length_le_of_nonempty {groups : List StageGroup}
    (nonempty : ∀ group ∈ groups, group.elements ≠ []) :
    groups.length ≤ (groups.flatMap StageGroup.elements).length := by
  induction groups with
  | nil => exact Nat.zero_le _
  | cons group rest ih =>
    have others := ih fun other member => nonempty other (List.mem_cons_of_mem _ member)
    have positive := List.length_pos_iff.2 (nonempty group List.mem_cons_self)
    rw [List.flatMap_cons, List.length_append, List.length_cons]
    omega

/-- There are at most as many groups as stages. -/
theorem GroupsOf.length_le {ids : List StageId} {groups : List StageGroup}
    (isDivision : GroupsOf ids groups) : groups.length ≤ ids.length :=
  isDivision.members.length_eq ▸ length_le_of_nonempty isDivision.nonempty

theorem GroupsOf.mem_iff {ids : List StageId} {groups : List StageGroup}
    (isDivision : GroupsOf ids groups) {id : StageId} :
    id ∈ ids ↔ ∃ group ∈ groups, id ∈ group.elements := by
  rw [← isDivision.members.mem_iff, List.mem_flatMap]

variable {dependencies : DependencyGraph StageId}

/-- The stages that some stages depend on are the ends of the ways along dependencies. -/
theorem mem_blockers (wellFormed : dependencies.WellFormed) {elements : List StageId}
    {id : StageId} :
    id ∈ blockers dependencies elements ↔
      ∃ element ∈ elements, TransGen dependencies.Depends element id := by
  have steps : Reach.StepInto dependencies.dependencies dependencies.vertices.toList =
      dependencies.Depends := by
    funext source target
    refine propext ⟨fun taken => DependencyGraph.mem_dependencies.1 taken.1, fun depends => ?_⟩
    exact ⟨DependencyGraph.mem_dependencies.2 depends, wellFormed.dependency depends⟩
  rw [blockers, Reach.mem_reachable, steps]

namespace StageGroup

theorem population_eq (groups : List StageGroup) :
    population groups = (groups.flatMap elements).length := by
  induction groups with
  | nil => rfl
  | cons group rest ih =>
    rw [population, List.map_cons, total_cons, List.flatMap_cons, List.length_append, ← ih]
    rfl

/-- No member of the group depends on a member, directly or not. -/
def Independent (dependencies : DependencyGraph StageId) (group : StageGroup) : Prop :=
  ∀ left ∈ group.elements, ∀ right ∈ group.elements,
    ¬ TransGen dependencies.Depends left right

/-- Members of an independent group may be left out. -/
theorem Independent.subset {group smaller : StageGroup} (independent : group.Independent dependencies)
    (included : smaller.elements ⊆ group.elements) : smaller.Independent dependencies :=
  fun left isLeft right isRight => independent left (included isLeft) right (included isRight)

/-- The members that are split off. -/
def purgedElements (parts : StageGroup × Option StageGroup) : List StageId :=
  (parts.2.map elements).getD []

/-- A way of dependencies leads to the stage from a circuit through one of the members. -/
def Entangled (dependencies : DependencyGraph StageId) (elements : List StageId)
    (id : StageId) : Prop :=
  ∃ member ∈ elements, TransGen dependencies.Depends member member ∧
    ReflTransGen dependencies.Depends member id

/-- Of any two members at most one is entangled. -/
def Separable (dependencies : DependencyGraph StageId) (group : StageGroup) : Prop :=
  group.elements.Pairwise fun left right =>
    ¬ (Entangled dependencies group.elements left ∧ Entangled dependencies group.elements right)

theorem Entangled.mono {fewer elements : List StageId} {id : StageId}
    (entangled : Entangled dependencies fewer id) (included : fewer ⊆ elements) :
    Entangled dependencies elements id := by
  obtain ⟨member, isMember, circuit, way⟩ := entangled
  exact ⟨member, included isMember, circuit, way⟩

/-- Members of a separable group may be left out. -/
theorem Separable.sublist {group smaller : StageGroup} (separable : group.Separable dependencies)
    (included : smaller.elements.Sublist group.elements) : smaller.Separable dependencies :=
  (List.Pairwise.sublist included separable).imp fun apart both =>
    apart ⟨both.1.mono included.subset, both.2.mono included.subset⟩

theorem separable_of_circuitless (circuitless : Circuitless dependencies.Depends)
    (group : StageGroup) : group.Separable dependencies := by
  refine List.pairwise_of_forall fun left right both => ?_
  obtain ⟨⟨member, -, circuit, -⟩, -⟩ := both
  exact circuitless member circuit

/-! ### One split -/

/-- A split divides the members. -/
theorem split_perm (dependencies : DependencyGraph StageId) (group : StageGroup) :
    ((split dependencies group).1.elements ++ purgedElements (split dependencies group)).Perm
      group.elements := by
  rw [split]
  split
  · simp [purgedElements]
  · dsimp only
    split
    · simp [purgedElements]
    · next purged isPurged =>
      rw [purgedElements, Option.map_some, Option.getD_some]
      have parts := List.filter_append_perm
        (fun element => decide (element ∉ blockers dependencies group.elements)) group.elements
      simpa using parts

theorem purged_nonempty {group purged : StageGroup}
    (isPurged : (split dependencies group).2 = some purged) : purged.elements ≠ [] := by
  rw [split] at isPurged
  split at isPurged
  · cases isPurged
  · dsimp only at isPurged
    split at isPurged
    · cases isPurged
    · next nonempty =>
      obtain rfl := Option.some.inj isPurged
      exact fun empty => nonempty empty

theorem perm_splitRound (dependencies : DependencyGraph StageId) (groups : List StageGroup) :
    (((splitRound dependencies groups).1 ++ (splitRound dependencies groups).2).flatMap
      elements).Perm (groups.flatMap elements) := by
  induction groups with
  | nil => exact .refl _
  | cons group rest ih =>
    have purged : ((splitRound dependencies (group :: rest)).2).flatMap elements =
        purgedElements (split dependencies group) ++
          ((splitRound dependencies rest).2).flatMap elements := by
      rw [splitRound, List.map_cons, purgedElements]
      cases found : (split dependencies group).2 with
      | none => rw [List.filterMap_cons_none found]; rfl
      | some part => rw [List.filterMap_cons_some found]; rfl
    have kept : ((splitRound dependencies (group :: rest)).1).flatMap elements =
        (split dependencies group).1.elements ++
          ((splitRound dependencies rest).1).flatMap elements := rfl
    rw [List.flatMap_append, purged, kept, List.flatMap_cons]
    rw [List.flatMap_append] at ih
    have parts := split_perm dependencies group
    rw [List.perm_iff_count] at ih parts ⊢
    intro element
    have first := ih element
    have second := parts element
    simp only [List.count_append] at first second ⊢
    omega

/-- What a split leaves and what it splits off are members in their order. -/
theorem sublist_split (dependencies : DependencyGraph StageId) (group : StageGroup) :
    (split dependencies group).1.elements.Sublist group.elements ∧
      ∀ purged ∈ (split dependencies group).2, purged.elements.Sublist group.elements := by
  rw [split]
  split
  · exact ⟨.refl _, fun _ isPurged => by cases isPurged⟩
  · dsimp only
    split
    · exact ⟨.refl _, fun _ isPurged => by cases isPurged⟩
    · refine ⟨List.filter_sublist, fun purged isPurged => ?_⟩
      obtain rfl := Option.some.inj isPurged
      exact List.filter_sublist

section Splitting

variable (wellFormed : dependencies.WellFormed)

include wellFormed

/-- If a member is not entangled, some member lies on no way from a member. -/
theorem exists_not_blocker {elements : List StageId} {id : StageId} (member : id ∈ elements)
    (free : ¬ Entangled dependencies elements id) :
    ∃ element ∈ elements, element ∉ blockers dependencies elements := by
  classical
  -- The members from which ways lead to the given one depend on each other in no circle.
  let found := elements.filter fun element =>
    decide (ReflTransGen dependencies.Depends element id)
  have mem_found : ∀ element, element ∈ found ↔
      element ∈ elements ∧ ReflTransGen dependencies.Depends element id := by simp [found]
  have circuitless : Circuitless fun source target =>
      TransGen dependencies.Depends source target ∧ source ∈ found := by
    intro vertex circuit
    obtain ⟨_, ⟨-, isFound⟩, -⟩ := TransGen.head'_iff.1 circuit
    obtain ⟨isMember, way⟩ := (mem_found vertex).1 isFound
    exact free ⟨vertex, isMember, TransGen.closed (fun _ _ step => step.1) _ _ circuit, way⟩
  obtain ⟨first, isFound, isFirst⟩ := circuitless.converse.exists_last
    (List.ne_nil_of_mem ((mem_found id).2 ⟨member, .refl⟩))
  obtain ⟨isMember, way⟩ := (mem_found first).1 isFound
  refine ⟨first, isMember, fun isBlocker => ?_⟩
  obtain ⟨element, isElement, before⟩ := (mem_blockers wellFormed).1 isBlocker
  have further := (mem_found element).2 ⟨isElement, before.to_reflTransGen.trans way⟩
  exact isFirst element further ⟨before, further⟩

theorem kept_nonempty {group : StageGroup} (separable : group.Separable dependencies)
    (nonempty : group.elements ≠ []) : (split dependencies group).1.elements ≠ [] := by
  rw [split]
  split
  · exact nonempty
  · next several =>
    dsimp only
    split
    · exact nonempty
    · obtain ⟨id, member, free⟩ : ∃ id ∈ group.elements,
          ¬ Entangled dependencies group.elements id := by
        have apart := List.pairwise_iff_getElem.1 separable 0 1 (by omega) (by omega) Nat.zero_lt_one
        rcases not_and_or.1 apart with free | free
        · exact ⟨_, List.getElem_mem _, free⟩
        · exact ⟨_, List.getElem_mem _, free⟩
      obtain ⟨element, isElement, isFree⟩ := exists_not_blocker wellFormed member free
      exact List.ne_nil_of_mem (List.mem_filter.2 ⟨isElement, by simpa using isFree⟩)

/-- Without circuits a group from which nothing is split off is independent. -/
theorem independent_of_split_eq_none (circuitless : Circuitless dependencies.Depends)
    {group : StageGroup} (nothing : (split dependencies group).2 = none) :
    group.Independent dependencies := by
  intro left isLeft right isRight way
  rw [split] at nothing
  split at nothing
  · next single =>
    obtain ⟨only, isOnly⟩ := List.length_eq_one_iff.1
      (Nat.le_antisymm single (List.length_pos_of_mem isLeft))
    rw [isOnly, List.mem_singleton] at isLeft isRight
    rw [isLeft, isRight] at way
    exact circuitless only way
  · dsimp only at nothing
    split at nothing
    · next empty =>
      refine List.eq_nil_iff_forall_not_mem.1 empty right (List.mem_filter.2 ⟨isRight, ?_⟩)
      simpa using (mem_blockers wellFormed).2 ⟨left, isLeft, way⟩
    · cases nothing

end Splitting

/-! ### Rounds of splitting -/

/-- What is split off goes to the end. -/
def afterRound (dependencies : DependencyGraph StageId)
    (groups : List StageGroup) : List StageGroup :=
  (splitRound dependencies groups).1 ++ (splitRound dependencies groups).2

/-- Nothing is split off from any group. -/
def Settled (dependencies : DependencyGraph StageId) (groups : List StageGroup) : Prop :=
  (splitRound dependencies groups).2 = []

theorem settled_iff {groups : List StageGroup} :
    Settled dependencies groups ↔ ∀ group ∈ groups, (split dependencies group).2 = none := by
  rw [Settled, splitRound, List.filterMap_map, List.filterMap_eq_nil_iff]
  rfl

variable {groups : List StageGroup}

theorem splitRounds_of_settled (settled : Settled dependencies groups) (rounds : Nat) :
    splitRounds dependencies rounds groups = groups := by
  cases rounds with
  | zero => rfl
  | succ rounds =>
    rw [splitRounds]
    split
    · rfl
    · next unsettled result =>
      rw [Settled, result] at settled
      exact absurd settled unsettled

theorem splitRounds_succ (unsettled : ¬ Settled dependencies groups) (rounds : Nat) :
    splitRounds dependencies (rounds + 1) groups =
      splitRounds dependencies rounds (afterRound dependencies groups) := by
  rw [splitRounds]
  split
  · next result =>
    rw [Settled, result] at unsettled
    exact absurd rfl unsettled
  · next result => rw [afterRound, result]

theorem splitAll_of_settled (settled : Settled dependencies groups) :
    splitAll dependencies groups = groups := by
  rw [splitAll]
  split
  · rfl
  · next unsettled result =>
    rw [Settled, result] at settled
    exact absurd settled unsettled

theorem splitAll_of_not_settled (unsettled : ¬ Settled dependencies groups) :
    splitAll dependencies groups = splitAll dependencies (afterRound dependencies groups) := by
  rw [splitAll]
  split
  · next result =>
    rw [Settled, result] at unsettled
    exact absurd rfl unsettled
  · next result => rw [afterRound, result]

/-- Splitting gives the groups of the first round after which nothing is split off. -/
theorem splitAll_eq_splitRounds (rounds : Nat)
    (settled : Settled dependencies (splitRounds dependencies rounds groups)) :
    splitAll dependencies groups = splitRounds dependencies rounds groups := by
  induction rounds generalizing groups with
  | zero => exact splitAll_of_settled settled
  | succ rounds ih =>
    by_cases already : Settled dependencies groups
    · rw [splitRounds_of_settled already, splitAll_of_settled already]
    · rw [splitRounds_succ already] at settled ⊢
      rw [splitAll_of_not_settled already]
      exact ih settled

/-- Splitting with counted rounds, if as many as there are stages are enough. -/
def splitSoon (dependencies : DependencyGraph StageId)
    (groups : List StageGroup) : List StageGroup :=
  let soon := splitRounds dependencies (population groups) groups
  if (splitRound dependencies soon).2 = [] then soon else splitAll dependencies groups

theorem splitAll_eq_splitSoon (dependencies : DependencyGraph StageId) (groups : List StageGroup) :
    splitAll dependencies groups = splitSoon dependencies groups := by
  rw [splitSoon]
  split
  · next settled => exact splitAll_eq_splitRounds _ settled
  · rfl

/-- A group after a round is a part of an old one. -/
theorem separable_afterRound (separable : ∀ group ∈ groups, group.Separable dependencies) :
    ∀ group ∈ afterRound dependencies groups, group.Separable dependencies := by
  intro part member
  rcases List.mem_append.1 member with isKept | isPurged
  · obtain ⟨parts, isParts, rfl⟩ := List.mem_map.1 isKept
    obtain ⟨group, isGroup, rfl⟩ := List.mem_map.1 isParts
    exact (separable group isGroup).sublist (sublist_split dependencies group).1
  · obtain ⟨parts, isParts, isPart⟩ := List.mem_filterMap.1 isPurged
    obtain ⟨group, isGroup, rfl⟩ := List.mem_map.1 isParts
    exact (separable group isGroup).sublist ((sublist_split dependencies group).2 part isPart)

/-- How many members there are beside the first ones of their groups. -/
def surplus (groups : List StageGroup) : Nat :=
  total (groups.map fun group => group.elements.length - 1)

theorem surplus_cons (group : StageGroup) (rest : List StageGroup) :
    surplus (group :: rest) = group.elements.length - 1 + surplus rest := rfl

theorem surplus_append (first second : List StageGroup) :
    surplus (first ++ second) = surplus first + surplus second := by
  induction first with
  | nil => exact (Nat.zero_add _).symm
  | cons group rest ih => rw [List.cons_append, surplus_cons, surplus_cons, ih, Nat.add_assoc]

theorem surplus_le_population (groups : List StageGroup) : surplus groups ≤ population groups := by
  induction groups with
  | nil => exact Nat.le_refl _
  | cons group rest ih =>
    rw [surplus_cons, population, List.map_cons, total_cons]
    exact Nat.add_le_add (Nat.sub_le _ _) ih

section Rounds

variable (wellFormed : dependencies.WellFormed)

include wellFormed

/-- Every group that is split off lowers the surplus. -/
theorem surplus_afterRound (separable : ∀ group ∈ groups, group.Separable dependencies) :
    surplus (afterRound dependencies groups) + (splitRound dependencies groups).2.length ≤
      surplus groups := by
  induction groups with
  | nil => exact Nat.le_refl _
  | cons group rest ih =>
    obtain ⟨first, others⟩ := List.forall_mem_cons.1 separable
    have further := ih others
    have parts := (split_perm dependencies group).length_eq
    rw [List.length_append] at parts
    rw [afterRound, surplus_append] at further ⊢
    have kept : (splitRound dependencies (group :: rest)).1 =
        (split dependencies group).1 :: (splitRound dependencies rest).1 := rfl
    rw [kept, surplus_cons, surplus_cons]
    cases found : (split dependencies group).2 with
    | none =>
      have purged : (splitRound dependencies (group :: rest)).2 =
          (splitRound dependencies rest).2 := List.filterMap_cons_none found
      rw [purgedElements, found] at parts
      simp only [Option.map_none, Option.getD_none, List.length_nil] at parts
      rw [purged]
      omega
    | some part =>
      have purged : (splitRound dependencies (group :: rest)).2 =
          part :: (splitRound dependencies rest).2 := List.filterMap_cons_some found
      have isPurged := List.length_pos_iff.2 (purged_nonempty found)
      have isKept := List.length_pos_iff.2 (kept_nonempty wellFormed first fun empty => by
        rw [empty, purgedElements, found] at parts
        simp only [Option.map_some, Option.getD_some, List.length_nil] at parts
        omega)
      rw [purgedElements, found] at parts
      simp only [Option.map_some, Option.getD_some] at parts
      rw [purged, surplus_cons, List.length_cons]
      omega

/-- Separable groups settle within as many rounds as there is surplus. -/
theorem settled_splitRounds {rounds : Nat}
    (separable : ∀ group ∈ groups, group.Separable dependencies) (enough : surplus groups ≤ rounds) :
    Settled dependencies (splitRounds dependencies rounds groups) := by
  induction rounds generalizing groups with
  | zero =>
    have lowered := surplus_afterRound wellFormed separable
    have none : (splitRound dependencies groups).2.length = 0 := by omega
    exact List.length_eq_zero_iff.1 none
  | succ rounds ih =>
    by_cases settled : Settled dependencies groups
    · rwa [splitRounds_of_settled settled]
    · rw [splitRounds_succ settled]
      have lowered := surplus_afterRound wellFormed separable
      have some := List.length_pos_iff.2 settled
      exact ih (separable_afterRound separable) (by omega)

theorem splitAll_eq_of_separable {rounds : Nat}
    (separable : ∀ group ∈ groups, group.Separable dependencies)
    (enough : population groups ≤ rounds) :
    splitAll dependencies groups = splitRounds dependencies rounds groups :=
  splitAll_eq_splitRounds rounds (settled_splitRounds wellFormed separable
    ((surplus_le_population groups).trans enough))

theorem groupsOf_afterRound {ids : List StageId}
    (separable : ∀ group ∈ groups, group.Separable dependencies) (isDivision : GroupsOf ids groups) :
    GroupsOf ids (afterRound dependencies groups) where
  members := (perm_splitRound dependencies groups).trans isDivision.members
  nonempty := by
    intro part member
    rcases List.mem_append.1 member with isKept | isPurged
    · obtain ⟨parts, isParts, rfl⟩ := List.mem_map.1 isKept
      obtain ⟨group, isGroup, rfl⟩ := List.mem_map.1 isParts
      exact kept_nonempty wellFormed (separable group isGroup) (isDivision.nonempty group isGroup)
    · obtain ⟨parts, isParts, isPart⟩ := List.mem_filterMap.1 isPurged
      obtain ⟨group, isGroup, rfl⟩ := List.mem_map.1 isParts
      exact purged_nonempty isPart

theorem groupsOf_splitRounds {ids : List StageId} (rounds : Nat)
    (separable : ∀ group ∈ groups, group.Separable dependencies) (isDivision : GroupsOf ids groups) :
    GroupsOf ids (splitRounds dependencies rounds groups) := by
  induction rounds generalizing groups with
  | zero => exact isDivision
  | succ rounds ih =>
    by_cases settled : Settled dependencies groups
    · rwa [splitRounds_of_settled settled]
    · rw [splitRounds_succ settled]
      exact ih (separable_afterRound separable)
        (groupsOf_afterRound wellFormed separable isDivision)

/-- Without circuits splitting ends with independent groups. -/
theorem splitAll_spec (circuitless : Circuitless dependencies.Depends) {ids : List StageId}
    (isDivision : GroupsOf ids groups) :
    GroupsOf ids (splitAll dependencies groups) ∧
      ∀ group ∈ splitAll dependencies groups, group.Independent dependencies := by
  have separable : ∀ group ∈ groups, group.Separable dependencies :=
    fun group _ => separable_of_circuitless circuitless group
  have settled := settled_splitRounds wellFormed separable (surplus_le_population groups)
  rw [splitAll_eq_of_separable wellFormed separable (Nat.le_refl _)]
  refine ⟨groupsOf_splitRounds wellFormed _ separable isDivision, fun group isGroup => ?_⟩
  exact independent_of_split_eq_none wellFormed circuitless (settled_iff.1 settled group isGroup)

end Rounds

/-! ### Groups that are split without end -/

section Endless

variable (wellFormed : dependencies.WellFormed)

include wellFormed

theorem Entangled.mem_blockers {elements : List StageId} {id : StageId}
    (entangled : Entangled dependencies elements id) : id ∈ blockers dependencies elements := by
  obtain ⟨member, isMember, circuit, way⟩ := entangled
  exact (StagePlanner.mem_blockers wellFormed).2 ⟨member, isMember, circuit.trans_left way⟩

/-- Among the members that are split off an entangled one is entangled again: the circuit that leads
to it leads to its own start as well. -/
theorem Entangled.among_purged {elements : List StageId} {id : StageId}
    (entangled : Entangled dependencies elements id) :
    Entangled dependencies
      (elements.filter fun element => element ∈ blockers dependencies elements) id := by
  obtain ⟨member, isMember, circuit, way⟩ := entangled
  have onCircuit : member ∈ blockers dependencies elements :=
    (StagePlanner.mem_blockers wellFormed).2 ⟨member, isMember, circuit⟩
  exact ⟨member, List.mem_filter.2 ⟨isMember, decide_eq_true onCircuit⟩, circuit, way⟩

/-- From a group that is not separable such a group is split off. -/
theorem exists_inseparable_purged {group : StageGroup}
    (inseparable : ¬ group.Separable dependencies) :
    ∃ purged, (split dependencies group).2 = some purged ∧ ¬ purged.Separable dependencies := by
  have several : ¬ group.elements.length ≤ 1 := by
    refine fun single => inseparable (List.pairwise_iff_getElem.2 fun left right _ isRight before => ?_)
    omega
  have apart : ¬ (group.elements.filter fun element =>
      element ∈ blockers dependencies group.elements).Pairwise fun left right =>
        ¬ (Entangled dependencies (group.elements.filter fun element =>
            element ∈ blockers dependencies group.elements) left ∧
          Entangled dependencies (group.elements.filter fun element =>
            element ∈ blockers dependencies group.elements) right) := by
    intro apart
    refine inseparable ((List.pairwise_filter.1 apart).imp fun unlikely both => ?_)
    exact unlikely (decide_eq_true (both.1.mem_blockers wellFormed))
      (decide_eq_true (both.2.mem_blockers wellFormed))
      ⟨both.1.among_purged wellFormed, both.2.among_purged wellFormed⟩
  rw [split, if_neg several]
  dsimp only
  split
  · next none =>
    rw [none] at apart
    exact absurd .nil apart
  · exact ⟨_, rfl, apart⟩

/-- A group that is not separable keeps every number of rounds from being enough. -/
theorem not_settled_splitRounds (rounds : Nat) {group : StageGroup} (isGroup : group ∈ groups)
    (inseparable : ¬ group.Separable dependencies) :
    ¬ Settled dependencies (splitRounds dependencies rounds groups) := by
  induction rounds generalizing groups group with
  | zero =>
    intro settled
    obtain ⟨purged, isPurged, -⟩ := exists_inseparable_purged wellFormed inseparable
    rw [settled_iff.1 settled group isGroup] at isPurged
    cases isPurged
  | succ rounds ih =>
    obtain ⟨purged, isPurged, still⟩ := exists_inseparable_purged wellFormed inseparable
    have unsettled : ¬ Settled dependencies groups := by
      intro settled
      rw [settled_iff.1 settled group isGroup] at isPurged
      cases isPurged
    rw [splitRounds_succ unsettled]
    refine ih (List.mem_append_right _ ?_) still
    exact List.mem_filterMap.2 ⟨_, List.mem_map_of_mem isGroup, isPurged⟩

/-- Splitting comes to a round in which nothing is split off exactly if in every group at most one
member lies behind a circuit of members. Then it comes there within as many rounds as there are
stages, and its result is the groups that are left. -/
theorem splitting_ends_iff (groups : List StageGroup) :
    ((∃ rounds, Settled dependencies (splitRounds dependencies rounds groups)) ↔
      ∀ group ∈ groups, group.Separable dependencies) ∧
    ∀ rounds, Settled dependencies (splitRounds dependencies rounds groups) →
      splitAll dependencies groups = splitRounds dependencies rounds groups ∧
      splitAll dependencies groups = splitRounds dependencies (population groups) groups := by
  have separable_of_settled : ∀ rounds,
      Settled dependencies (splitRounds dependencies rounds groups) →
      ∀ group ∈ groups, group.Separable dependencies := by
    intro rounds settled group isGroup
    by_contra inseparable
    exact not_settled_splitRounds wellFormed rounds isGroup inseparable settled
  refine ⟨⟨fun ⟨rounds, settled⟩ => separable_of_settled rounds settled, fun separable => ?_⟩,
    fun rounds settled => ⟨splitAll_eq_splitRounds rounds settled, ?_⟩⟩
  · exact ⟨_, settled_splitRounds wellFormed separable (surplus_le_population groups)⟩
  · exact splitAll_eq_of_separable wellFormed (separable_of_settled rounds settled) (Nat.le_refl _)

end Endless

/-- Two stages that depend on each other, and a third one that depends on the first of them. -/
def circleSample : DependencyGraph StageId :=
  DependencyGraph.ofLists [⟨0⟩, ⟨1⟩, ⟨2⟩] [⟨⟨0⟩, ⟨1⟩⟩, ⟨⟨1⟩, ⟨0⟩⟩, ⟨⟨2⟩, ⟨0⟩⟩]

theorem entangled_circleSample : ∀ id ∈ [(⟨0⟩ : StageId), ⟨1⟩],
    Entangled circleSample [⟨0⟩, ⟨1⟩] id := by
  have there : circleSample.Depends ⟨0⟩ ⟨1⟩ := DependencyGraph.depends_ofLists.2 (by decide)
  have back : circleSample.Depends ⟨1⟩ ⟨0⟩ := DependencyGraph.depends_ofLists.2 (by decide)
  intro id member
  refine ⟨⟨0⟩, List.mem_cons_self, .tail (.single there) back, ?_⟩
  rcases List.mem_pair.1 member with rfl | rfl
  · exact .refl
  · exact .single there

/-- The first stage of the circle can be told from the stage that depends on it, but not from the
other stage of the circle. -/
theorem splitting_ends_circleSample : circleSample.WellFormed ∧
    splitAll circleSample [⟨.singleton ⟨1⟩, [⟨0⟩, ⟨2⟩]⟩] =
      [⟨.singleton ⟨1⟩, [⟨2⟩]⟩, ⟨.singleton ⟨1⟩, [⟨0⟩]⟩] ∧
    ¬ ∃ rounds, Settled circleSample
      (splitRounds circleSample rounds [⟨.singleton ⟨1⟩, [⟨0⟩, ⟨1⟩]⟩]) := by
  have wellFormed : circleSample.WellFormed := DependencyGraph.ofLists_wellFormed
  refine ⟨wellFormed, ?_, fun ends => ?_⟩
  · have settled : Settled circleSample
        (splitRounds circleSample 1 [⟨.singleton ⟨1⟩, [⟨0⟩, ⟨2⟩]⟩]) := by
      rw [Settled]
      decide +kernel
    rw [((splitting_ends_iff wellFormed _).2 1 settled).1]
    decide +kernel
  · have separable := (splitting_ends_iff wellFormed _).1.1 ends _ List.mem_cons_self
    exact (List.pairwise_pair.1 separable)
      ⟨entangled_circleSample _ (by decide), entangled_circleSample _ (by decide)⟩

/-- On circles splitting does not end, although no stage belongs to two groups or to one group twice. -/
theorem not_splitting_ends : ¬ ∀ (dependencies : DependencyGraph StageId) (groups : List StageGroup),
    dependencies.WellFormed →
    (groups.Pairwise fun left right => left.elements.Disjoint right.elements) →
    (∀ group ∈ groups, group.elements.Nodup) →
    ∃ rounds, Settled dependencies (splitRounds dependencies rounds groups) := by
  intro ends
  obtain ⟨rounds, settled⟩ := ends circleSample
    [⟨.singleton ⟨1⟩, [⟨0⟩, ⟨1⟩]⟩, ⟨.singleton ⟨2⟩, [⟨2⟩]⟩] DependencyGraph.ofLists_wellFormed
    (by simp) (by simp)
  refine not_settled_splitRounds DependencyGraph.ofLists_wellFormed rounds List.mem_cons_self
    (fun separable => ?_) settled
  exact (List.pairwise_pair.1 separable)
    ⟨entangled_circleSample _ (by decide), entangled_circleSample _ (by decide)⟩

end StageGroup

namespace Plan

/-- The groups of a plan, found with counted rounds if these are enough. Unlike the loop this can be
evaluated. -/
def groupsSoon (plan : Plan) : Except Fault (List StageGroup) := do
  let groups ← plan.stages.mapM Stage.group
  let dependencies := plan.dependencies
  return StageGroup.breakCircuits dependencies
    (StageGroup.splitSoon dependencies (StageGroup.combine groups))

theorem groups_eq_groupsSoon (plan : Plan) : plan.groups = plan.groupsSoon := by
  simp only [groups, groupsSoon, StageGroup.splitAll_eq_splitSoon]

end Plan

end StagePlanner
