import Mathlib.Data.List.Nodup
import Mathlib.Logic.Relation
import StagePlanner.Partition

/-!
# Classes of partitions

The parents of a partition form a forest in which every way leads down to the smallest member of
its class. `Partition.Forest` is that invariant; it makes the climb to a representative end.

* `Forest.find` shows that looking a representative up changes no class.
* `unites_union` and `unites_unite` show that two members have one class after they are united,
  whichever ways the look-ups shorten.
* `Generates.merge` shows that a partition represents the smallest equivalence that contains the
  united pairs.
* `Generates.mem_classes_iff` and `classes_pairwise` describe the listed classes.
-/

namespace StagePlanner.Partition

open Relation

variable {α : Type} [DecidableEq α]

/-! ### Parents -/

theorem parent_of_not_mem {partition : Partition α} {item : α} (absent : item ∉ partition.members) :
    partition.parent item = item := by
  have missing : partition.parents.lookup item = none := by
    rw [List.lookup_eq_none_iff]
    intro entry member
    have differs : item ≠ entry.1 := fun same => absent (same ▸ List.mem_map_of_mem member)
    simpa using differs
  rw [parent, missing, Option.getD_none]

theorem mem_of_parent_ne {partition : Partition α} {item : α}
    (moves : partition.parent item ≠ item) : item ∈ partition.members := by
  by_contra absent
  exact moves (parent_of_not_mem absent)

@[simp] theorem members_setParent {partition : Partition α} {item target : α} :
    (partition.setParent item target).members = partition.members := by
  rw [members, members, setParent, List.map_map]
  refine List.map_congr_left fun entry _ => ?_
  by_cases same : entry.1 = item <;> simp [same]

theorem lookup_setParent {partition : Partition α} {item target other : α} :
    (partition.setParent item target).parents.lookup other =
      if other = item then (partition.parents.lookup other).map fun _ => target
      else partition.parents.lookup other := by
  obtain ⟨entries⟩ := partition
  simp only [setParent]
  induction entries with
  | nil => simp
  | cons entry rest ih =>
    obtain ⟨key, value⟩ := entry
    by_cases sameOther : other = key
    · subst sameOther
      by_cases sameKey : other = item <;> simp [sameKey]
    · have differs : (other == key) = false := by simpa using sameOther
      by_cases sameKey : key = item
      · subst sameKey
        simpa [List.lookup_cons, differs, sameOther] using ih
      · simpa [List.lookup_cons, differs, sameKey] using ih

theorem parent_setParent {partition : Partition α} {item target other : α}
    (member : item ∈ partition.members) :
    (partition.setParent item target).parent other =
      if other = item then target else partition.parent other := by
  rw [parent, lookup_setParent]
  split
  · next same =>
    obtain ⟨entry, entryMember, rfl⟩ := List.mem_map.1 member
    have listed : (partition.parents.lookup other).isSome := by
      rw [List.lookup_isSome_iff]
      exact ⟨entry, entryMember, by simp [same]⟩
    obtain ⟨value, found⟩ := Option.isSome_iff_exists.1 listed
    simp [found]
  · rfl

theorem parent_add {partition : Partition α} {item other : α} :
    (partition.add item).parent other = partition.parent other := by
  rw [add]
  split
  · rfl
  · simp only [parent, List.lookup_append, List.lookup_cons, List.lookup_nil]
    by_cases same : other = item
    · subst same
      cases partition.parents.lookup other <;> simp
    · have differs : (other == item) = false := by simpa using same
      cases partition.parents.lookup other <;> simp [differs]

theorem mem_members_add {partition : Partition α} {item other : α} :
    other ∈ (partition.add item).members ↔ other = item ∨ other ∈ partition.members := by
  rw [add]
  split
  · next known =>
    constructor
    · exact .inr
    · rintro (rfl | member)
      · exact known
      · exact member
  · simp [members, or_comm]

/-! ### Forests -/

/-- Some number of steps from an item to one of its ancestors. -/
def Leads (partition : Partition α) : α → α → Prop :=
  ReflTransGen fun item ancestor => partition.parent item = ancestor

theorem leads_climb {partition : Partition α} {steps : Nat} {item : α} :
    partition.Leads item (partition.climb steps item) := by
  induction steps generalizing item with
  | zero => exact .refl
  | succ steps ih =>
    rw [climb]
    split
    · exact .refl
    · exact .head rfl ih

/-- From a representative no way leads anywhere else. -/
theorem eq_of_leads {partition : Partition α} {item ancestor : α}
    (isRoot : partition.parent item = item) (way : partition.Leads item ancestor) :
    ancestor = item := by
  induction way with
  | refl => rfl
  | tail _ step ih => rw [← step, ih, isRoot]

/-- Two ways from one item to representatives end at the same one. -/
theorem leads_unique {partition : Partition α} {item left right : α}
    (leftRoot : partition.parent left = left) (rightRoot : partition.parent right = right)
    (leftWay : partition.Leads item left) (rightWay : partition.Leads item right) :
    left = right := by
  induction leftWay using ReflTransGen.head_induction_on with
  | refl => exact (eq_of_leads leftRoot rightWay).symm
  | head step _ ih =>
    rcases ReflTransGen.cases_head rightWay with same | ⟨next, nextStep, rest⟩
    · subst same
      rw [rightRoot] at step
      exact ih (step ▸ .refl)
    · exact ih (step.symm.trans nextStep ▸ rest)

variable [Ord α]

/-- Members are listed once and every parent is a member that is not larger. -/
structure Forest (partition : Partition α) : Prop where
  nodup : partition.members.Nodup
  closed : ∀ item ∈ partition.members, partition.parent item ∈ partition.members
  descends : ∀ item, partition.parent item = item ∨ compare (partition.parent item) item = .lt

/-- The number of members that are smaller than an item; it bounds the climb from the item. -/
def height (partition : Partition α) (item : α) : Nat :=
  (partition.members.filter fun other => compare other item = .lt).length

omit [DecidableEq α] in
theorem height_le_length (partition : Partition α) (item : α) :
    partition.height item ≤ partition.parents.length := by
  have counted : partition.members.length = partition.parents.length := List.length_map _
  exact counted ▸ List.length_filter_le _ _

theorem Forest.empty : (⟨[]⟩ : Partition α).Forest where
  nodup := List.nodup_nil
  closed := by simp [members]
  descends item := .inl (parent_of_not_mem (by simp [members]))

theorem Forest.add {partition : Partition α} (forest : partition.Forest) (item : α) :
    (partition.add item).Forest where
  nodup := by
    rw [Partition.add]
    split
    · exact forest.nodup
    · next fresh =>
      simp only [members, List.map_append, List.map_cons, List.map_nil]
      exact List.nodup_append.2 ⟨forest.nodup, List.nodup_singleton _, by
        rintro other member _ same rfl
        exact fresh (List.mem_singleton.1 same ▸ member)⟩
  closed other member := by
    rw [parent_add]
    rcases mem_members_add.1 member with rfl | known
    · by_cases known : other ∈ partition.members
      · exact mem_members_add.2 (.inr (forest.closed other known))
      · exact mem_members_add.2 (.inl (parent_of_not_mem known))
    · exact mem_members_add.2 (.inr (forest.closed other known))
  descends other := by rw [parent_add]; exact forest.descends other

theorem Forest.setParent {partition : Partition α} (forest : partition.Forest) {item target : α}
    (member : item ∈ partition.members) (targetMember : target ∈ partition.members)
    (smaller : target = item ∨ compare target item = .lt) :
    (partition.setParent item target).Forest where
  nodup := by rw [members_setParent]; exact forest.nodup
  closed other otherMember := by
    rw [members_setParent] at otherMember ⊢
    rw [parent_setParent member]
    split
    · exact targetMember
    · exact forest.closed other otherMember
  descends other := by
    rw [parent_setParent member]
    split
    · next same => exact same ▸ smaller
    · exact forest.descends other

variable [Std.TransOrd α]

theorem Forest.height_parent_lt {partition : Partition α} (forest : partition.Forest) {item : α}
    (moves : partition.parent item ≠ item) :
    partition.height (partition.parent item) < partition.height item := by
  have below := (forest.descends item).resolve_left moves
  have parentMember := forest.closed item (mem_of_parent_ne moves)
  have nested : (partition.members.filter fun other => compare other (partition.parent item) = .lt) =
      (partition.members.filter fun other => compare other item = .lt).filter fun other =>
        compare other (partition.parent item) = .lt := by
    rw [List.filter_filter]
    refine List.filter_congr fun other _ => ?_
    by_cases smaller : compare other (partition.parent item) = .lt
    · simp [smaller, Std.TransCmp.lt_trans smaller below]
    · simp [smaller]
  rw [height, height, nested]
  refine List.length_filter_lt_length_iff_exists.2 ⟨partition.parent item, ?_, ?_⟩
  · exact List.mem_filter.2 ⟨parentMember, by simpa using below⟩
  · simp [Std.ReflCmp.compare_self]

/-- What holds of representatives and passes from parents to their children holds of all items. -/
theorem Forest.induction {partition : Partition α} (forest : partition.Forest) {motive : α → Prop}
    (root : ∀ item, partition.parent item = item → motive item)
    (child : ∀ item, partition.parent item ≠ item → motive (partition.parent item) → motive item)
    (item : α) : motive item := by
  induction bound : partition.height item using Nat.strongRecOn generalizing item with
  | ind height ih =>
    by_cases isRoot : partition.parent item = item
    · exact root item isRoot
    · exact child item isRoot (ih _ (bound ▸ forest.height_parent_lt isRoot) _ rfl)

theorem Forest.parent_climb {partition : Partition α} (forest : partition.Forest) {steps : Nat}
    {item : α} (enough : partition.height item ≤ steps) :
    partition.parent (partition.climb steps item) = partition.climb steps item := by
  induction steps generalizing item with
  | zero =>
    by_contra moves
    have := forest.height_parent_lt moves
    rw [climb] at this
    omega
  | succ steps ih =>
    rw [climb]
    split
    · next isRoot => exact isRoot
    · next moves => exact ih (by have := forest.height_parent_lt moves; omega)

section Roots

variable {partition : Partition α} (forest : partition.Forest)

include forest

theorem Forest.parent_root {item : α} :
    partition.parent (partition.root item) = partition.root item :=
  forest.parent_climb (partition.height_le_length item)

theorem Forest.root_eq_of_leads {item ancestor : α} (way : partition.Leads item ancestor)
    (isRoot : partition.parent ancestor = ancestor) : partition.root item = ancestor :=
  leads_unique forest.parent_root isRoot leads_climb way

theorem Forest.root_of_parent_eq {item : α} (isRoot : partition.parent item = item) :
    partition.root item = item :=
  forest.root_eq_of_leads .refl isRoot

theorem Forest.root_parent {item : α} :
    partition.root (partition.parent item) = partition.root item :=
  (forest.root_eq_of_leads (.head rfl leads_climb) forest.parent_root).symm

theorem Forest.root_root {item : α} :
    partition.root (partition.root item) = partition.root item :=
  forest.root_of_parent_eq forest.parent_root

theorem Forest.root_mem {item : α} (member : item ∈ partition.members) :
    partition.root item ∈ partition.members := by
  induction item using forest.induction with
  | root item isRoot => rwa [forest.root_of_parent_eq isRoot]
  | child item _ ih => exact forest.root_parent ▸ ih (forest.closed item member)

theorem Forest.root_le {item : α} :
    partition.root item = item ∨ compare (partition.root item) item = .lt := by
  induction item using forest.induction with
  | root item isRoot => exact .inl (forest.root_of_parent_eq isRoot)
  | child item moves ih =>
    have below := (forest.descends item).resolve_left moves
    rw [forest.root_parent] at ih
    rcases ih with same | smaller
    · exact .inr (same ▸ below)
    · exact .inr (Std.TransCmp.lt_trans smaller below)

/-- Pointing a member to its representative changes no representative. -/
theorem Forest.root_compress {item : α} (member : item ∈ partition.members) :
    (partition.setParent item (partition.root item)).Forest ∧
      ∀ other, (partition.setParent item (partition.root item)).root other =
        partition.root other := by
  have compressed := forest.setParent member (forest.root_mem member) forest.root_le
  have rootStays : (partition.setParent item (partition.root item)).root (partition.root item) =
      partition.root item := by
    refine compressed.root_of_parent_eq ?_
    rw [parent_setParent member]
    split
    · rfl
    · exact forest.parent_root
  refine ⟨compressed, fun other => ?_⟩
  induction other using forest.induction with
  | root other isRoot =>
    rw [forest.root_of_parent_eq isRoot]
    refine compressed.root_of_parent_eq ?_
    rw [parent_setParent member]
    split
    · next same => rw [same, forest.root_of_parent_eq (same ▸ isRoot)]
    · exact isRoot
  | child other moves ih =>
    rw [← compressed.root_parent, parent_setParent member]
    split
    · next same => rw [rootStays, same]
    · rw [ih, forest.root_parent]

/-- Pointing one representative to a smaller one moves exactly its class. -/
theorem Forest.root_link {keep drop : α} (dropMember : drop ∈ partition.members)
    (keepMember : keep ∈ partition.members) (keepRoot : partition.parent keep = keep)
    (dropRoot : partition.parent drop = drop) (smaller : compare keep drop = .lt) :
    (partition.setParent drop keep).Forest ∧
      ∀ other, (partition.setParent drop keep).root other =
        if partition.root other = drop then keep else partition.root other := by
  have linked := forest.setParent dropMember keepMember (.inr smaller)
  have differ : keep ≠ drop := by
    rintro rfl
    have self : compare keep keep = .eq := Std.ReflCmp.compare_self
    exact absurd (self.symm.trans smaller) (by decide)
  have keepStays : (partition.setParent drop keep).root keep = keep := by
    refine linked.root_of_parent_eq ?_
    rw [parent_setParent dropMember, if_neg differ, keepRoot]
  refine ⟨linked, fun other => ?_⟩
  induction other using forest.induction with
  | root other isRoot =>
    rw [forest.root_of_parent_eq isRoot]
    split
    · next same => rw [← linked.root_parent, parent_setParent dropMember, if_pos same, keepStays]
    · next different =>
      exact linked.root_of_parent_eq (by rw [parent_setParent dropMember, if_neg different, isRoot])
  | child other moves ih =>
    have different : other ≠ drop := fun same => moves (same ▸ dropRoot)
    rw [← linked.root_parent, parent_setParent dropMember, if_neg different, ih,
      forest.root_parent]

end Roots

/-- Shortening the way of an item keeps the members and the representatives. -/
theorem Forest.shorten {root item : α} {steps : Nat} {partition : Partition α}
    (forest : partition.Forest) (member : item ∈ partition.members)
    (isRoot : partition.root item = root) :
    (shorten root steps item partition).Forest ∧
      (Partition.shorten root steps item partition).members = partition.members ∧
      ∀ other, (Partition.shorten root steps item partition).root other = partition.root other := by
  induction steps generalizing item partition with
  | zero => exact ⟨forest, rfl, fun _ => rfl⟩
  | succ steps ih =>
    rw [Partition.shorten]
    split
    · exact ⟨forest, rfl, fun _ => rfl⟩
    · subst isRoot
      obtain ⟨compressed, roots⟩ := forest.root_compress member
      have parentMember := forest.closed item member
      rw [← members_setParent] at parentMember
      obtain ⟨shortened, members, same⟩ :=
        ih compressed parentMember (by rw [roots, forest.root_parent])
      exact ⟨shortened, by rw [members, members_setParent], fun other => by rw [same, roots]⟩

/-- Looking a representative up keeps the members and the representatives. -/
theorem Forest.find {partition : Partition α} (forest : partition.Forest) {item : α}
    (member : item ∈ partition.members) :
    (partition.find item).1 = partition.root item ∧ (partition.find item).2.Forest ∧
      (partition.find item).2.members = partition.members ∧
      ∀ other, (partition.find item).2.root other = partition.root other :=
  ⟨rfl, forest.shorten member rfl⟩

variable [Std.LawfulEqOrd α]

/-- A later partition has the members of an earlier one, and two classes of the earlier one are one
class of it. -/
structure Merges (before after : Partition α) (left right : α) : Prop where
  forest : after.Forest
  members : after.members = before.members
  /-- One of the two representatives takes the place of the other. -/
  roots : ∃ keep drop, ((keep = before.root left ∧ drop = before.root right) ∨
      (keep = before.root right ∧ drop = before.root left)) ∧
    ∀ other, after.root other = if before.root other = drop then keep else before.root other

/-- Linking the representatives of two members in a partition in which no representative has changed
merges their classes. -/
theorem Forest.link {partition shortened : Partition α} (forest : partition.Forest)
    (shortenedForest : shortened.Forest) (members : shortened.members = partition.members)
    (same : ∀ other, shortened.root other = partition.root other) {left right : α}
    (leftMember : left ∈ partition.members) (rightMember : right ∈ partition.members) :
    partition.Merges (shortened.link (partition.root left) (partition.root right)) left right := by
  have isRoot : ∀ other, shortened.parent (partition.root other) = partition.root other :=
    fun other => same other ▸ shortenedForest.parent_root
  have isMember : ∀ other ∈ partition.members, partition.root other ∈ shortened.members :=
    fun other member => members ▸ forest.root_mem member
  rw [Partition.link]
  split
  · next equal =>
    refine ⟨shortenedForest, members, partition.root left, partition.root right, .inl ⟨rfl, rfl⟩, ?_⟩
    intro other
    rw [same]
    split
    · next isRight => rw [isRight, equal]
    · rfl
  · next different =>
    split
    · next smaller =>
      obtain ⟨linked, roots⟩ := shortenedForest.root_link (isMember right rightMember)
        (isMember left leftMember) (isRoot left) (isRoot right) smaller
      exact ⟨linked, by rw [members_setParent, members], _, _, .inl ⟨rfl, rfl⟩,
        fun other => by rw [roots, same]⟩
    · next notSmaller =>
      have smaller : compare (partition.root right) (partition.root left) = .lt := by
        rw [← Std.OrientedCmp.gt_iff_lt]
        cases order : compare (partition.root left) (partition.root right) with
        | lt => exact absurd order notSmaller
        | eq => exact absurd (Std.LawfulEqCmp.eq_of_compare order) different
        | gt => rfl
      obtain ⟨linked, roots⟩ := shortenedForest.root_link (isMember left leftMember)
        (isMember right rightMember) (isRoot right) (isRoot left) smaller
      exact ⟨linked, by rw [members_setParent, members], _, _, .inr ⟨rfl, rfl⟩,
        fun other => by rw [roots, same]⟩

/-- Whatever ways a look-up shortens, uniting two members after it merges their classes. -/
def Unites (unite : Partition α → α → α → Partition α) : Prop :=
  ∀ partition : Partition α, partition.Forest → ∀ left ∈ partition.members,
    ∀ right ∈ partition.members, partition.Merges (unite partition left right) left right

theorem unites_union : Unites (union (α := α)) := by
  intro partition forest left leftMember right rightMember
  obtain ⟨leftRoot, leftForest, leftMembers, leftSame⟩ := forest.find leftMember
  have rightStays : right ∈ (partition.find left).2.members := leftMembers ▸ rightMember
  obtain ⟨rightRoot, rightForest, rightMembers, rightSame⟩ := leftForest.find rightStays
  rw [leftSame] at rightRoot
  simp only [Partition.union, leftRoot, rightRoot]
  exact forest.link rightForest (rightMembers.trans leftMembers)
    (fun other => (rightSame other).trans (leftSame other)) leftMember rightMember

theorem unites_unite : Unites (unite (α := α)) := by
  intro partition forest left leftMember right rightMember
  obtain ⟨leftForest, leftSame⟩ := forest.root_compress leftMember
  have rightStays : right ∈ (partition.setParent left (partition.root left)).members := by
    rwa [members_setParent]
  obtain ⟨rightForest, rightSame⟩ := leftForest.root_compress rightStays
  rw [leftSame] at rightForest rightSame
  simp only [Partition.unite, locate, leftSame]
  exact forest.link rightForest (by rw [members_setParent, members_setParent])
    (fun other => (rightSame other).trans (leftSame other)) leftMember rightMember

/-! ### Generated equivalences -/

/-- The partition is a forest, and items have one representative exactly when the smallest
equivalence that contains a relation relates them. -/
structure Generates (partition : Partition α) (related : α → α → Prop) : Prop where
  forest : partition.Forest
  root_eq_iff : ∀ left right, partition.root left = partition.root right ↔
    EqvGen related left right

omit [Std.LawfulEqOrd α] in
theorem Generates.empty : (⟨[]⟩ : Partition α).Generates fun _ _ => False where
  forest := .empty
  root_eq_iff left right := by
    have isRoot : ∀ item, (⟨[]⟩ : Partition α).root item = item := fun item =>
      Forest.empty.root_of_parent_eq (parent_of_not_mem (by simp [members]))
    rw [isRoot, isRoot]
    refine ⟨fun same => same ▸ .refl _, fun way => ?_⟩
    induction way with
    | rel _ _ impossible => exact impossible.elim
    | refl _ => rfl
    | symm _ _ _ ih => exact ih.symm
    | trans _ _ _ _ _ first second => exact first.trans second

omit [Std.LawfulEqOrd α] in
theorem Generates.add {partition : Partition α} {related : α → α → Prop}
    (generates : partition.Generates related) (item : α) :
    (partition.add item).Generates related where
  forest := generates.forest.add item
  root_eq_iff left right := by
    have same : ∀ other, (partition.add item).root other = partition.root other := by
      intro other
      refine (generates.forest.add item).root_eq_of_leads ?_ ?_
      · have way : partition.Leads other (partition.root other) := leads_climb
        simpa only [Leads, parent_add] using way
      · rw [parent_add, generates.forest.parent_root]
    rw [same, same, generates.root_eq_iff]

omit [Std.TransOrd α] [Std.LawfulEqOrd α] in
/-- Merging the classes of two members adds their pair to the generating relation. -/
theorem Generates.merge {partition after : Partition α} {related : α → α → Prop}
    (generates : partition.Generates related) {left right : α}
    (merges : partition.Merges after left right) :
    after.Generates fun first second => related first second ∨ (first = left ∧ second = right) := by
  obtain ⟨forest, -, keep, drop, ends, roots⟩ := merges
  refine ⟨forest, fun first second => ?_⟩
  have wider : ∀ {first second}, partition.root first = partition.root second →
      EqvGen (fun first second => related first second ∨ (first = left ∧ second = right))
        first second := fun same =>
    ((generates.root_eq_iff _ _).1 same).mono fun _ _ => .inl
  have pair : EqvGen (fun first second => related first second ∨ (first = left ∧ second = right))
      left right := .rel _ _ (.inr ⟨rfl, rfl⟩)
  have keepDrop : ∀ {first second}, partition.root first = drop → partition.root second = keep →
      EqvGen (fun first second => related first second ∨ (first = left ∧ second = right))
        first second := by
    intro first second isDrop isKeep
    rcases ends with ⟨rfl, rfl⟩ | ⟨rfl, rfl⟩
    · exact (wider isDrop).trans _ _ _ (pair.symm.trans _ _ _ (wider isKeep.symm))
    · exact (wider isDrop).trans _ _ _ (pair.trans _ _ _ (wider isKeep.symm))
  constructor
  · intro same
    rw [roots, roots] at same
    split at same
    · next firstDrop =>
      split at same
      · next secondDrop => exact wider (firstDrop.trans secondDrop.symm)
      · exact keepDrop firstDrop same.symm
    · split at same
      · next secondDrop => exact (keepDrop secondDrop same).symm
      · exact wider same
  · intro way
    induction way with
    | rel first second step =>
      rcases step with old | ⟨rfl, rfl⟩
      · rw [roots, roots, (generates.root_eq_iff _ _).2 (.rel _ _ old)]
      · rw [roots, roots]
        rcases ends with ⟨rfl, rfl⟩ | ⟨rfl, rfl⟩ <;> simp
    | refl _ => rfl
    | symm _ _ _ ih => exact ih.symm
    | trans _ _ _ _ _ first second => exact first.trans second

omit [Std.TransOrd α] [Std.LawfulEqOrd α] in
theorem Generates.congr {partition : Partition α} {related other : α → α → Prop}
    (generates : partition.Generates related)
    (same : ∀ left right, related left right ↔ other left right) : partition.Generates other := by
  have equal : related = other := funext fun left => funext fun right => propext (same left right)
  rwa [equal] at generates

omit [Std.LawfulEqOrd α] [Std.TransOrd α] in
/-- Relations that relate each other's pairs by chains generate one partition. -/
theorem Generates.exchange {partition : Partition α} {related other : α → α → Prop}
    (generates : partition.Generates related)
    (there : ∀ left right, related left right → EqvGen other left right)
    (back : ∀ left right, other left right → EqvGen related left right) :
    partition.Generates other where
  forest := generates.forest
  root_eq_iff left right := by
    have closed : ∀ {first second : α → α → Prop},
        (∀ left right, first left right → EqvGen second left right) → ∀ left right,
          EqvGen first left right → EqvGen second left right := by
      intro first second chains left right way
      induction way with
      | rel left right step => exact chains left right step
      | refl => exact .refl _
      | symm _ _ _ ih => exact ih.symm
      | trans _ _ _ _ _ before after => exact before.trans _ _ _ after
    rw [generates.root_eq_iff]
    exact ⟨closed there left right, closed back left right⟩

section Uniting

variable {unite : Partition α → α → α → Partition α} (unites : Unites unite)
  {partition : Partition α} {related : α → α → Prop} (generates : partition.Generates related)
  {item : α} (member : item ∈ partition.members)

include unites generates member

omit [Std.LawfulEqOrd α] in
/-- Adding items and uniting each with one member relates that member to all of them. -/
theorem Unites.foldl_add (others : List α) :
    (others.foldl (fun partition other => unite (partition.add other) item other)
        partition).Generates (fun left right => related left right ∨ (left = item ∧ right ∈ others)) ∧
      ∀ other, other ∈ (others.foldl (fun partition other => unite (partition.add other) item other)
        partition).members ↔ other ∈ partition.members ∨ other ∈ others := by
  induction others generalizing partition related with
  | nil => exact ⟨generates.congr (by simp), by simp⟩
  | cons first rest ih =>
    have added := generates.add first
    have itemAdded : item ∈ (partition.add first).members := mem_members_add.2 (.inr member)
    have merges := unites _ added.forest item itemAdded first (mem_members_add.2 (.inl rfl))
    obtain ⟨all, allMembers⟩ := ih (added.merge merges) (merges.members ▸ itemAdded)
    refine ⟨all.congr fun left right => ?_, fun other => ?_⟩
    · simp only [List.mem_cons, and_or_left, or_assoc]
    · rw [List.foldl_cons, allMembers, merges.members, mem_members_add, List.mem_cons, ← or_assoc,
        or_comm (a := other = first)]

omit [Std.TransOrd α] [Std.LawfulEqOrd α] in
/-- Uniting one member with those items that are members relates it to them. -/
theorem Unites.foldl_known (others : List α) :
    (others.foldl (fun partition other =>
        if other ∈ partition.members then unite partition item other else partition)
      partition).Generates (fun left right => related left right ∨
        (left = item ∧ right ∈ others ∧ right ∈ partition.members)) ∧
      (others.foldl (fun partition other =>
        if other ∈ partition.members then unite partition item other else partition)
      partition).members = partition.members := by
  induction others generalizing partition related with
  | nil => exact ⟨generates.congr (by simp), rfl⟩
  | cons first rest ih =>
    rw [List.foldl_cons]
    by_cases known : first ∈ partition.members
    · have merges := unites _ generates.forest item member first known
      obtain ⟨all, allMembers⟩ := ih (generates.merge merges) (merges.members ▸ member)
      rw [if_pos known]
      refine ⟨all.congr fun left right => ?_, allMembers.trans merges.members⟩
      rw [merges.members, List.mem_cons, or_and_right, and_or_left, or_assoc]
      refine or_congr_right (or_congr_left (and_congr_right fun _ => ⟨?_, And.left⟩))
      rintro rfl
      exact ⟨rfl, known⟩
    · obtain ⟨all, allMembers⟩ := ih generates member
      rw [if_neg known]
      refine ⟨all.congr fun left right => or_congr_right (and_congr_right fun _ => ?_), allMembers⟩
      rw [List.mem_cons, or_and_right]
      refine ⟨.inr, Or.rec ?_ id⟩
      rintro ⟨rfl, isMember⟩
      exact absurd isMember known

end Uniting

omit [Std.TransOrd α] [Std.LawfulEqOrd α] in
/-- What a run over a list joins is what its steps join; every step may rely on what the steps before
it keep. -/
theorem Generates.foldl {β : Type} {step : Partition α → β → Partition α}
    (holds : Partition α → Prop) {relates : β → α → α → Prop} {adds : β → α → Prop} {items : List β}
    (joins : ∀ item ∈ items, ∀ partition related, partition.Generates related → holds partition →
      (step partition item).Generates (fun left right => related left right ∨ relates item left right) ∧
        (∀ other, other ∈ (step partition item).members ↔
          other ∈ partition.members ∨ adds item other) ∧ holds (step partition item))
    {partition : Partition α} {related : α → α → Prop} (generates : partition.Generates related)
    (start : holds partition) :
    (items.foldl step partition).Generates (fun left right =>
        related left right ∨ ∃ item ∈ items, relates item left right) ∧
      ∀ other, other ∈ (items.foldl step partition).members ↔
        other ∈ partition.members ∨ ∃ item ∈ items, adds item other := by
  induction items generalizing partition related with
  | nil => exact ⟨generates.congr (by simp), by simp⟩
  | cons item rest ih =>
    obtain ⟨joined, members, kept⟩ := joins item List.mem_cons_self partition related generates start
    obtain ⟨all, allMembers⟩ :=
      ih (fun other isOther => joins other (List.mem_cons_of_mem _ isOther)) joined kept
    refine ⟨all.congr fun left right => ?_, fun other => ?_⟩
    · rw [List.exists_mem_cons_iff, or_assoc]
    · rw [List.foldl_cons, allMembers, members, List.exists_mem_cons_iff, or_assoc]

/-! ### Listed classes -/

theorem mem_classOf {partition : Partition α} {item other : α} :
    other ∈ partition.classOf item ↔
      other ∈ partition.members ∧ partition.root other = partition.root item := by
  simp [classOf]

/-- The listed classes are those of the members under the generated equivalence. -/
theorem Generates.mem_classes_iff {partition : Partition α} {related : α → α → Prop}
    (generates : partition.Generates related) {members : OrderedSet α} :
    members ∈ partition.classes ↔ ∃ item ∈ partition.members, ∀ other,
      other ∈ members ↔ other ∈ partition.members ∧ EqvGen related other item := by
  simp only [classes, List.mem_map, OrderedSet.mem_toList, OrderedSet.mem_filter,
    OrderedSet.mem_ofList, decide_eq_true_eq]
  constructor
  · rintro ⟨item, ⟨member, -⟩, rfl⟩
    refine ⟨item, member, fun other => ?_⟩
    rw [mem_classOf, generates.root_eq_iff]
  · rintro ⟨item, member, isClass⟩
    refine ⟨partition.root item,
      ⟨generates.forest.root_mem member, generates.forest.root_root⟩, OrderedSet.ext fun other => ?_⟩
    rw [mem_classOf, generates.forest.root_root, isClass, generates.root_eq_iff]

/-- The listed classes together hold the members. -/
theorem Generates.exists_mem_classes {partition : Partition α} {related : α → α → Prop}
    (generates : partition.Generates related) {item : α} :
    (∃ members ∈ partition.classes, item ∈ members) ↔ item ∈ partition.members := by
  simp only [generates.mem_classes_iff]
  constructor
  · rintro ⟨members, ⟨other, -, isClass⟩, isMember⟩
    exact ((isClass item).1 isMember).1
  · intro isMember
    refine ⟨partition.classOf item, ⟨item, isMember, fun other => ?_⟩, mem_classOf.2 ⟨isMember, rfl⟩⟩
    rw [mem_classOf, generates.root_eq_iff]

/-- Members lie in one listed class exactly when the generated equivalence relates them. -/
theorem Generates.exists_class_iff {partition : Partition α} {related : α → α → Prop}
    (generates : partition.Generates related) {left right : α} (leftMember : left ∈ partition.members)
    (rightMember : right ∈ partition.members) :
    (∃ members ∈ partition.classes, left ∈ members ∧ right ∈ members) ↔ EqvGen related left right := by
  constructor
  · rintro ⟨members, isClass, isLeft, isRight⟩
    obtain ⟨item, -, related⟩ := generates.mem_classes_iff.1 isClass
    exact ((related left).1 isLeft).2.trans _ _ _ ((related right).1 isRight).2.symm
  · intro way
    obtain ⟨members, isClass, isLeft⟩ := generates.exists_mem_classes.2 leftMember
    obtain ⟨item, -, related⟩ := generates.mem_classes_iff.1 isClass
    exact ⟨members, isClass, isLeft,
      (related right).2 ⟨rightMember, way.symm.trans _ _ _ ((related left).1 isLeft).2⟩⟩

/-- No item lies in two of the listed classes. -/
theorem classes_pairwise (partition : Partition α) :
    partition.classes.Pairwise fun left right => ∀ item, item ∈ left → item ∉ right := by
  refine List.pairwise_map.2 (List.Pairwise.imp_of_mem ?_
    ((OrderedSet.ofList partition.members).filter fun item => partition.root item = item).ascending)
  intro left right leftMember rightMember before item inLeft inRight
  have leftRoot : partition.root left = left := by
    simpa using (OrderedSet.mem_filter.1 leftMember).2
  have rightRoot : partition.root right = right := by
    simpa using (OrderedSet.mem_filter.1 rightMember).2
  have same : left = right := by
    rw [← leftRoot, ← rightRoot, ← (mem_classOf.1 inLeft).2, ← (mem_classOf.1 inRight).2]
  have self : compare right right = .eq := Std.ReflCmp.compare_self
  exact absurd (self.symm.trans (same ▸ before)) (by decide)

/-- An item lies in one of the listed classes only. -/
theorem class_unique {partition : Partition α} {left right : OrderedSet α}
    (isLeft : left ∈ partition.classes) (isRight : right ∈ partition.classes) {item : α}
    (inLeft : item ∈ left) (inRight : item ∈ right) : left = right := by
  obtain ⟨first, -, rfl⟩ := List.mem_map.1 isLeft
  obtain ⟨second, -, rfl⟩ := List.mem_map.1 isRight
  rw [classOf, classOf, ← (mem_classOf.1 inLeft).2, ← (mem_classOf.1 inRight).2]

end StagePlanner.Partition
