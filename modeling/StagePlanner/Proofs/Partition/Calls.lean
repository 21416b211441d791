import StagePlanner.Proofs.Partition.Classes

/-!
# Calls that build partitions

The loops that follow the ways of a partition end because every way of a `Partition.Forest` leads down
to a representative: `Forest.lookUp_eq` and `Forest.join_eq` equate them with the bounded forms, and
`Forest.collect_eq` shows that collecting the classes lists every class once, though each look-up on
the way shortens ways. `PartitionCall.Proper.generates` follows calls from the partition without
members, and `Partition.Components` says what there is to see of the partition that they build.
-/

namespace StagePlanner

open Relation
open Std (ExtTreeMap)

/-- What related items have in common is common to all items that chains of them connect. -/
theorem eq_of_eqvGen {α β : Type} {related : α → α → Prop} (value : α → β)
    (keeps : ∀ left right, related left right → value left = value right) {left right : α}
    (connected : EqvGen related left right) : value left = value right :=
  congrArg (Quot.lift value keeps) (Quot.eqvGen_sound connected)

theorem OrderedSet.min?_eq_some {α : Type} [Ord α] [Std.OrientedOrd α] {set : OrderedSet α} {item : α}
    (member : item ∈ set) (least : ∀ other ∈ set, item = other ∨ compare item other = .lt) :
    set.min? = some item := by
  obtain ⟨items, ascending⟩ := set
  cases items with
  | nil => exact absurd member List.not_mem_nil
  | cons head tail =>
    rcases List.mem_cons.1 member with rfl | later
    · rfl
    · have below := (List.pairwise_cons.1 ascending).1 item later
      rcases least head List.mem_cons_self with rfl | above
      · rfl
      · exact absurd above (Std.OrientedCmp.not_lt_of_lt below)

namespace Partition

variable {α : Type} [DecidableEq α] [Ord α] [Std.TransOrd α] {partition : Partition α}

/-! ### Looking representatives up -/

section Forest

variable (forest : partition.Forest)

include forest

/-- The way from an item ends at its representative. -/
theorem Forest.ascend_eq (item : α) : partition.ascend item = some (partition.root item) := by
  induction item using forest.induction with
  | root item isRoot => rw [ascend, if_pos isRoot, forest.root_of_parent_eq isRoot]
  | child item moves ih => rw [ascend, if_neg moves, ih, forest.root_parent]

/-- As many steps as members are below an item shorten its way to the end. -/
theorem Forest.redirect_eq {root item : α} {steps : Nat} (isRoot : partition.root item = root)
    (enough : partition.height item ≤ steps) :
    redirect root item partition = some (Partition.shorten root steps item partition) := by
  induction steps generalizing item partition with
  | zero =>
    have stays : partition.parent item = item := by
      by_contra moves
      have := forest.height_parent_lt moves
      omega
    rw [redirect, if_pos ((forest.root_of_parent_eq stays).symm.trans isRoot), Partition.shorten]
  | succ steps ih =>
    rw [redirect, Partition.shorten]
    split
    · rfl
    · next differs =>
      have moves : partition.parent item ≠ item := fun stays =>
        differs ((forest.root_of_parent_eq stays).symm.trans isRoot)
      have lower := forest.height_parent_lt moves
      obtain ⟨compressed, roots⟩ := forest.root_compress (mem_of_parent_ne moves)
      rw [isRoot] at compressed roots
      refine ih compressed (by rw [roots, forest.root_parent, isRoot]) ?_
      -- Heights count members, which pointing one of them to the root leaves as they are.
      rw [height, members_setParent]
      exact Nat.le_of_lt_succ (Nat.lt_of_lt_of_le lower enough)

/-- Looking a representative up ends. -/
theorem Forest.lookUp_eq (item : α) : partition.lookUp item = some (partition.find item) := by
  rw [lookUp, forest.ascend_eq, Option.bind_eq_bind, Option.bind_some,
    forest.redirect_eq rfl (partition.height_le_length item)]
  rfl

/-- Looking up an item that is no member changes nothing. -/
theorem Forest.find_of_not_mem {item : α} (absent : item ∉ partition.members) :
    partition.find item = (item, partition) := by
  have isRoot := forest.root_of_parent_eq (parent_of_not_mem absent)
  rw [Partition.find, isRoot]
  cases partition.parents.length <;> simp [Partition.shorten]

/-- Whatever item is looked up, every item keeps its representative. -/
theorem Forest.find_keeps (item : α) : (partition.find item).1 = partition.root item ∧
    (partition.find item).2.Forest ∧ (partition.find item).2.members = partition.members ∧
      ∀ other, (partition.find item).2.root other = partition.root other := by
  by_cases member : item ∈ partition.members
  · exact forest.find member
  · rw [forest.find_of_not_mem member]
    exact ⟨(forest.root_of_parent_eq (parent_of_not_mem member)).symm, forest, rfl, fun _ => rfl⟩

theorem Forest.join_eq (left right : α) :
    partition.join left right = some (partition.union left right) := by
  have after := (forest.find_keeps left).2.1.lookUp_eq right
  simp only [join, forest.lookUp_eq, Option.bind_eq_bind, Option.bind_some, after]
  rfl

end Forest

/-! ### Collecting the classes -/

variable [Std.LawfulEqOrd α]

/-- What is there when some members are filed: all items have the representatives from before, and
every class of which a member is filed has an entry with those that are filed. -/
structure Filed (partition : Partition α) (done : List α)
    (filed : Partition α × ExtTreeMap α (OrderedSet α)) : Prop where
  forest : filed.1.Forest
  roots : ∀ item, filed.1.root item = partition.root item
  entries : ∀ root members, filed.2[root]? = some members ↔
    (∃ item ∈ done, partition.root item = root) ∧
      ∀ item, item ∈ members ↔ item ∈ done ∧ partition.root item = root

section Filing

variable {done : List α} {filed : Partition α × ExtTreeMap α (OrderedSet α)}

theorem Filed.mem_entry (isFiled : partition.Filed done filed) {root item : α} :
    item ∈ filed.2[root]?.getD ∅ ↔ item ∈ done ∧ partition.root item = root := by
  cases found : filed.2[root]? with
  | some members => exact ((isFiled.entries root members).1 found).2 item
  | none =>
    refine ⟨fun isThere => absurd isThere OrderedSet.not_mem_empty, fun isThere => ?_⟩
    have listed := (isFiled.entries root
      (.ofList (done.filter fun other => partition.root other = root))).2 ⟨⟨item, isThere⟩, by simp⟩
    rw [found] at listed
    cases listed

theorem Filed.file (isFiled : partition.Filed done filed) (item : α) :
    ∃ next, file filed item = some next ∧ partition.Filed (done ++ [item]) next := by
  obtain ⟨sameRoot, forest, -, roots⟩ := isFiled.forest.find_keeps item
  rw [isFiled.roots] at sameRoot
  have steps : Partition.file filed item = some ((filed.1.find item).2,
      filed.2.alter (partition.root item) fun found => some ((found.getD ∅).insert item)) := by
    rw [Partition.file, isFiled.forest.lookUp_eq, ← sameRoot]
    rfl
  refine ⟨_, steps, forest, fun other => (roots other).trans (isFiled.roots other),
    fun root members => ?_⟩
  -- Only the entry of the item's representative changes.
  simp only [ExtTreeMap.getElem?_alter, Std.LawfulEqCmp.compare_eq_iff_eq]
  split
  · next same =>
    subst same
    have grown : ∀ other, other ∈ (filed.2[partition.root item]?.getD ∅).insert item ↔
        other ∈ done ++ [item] ∧ partition.root other = partition.root item := by
      intro other
      rw [OrderedSet.mem_insert, isFiled.mem_entry, List.mem_append, List.mem_singleton, or_and_right,
        or_comm]
      exact or_congr_right ⟨fun same => ⟨same, congrArg _ same⟩, And.left⟩
    rw [Option.some_inj]
    constructor
    · rintro rfl
      exact ⟨⟨item, List.mem_append_right _ (List.mem_singleton_self item), rfl⟩, grown⟩
    · exact fun listed => OrderedSet.ext fun other => (grown other).trans (listed.2 other).symm
  · next differs =>
    rw [isFiled.entries]
    have same : ∀ other, other ∈ done ++ [item] ∧ partition.root other = root ↔
        other ∈ done ∧ partition.root other = root := by
      intro other
      rw [List.mem_append, List.mem_singleton, or_and_right]
      refine or_iff_left ?_
      rintro ⟨rfl, isRoot⟩
      exact differs isRoot
    simp only [same]

theorem Forest.exists_filed (forest : partition.Forest) (items : List α) :
    ∃ filed, items.foldlM file (partition, ∅) = some filed ∧ partition.Filed items filed := by
  have along : ∀ items done filed, partition.Filed done filed →
      ∃ result, items.foldlM file filed = some result ∧ partition.Filed (done ++ items) result := by
    intro items
    induction items with
    | nil => exact fun done filed isFiled => ⟨filed, rfl, by rwa [List.append_nil]⟩
    | cons item rest ih =>
      intro done filed isFiled
      obtain ⟨next, steps, isNext⟩ := isFiled.file item
      obtain ⟨result, runs, isResult⟩ := ih _ next isNext
      exact ⟨result, by rw [List.foldlM_cons, steps]; exact runs, by
        rwa [List.append_assoc, List.singleton_append] at isResult⟩
  exact along items [] (partition, ∅) ⟨forest, fun _ => rfl, by simp⟩

variable (forest : partition.Forest)
  (isFiled : partition.Filed (OrderedSet.ofList partition.members).toList filed)

include forest isFiled

/-- When all members are filed, the entries are the classes of the representatives. -/
theorem Filed.mem_toList_iff {root : α} {members : OrderedSet α} :
    (root, members) ∈ filed.2.toList ↔
      (root ∈ partition.members ∧ partition.root root = root) ∧ members = partition.classOf root := by
  rw [ExtTreeMap.mem_toList_iff_getElem?_eq_some, isFiled.entries]
  simp only [OrderedSet.mem_toList, OrderedSet.mem_ofList]
  constructor
  · rintro ⟨⟨item, member, rfl⟩, isMember⟩
    refine ⟨⟨forest.root_mem member, forest.root_root⟩, OrderedSet.ext fun other => ?_⟩
    rw [isMember, mem_classOf, forest.root_root]
  · rintro ⟨⟨member, isRoot⟩, rfl⟩
    refine ⟨⟨root, member, isRoot⟩, fun other => ?_⟩
    rw [mem_classOf, isRoot]

/-- The filed classes are listed by their representatives. -/
theorem Filed.toList_eq : filed.2.toList.map Prod.snd = partition.classes := by
  have roots : filed.2.toList.map Prod.fst =
      ((OrderedSet.ofList partition.members).filter fun item => partition.root item = item).toList := by
    refine OrderedSet.ascending_ext (List.pairwise_map.2 ExtTreeMap.ordered_keys_toList)
      (OrderedSet.ascending _) fun root => ?_
    simp only [List.mem_map, Prod.exists, Filed.mem_toList_iff forest isFiled, exists_and_right,
      exists_eq_right, OrderedSet.mem_toList, OrderedSet.mem_filter, OrderedSet.mem_ofList,
      decide_eq_true_eq]
  rw [classes, ← roots, List.map_map]
  exact List.map_congr_left fun _ isEntry => ((Filed.mem_toList_iff forest isFiled).1 isEntry).2

end Filing

/-- Every class is listed under its smallest member, and the smallest members ascend. -/
theorem Forest.pairwise_classes (forest : partition.Forest) :
    partition.classes.Pairwise fun left right => compare left.min? right.min? = .lt := by
  have least : ∀ root ∈ (OrderedSet.ofList partition.members).filter fun item =>
      partition.root item = item, (partition.classOf root).min? = some root := by
    intro root isRoot
    obtain ⟨member, stays⟩ : root ∈ partition.members ∧ partition.root root = root := by
      simpa using isRoot
    refine OrderedSet.min?_eq_some (mem_classOf.2 ⟨member, rfl⟩) fun other isOther => ?_
    have above : partition.root other = other ∨ compare (partition.root other) other = .lt :=
      forest.root_le
    rw [(mem_classOf.1 isOther).2, stays] at above
    exact above
  refine List.pairwise_map.2 ((OrderedSet.ascending _).imp_of_mem fun isLeft isRight below => ?_)
  rw [least _ isLeft, least _ isRight]
  exact below

/-- Collecting the classes ends, whatever ways it shortens, and lists every class once. -/
theorem Forest.collect_eq (forest : partition.Forest) : partition.collect = some partition.classes := by
  obtain ⟨filed, runs, isFiled⟩ := forest.exists_filed (OrderedSet.ofList partition.members).toList
  rw [collect, runs, Option.bind_eq_bind, Option.bind_some]
  simp only [Filed.toList_eq forest isFiled]
  refine congrArg some (List.mergeSort_of_pairwise (forest.pairwise_classes.imp fun below => ?_))
  rw [below]
  rfl

end Partition

/-! ### Calls -/

namespace PartitionCall

variable {α : Type}

/-- Whether items are united only after they were added, where some are known already. -/
def Proper : List α → List (PartitionCall α) → Prop
  | _, [] => True
  | known, .add item :: rest => Proper (item :: known) rest
  | known, .union left right :: rest => left ∈ known ∧ right ∈ known ∧ Proper known rest

instance Proper.decidable [DecidableEq α] :
    (known : List α) → (calls : List (PartitionCall α)) → Decidable (Proper known calls)
  | _, [] => isTrue trivial
  | known, .add item :: rest => Proper.decidable (item :: known) rest
  | known, .union left right :: rest =>
    have := Proper.decidable known rest
    inferInstanceAs (Decidable (left ∈ known ∧ right ∈ known ∧ Proper known rest))

/-- The relation of the pairs that calls unite. -/
def United (calls : List (PartitionCall α)) (left right : α) : Prop := .union left right ∈ calls

instance [DecidableEq α] (calls : List (PartitionCall α)) (left right : α) :
    Decidable (United calls left right) :=
  inferInstanceAs (Decidable (PartitionCall.union left right ∈ calls))

/-- Calls that need not know anything may follow any others. -/
theorem Proper.append {first second : List (PartitionCall α)} {known : List α}
    (isFirst : Proper known first) (isSecond : ∀ known, Proper known second) :
    Proper known (first ++ second) := by
  induction first generalizing known with
  | nil => exact isSecond known
  | cons call rest ih =>
    cases call with
    | add item => exact ih isFirst
    | union left right => exact ⟨isFirst.1, isFirst.2.1, ih isFirst.2.2⟩

theorem Proper.flatMap {β : Type} {calls : β → List (PartitionCall α)}
    (proper : ∀ item known, Proper known (calls item)) (items : List β) (known : List α) :
    Proper known (items.flatMap calls) := by
  induction items generalizing known with
  | nil => exact trivial
  | cons item rest ih => exact (proper item known).append ih

variable [DecidableEq α] [Ord α]

/-- What a call does to a partition. -/
def apply (partition : Partition α) : PartitionCall α → Partition α
  | .add item => partition.add item
  | .union left right => partition.union left right

variable [Std.TransOrd α] [Std.LawfulEqOrd α]

/-- Calls end one after another. They add their items to the members and their pairs to what is
united. -/
theorem Proper.foldlM {calls : List (PartitionCall α)} {known : List α} (proper : Proper known calls)
    {partition : Partition α} {related : α → α → Prop} (generates : partition.Generates related)
    (members : ∀ item ∈ known, item ∈ partition.members) :
    calls.foldlM run partition = some (calls.foldl apply partition) ∧
      (calls.foldl apply partition).Generates
        (fun left right => related left right ∨ United calls left right) ∧
      ∀ item, item ∈ (calls.foldl apply partition).members ↔
        item ∈ partition.members ∨ .add item ∈ calls := by
  induction calls generalizing known partition related with
  | nil => exact ⟨rfl, generates.congr (by simp [United]), by simp⟩
  | cons call rest ih =>
    cases call with
    | add first =>
      have known : ∀ item ∈ first :: known, item ∈ (partition.add first).members := fun item isKnown =>
        Partition.mem_members_add.2 ((List.mem_cons.1 isKnown).imp_right (members item))
      obtain ⟨runs, joined, added⟩ := ih proper (generates.add first) known
      refine ⟨runs, joined.congr fun left right => ?_, fun item => (added item).trans ?_⟩
      · simp [United]
      · rw [Partition.mem_members_add, List.mem_cons, PartitionCall.add.injEq, or_comm (a := item = first),
          or_assoc]
    | union first second =>
      obtain ⟨isFirst, isSecond, properRest⟩ := proper
      have merges := Partition.unites_union partition generates.forest first (members first isFirst)
        second (members second isSecond)
      have known : ∀ item ∈ known, item ∈ (partition.union first second).members :=
        fun item isKnown => merges.members ▸ members item isKnown
      obtain ⟨runs, joined, added⟩ := ih properRest (generates.merge merges) known
      refine ⟨?_, joined.congr fun left right => ?_, fun item => (added item).trans ?_⟩
      · rw [List.foldlM_cons, run, generates.forest.join_eq]
        exact runs
      · simp [United, or_assoc]
      · rw [merges.members]
        simp

end PartitionCall

/-- A partition has the classes into which calls connect the items that they add. -/
structure Partition.Components {α : Type} [Ord α] [DecidableEq α] [Std.TransOrd α]
    [Std.LawfulEqOrd α] (partition : Partition α) (calls : List (PartitionCall α)) : Prop where
  members : ∀ item, item ∈ partition.members ↔ .add item ∈ calls
  /-- Looking a representative up ends, and the ways that it shortens end where they did. -/
  lookUp : ∀ item, ∃ root shortened, partition.lookUp item = some (root, shortened) ∧
    partition.ascend item = some root ∧ shortened.members = partition.members ∧
      ∀ other, shortened.ascend other = partition.ascend other
  /-- Items have one representative when a chain of united pairs connects them. -/
  connected : ∀ left right, partition.ascend left = partition.ascend right ↔
    EqvGen (PartitionCall.United calls) left right
  /-- The classes are collected once each, by ascending smallest members. -/
  collect : ∃ classes, partition.collect = some classes ∧
    (classes.Pairwise fun left right => compare left.min? right.min? = .lt) ∧
      ∀ members, members ∈ classes ↔ ∃ item, .add item ∈ calls ∧ ∀ other,
        other ∈ members ↔ .add other ∈ calls ∧ EqvGen (PartitionCall.United calls) other item

section Components

variable {α : Type} [Ord α] [DecidableEq α] [Std.TransOrd α] [Std.LawfulEqOrd α]

theorem Partition.Generates.components {partition : Partition α} {calls : List (PartitionCall α)}
    (generates : partition.Generates (PartitionCall.United calls))
    (members : ∀ item, item ∈ partition.members ↔ .add item ∈ calls) : partition.Components calls where
  members := members
  lookUp item := by
    obtain ⟨-, forest, sameMembers, roots⟩ := generates.forest.find_keeps item
    refine ⟨partition.root item, (partition.find item).2, generates.forest.lookUp_eq item,
      generates.forest.ascend_eq item, sameMembers, fun other => ?_⟩
    rw [forest.ascend_eq, generates.forest.ascend_eq, roots]
  connected left right := by
    rw [generates.forest.ascend_eq, generates.forest.ascend_eq, Option.some_inj,
      generates.root_eq_iff]
  collect := by
    refine ⟨_, generates.forest.collect_eq, generates.forest.pairwise_classes, fun listed => ?_⟩
    rw [generates.mem_classes_iff]
    simp only [members]

/-- Calls that unite only what was added before all end, and what they unite generates the partition
that they build. -/
theorem PartitionCall.Proper.generates {calls : List (PartitionCall α)} (proper : Proper [] calls) :
    runAll calls = some (calls.foldl apply {}) ∧
      (calls.foldl apply {}).Generates (United calls) ∧
      ∀ item, item ∈ (calls.foldl apply {}).members ↔ .add item ∈ calls := by
  have fromEmpty : ∀ item ∈ ([] : List α), item ∈ ({} : Partition α).members := by simp
  obtain ⟨runs, joined, added⟩ := proper.foldlM .empty fromEmpty
  exact ⟨runs, joined.congr (by simp), by simpa [Partition.members] using added⟩

end Components

end StagePlanner
