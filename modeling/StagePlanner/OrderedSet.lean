/-!
# Ordered sets

Finite sets kept as strictly ascending lists. A set has one representation, so
two sets are equal exactly when they have the same members (`OrderedSet.ext`),
and listing a set needs no further choice of order.

* `mem_insert`, `mem_union`, `mem_filter`, `mem_erase`, `mem_ofList` say what
  each operation does to membership.
-/

namespace StagePlanner

/-- A finite set listed in strictly ascending order. -/
structure OrderedSet (α : Type) [Ord α] where
  /-- The members, smallest first. -/
  toList : List α
  /-- Every member is smaller than all later ones. -/
  ascending : toList.Pairwise fun before after => compare before after = .lt

namespace OrderedSet

variable {α : Type} [Ord α]

instance : Membership α (OrderedSet α) := ⟨fun set item => item ∈ set.toList⟩

instance [DecidableEq α] (item : α) (set : OrderedSet α) : Decidable (item ∈ set) :=
  inferInstanceAs (Decidable (item ∈ set.toList))

instance [DecidableEq α] : DecidableEq (OrderedSet α) := fun left right =>
  decidable_of_iff (left.toList = right.toList)
    ⟨fun same => by cases left; cases right; cases same; rfl, fun same => congrArg toList same⟩

/-- Sets are compared as the lists of their members. -/
instance : Ord (OrderedSet α) := ⟨compareOn toList⟩

instance [Std.TransOrd α] : Std.TransOrd (OrderedSet α) :=
  inferInstanceAs (Std.TransCmp (compareOn (toList : OrderedSet α → List α)))

instance [Std.LawfulEqOrd α] : Std.LawfulEqOrd (OrderedSet α) where
  compare_self {set} := (Std.ReflOrd.compare_self : compare set.toList set.toList = .eq)
  eq_of_compare {left right} same := by
    have lists : left.toList = right.toList := Std.LawfulEqCmp.eq_of_compare same
    cases left; cases right; cases lists; rfl

instance [Repr α] : Repr (OrderedSet α) := ⟨fun set precedence => reprPrec set.toList precedence⟩

/-- The set without members. -/
def empty : OrderedSet α := ⟨[], .nil⟩

instance : EmptyCollection (OrderedSet α) := ⟨empty⟩

instance : Inhabited (OrderedSet α) := ⟨empty⟩

/-- The set of one member. -/
def singleton (item : α) : OrderedSet α := ⟨[item], List.pairwise_singleton _ _⟩

/-- The number of members. -/
def size (set : OrderedSet α) : Nat := set.toList.length

/-- Whether the set has no member. -/
def isEmpty (set : OrderedSet α) : Bool := set.toList.isEmpty

/-- The smallest member. -/
def min? (set : OrderedSet α) : Option α := set.toList.head?

/-- The members that pass a test. -/
def filter (test : α → Bool) (set : OrderedSet α) : OrderedSet α :=
  ⟨set.toList.filter test, set.ascending.filter test⟩

/-- The set without one member. -/
def erase [DecidableEq α] (set : OrderedSet α) (item : α) : OrderedSet α :=
  set.filter fun member => member ≠ item

/-- Whether two sets have a member in common. -/
def meets [DecidableEq α] (left right : OrderedSet α) : Bool :=
  left.toList.any fun item => item ∈ right

/-- Puts an item at its place in an ascending list, once. -/
def place (item : α) : List α → List α
  | [] => [item]
  | head :: tail =>
    match compare item head with
    | .lt => item :: head :: tail
    | .eq => head :: tail
    | .gt => head :: place item tail

@[simp] theorem mem_toList {item : α} {set : OrderedSet α} : item ∈ set.toList ↔ item ∈ set :=
  Iff.rfl

@[simp] theorem not_mem_empty {item : α} : item ∉ (∅ : OrderedSet α) := List.not_mem_nil

@[simp] theorem mem_singleton {item other : α} : item ∈ singleton other ↔ item = other :=
  List.mem_singleton

@[simp] theorem mem_filter {test : α → Bool} {set : OrderedSet α} {item : α} :
    item ∈ set.filter test ↔ item ∈ set ∧ test item = true :=
  List.mem_filter

@[simp] theorem mem_erase [DecidableEq α] {set : OrderedSet α} {item other : α} :
    item ∈ set.erase other ↔ item ∈ set ∧ item ≠ other := by
  simp [erase]

theorem meets_iff [DecidableEq α] {left right : OrderedSet α} :
    left.meets right = true ↔ ∃ item, item ∈ left ∧ item ∈ right := by
  simp [meets]

theorem mem_of_min? {set : OrderedSet α} {item : α} (least : set.min? = some item) : item ∈ set :=
  List.mem_of_head? least

theorem min?_eq_none_iff {set : OrderedSet α} : set.min? = none ↔ ∀ item, item ∉ set := by
  rw [min?, List.head?_eq_none_iff, List.eq_nil_iff_forall_not_mem]
  rfl

theorem isEmpty_iff {set : OrderedSet α} : set.isEmpty = true ↔ ∀ item, item ∉ set := by
  rw [isEmpty, List.isEmpty_iff, List.eq_nil_iff_forall_not_mem]
  rfl

section Lawful

variable [Std.TransOrd α] [Std.LawfulEqOrd α]

omit [Std.LawfulEqOrd α] in
/-- A set lists every member once. -/
theorem nodup (set : OrderedSet α) : set.toList.Nodup := by
  refine set.ascending.imp fun {before after} below same => ?_
  have self : compare after after = .eq := Std.ReflCmp.compare_self
  rw [same, self] at below
  cases below

omit [Std.TransOrd α] in
theorem mem_place {item other : α} {items : List α} :
    other ∈ place item items ↔ other = item ∨ other ∈ items := by
  induction items with
  | nil => simp [place]
  | cons head tail ih =>
    unfold place
    split
    · simp
    · next same =>
      have equal : item = head := Std.LawfulEqCmp.eq_of_compare same
      subst equal
      simp
    · simp only [List.mem_cons, ih]
      constructor
      · rintro (h | h | h) <;> simp [h]
      · rintro (h | h | h) <;> simp [h]

omit [Std.TransOrd α] [Std.LawfulEqOrd α] in
theorem place_above {bound item : α} {items : List α} (first : compare bound item = .lt)
    (rest : ∀ other ∈ items, compare bound other = .lt) :
    ∀ other ∈ place item items, compare bound other = .lt := by
  induction items with
  | nil => simpa [place] using first
  | cons head tail ih =>
    have tailRest : ∀ other ∈ tail, compare bound other = .lt :=
      fun other member => rest other (List.mem_cons_of_mem _ member)
    unfold place
    split
    · intro other member
      rcases List.mem_cons.1 member with same | member
      · exact same ▸ first
      · exact rest other member
    · exact rest
    · intro other member
      rcases List.mem_cons.1 member with same | member
      · exact rest other (by simp [same])
      · exact ih tailRest other member

omit [Std.LawfulEqOrd α] in
theorem place_ascending {item : α} {items : List α}
    (sorted : items.Pairwise fun before after => compare before after = .lt) :
    (place item items).Pairwise fun before after => compare before after = .lt := by
  induction items with
  | nil => simp [place]
  | cons head tail ih =>
    obtain ⟨headBelow, tailSorted⟩ := List.pairwise_cons.1 sorted
    unfold place
    split
    · next below =>
      refine List.pairwise_cons.2 ⟨?_, sorted⟩
      intro other member
      rcases List.mem_cons.1 member with same | member
      · exact same ▸ below
      · exact Std.TransCmp.lt_trans below (headBelow other member)
    · exact sorted
    · next above =>
      have below : compare head item = .lt := Std.OrientedCmp.gt_iff_lt.1 above
      exact List.pairwise_cons.2 ⟨place_above below headBelow, ih tailSorted⟩

/-- Adds a member; a member that is there already is not added again. -/
def insert (set : OrderedSet α) (item : α) : OrderedSet α :=
  ⟨place item set.toList, place_ascending set.ascending⟩

/-- Adds every item of a list. -/
def insertAll (set : OrderedSet α) (items : List α) : OrderedSet α :=
  items.foldl insert set

/-- The set of the items of a list. -/
def ofList (items : List α) : OrderedSet α := insertAll ∅ items

/-- The members of either set. -/
def union (left right : OrderedSet α) : OrderedSet α := left.insertAll right.toList

/-- The union of a list of sets. -/
def unions (sets : List (OrderedSet α)) : OrderedSet α := sets.foldl union ∅

@[simp] theorem mem_insert {set : OrderedSet α} {item other : α} :
    other ∈ set.insert item ↔ other = item ∨ other ∈ set :=
  mem_place

@[simp] theorem mem_insertAll {set : OrderedSet α} {items : List α} {other : α} :
    other ∈ set.insertAll items ↔ other ∈ set ∨ other ∈ items := by
  induction items generalizing set with
  | nil => simp [insertAll]
  | cons head tail ih =>
    have step : set.insertAll (head :: tail) = (set.insert head).insertAll tail := rfl
    rw [step, ih, mem_insert, List.mem_cons]
    constructor
    · rintro ((h | h) | h) <;> simp [h]
    · rintro (h | h | h) <;> simp [h]

@[simp] theorem mem_ofList {items : List α} {other : α} : other ∈ ofList items ↔ other ∈ items := by
  simp [ofList]

@[simp] theorem mem_union {left right : OrderedSet α} {other : α} :
    other ∈ left.union right ↔ other ∈ left ∨ other ∈ right := by
  simp [union]

theorem mem_foldl_union {sets : List (OrderedSet α)} {start : OrderedSet α} {other : α} :
    other ∈ sets.foldl union start ↔ other ∈ start ∨ ∃ set ∈ sets, other ∈ set := by
  induction sets generalizing start with
  | nil => simp
  | cons head tail ih => simp [ih, or_assoc]

@[simp] theorem mem_unions {sets : List (OrderedSet α)} {other : α} :
    other ∈ unions sets ↔ ∃ set ∈ sets, other ∈ set := by
  simp [unions, mem_foldl_union]

/-- Ascending lists with the same members are equal. -/
theorem ascending_ext {left right : List α}
    (leftSorted : left.Pairwise fun before after => compare before after = .lt)
    (rightSorted : right.Pairwise fun before after => compare before after = .lt)
    (same : ∀ item, item ∈ left ↔ item ∈ right) : left = right := by
  induction left generalizing right with
  | nil =>
    cases right with
    | nil => rfl
    | cons head tail => exact absurd ((same head).2 (by simp)) (by simp)
  | cons leftHead leftTail ih =>
    cases right with
    | nil => exact absurd ((same leftHead).1 (by simp)) (by simp)
    | cons rightHead rightTail =>
      obtain ⟨leftBelow, leftTailSorted⟩ := List.pairwise_cons.1 leftSorted
      obtain ⟨rightBelow, rightTailSorted⟩ := List.pairwise_cons.1 rightSorted
      have irreflexive : ∀ item : α, compare item item ≠ .lt := fun item below => by
        have self : compare item item = .eq := Std.ReflCmp.compare_self
        rw [self] at below
        cases below
      have heads : leftHead = rightHead := by
        rcases List.mem_cons.1 ((same leftHead).1 (by simp)) with equal | inRight
        · exact equal
        rcases List.mem_cons.1 ((same rightHead).2 (by simp)) with equal | inLeft
        · exact equal.symm
        exact absurd (Std.TransCmp.lt_trans (leftBelow _ inLeft) (rightBelow _ inRight)) (irreflexive _)
      subst heads
      refine congrArg _ (ih leftTailSorted rightTailSorted fun item => ⟨fun member => ?_, fun member => ?_⟩)
      · rcases List.mem_cons.1 ((same item).1 (List.mem_cons_of_mem _ member)) with equal | inRight
        · exact absurd (equal ▸ leftBelow item member) (irreflexive _)
        · exact inRight
      · rcases List.mem_cons.1 ((same item).2 (List.mem_cons_of_mem _ member)) with equal | inLeft
        · exact absurd (equal ▸ rightBelow item member) (irreflexive _)
        · exact inLeft

/-- Sets with the same members are equal. -/
theorem ext {left right : OrderedSet α} (same : ∀ item, item ∈ left ↔ item ∈ right) :
    left = right := by
  have lists := ascending_ext left.ascending right.ascending same
  cases left; cases right; cases lists
  rfl

end Lawful

end OrderedSet

end StagePlanner
