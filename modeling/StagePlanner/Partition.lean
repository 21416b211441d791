import Std.Data.ExtTreeMap
import StagePlanner.OrderedSet

/-!
# Partitions

A finite set that is divided into classes. Every member points to a parent, the
member that points to itself represents its class, and it is the smallest one of
it. Looking a representative up shortens the ways, which changes no class.
-/

namespace StagePlanner

open Std (ExtTreeMap)

/-- Members with their parents. -/
structure Partition (α : Type) where
  parents : List (α × α) := []
  deriving DecidableEq, Repr

namespace Partition

variable {α : Type} [Ord α] [DecidableEq α]

omit [Ord α] [DecidableEq α] in
/-- The members in the order in which they were added. -/
def members (partition : Partition α) : List α := partition.parents.map Prod.fst

omit [Ord α] in
/-- The parent of a member; anything else is its own parent. -/
def parent (partition : Partition α) (item : α) : α := (partition.parents.lookup item).getD item

omit [Ord α] in
/-- Adds a class of one member unless the member is there already. -/
def add (partition : Partition α) (item : α) : Partition α :=
  if item ∈ partition.members then partition else ⟨partition.parents ++ [(item, item)]⟩

omit [Ord α] in
/-- Points a member to another parent. -/
def setParent (partition : Partition α) (item parent : α) : Partition α :=
  ⟨partition.parents.map fun entry => if entry.1 = item then (item, parent) else entry⟩

omit [Ord α] in
/-- Follows the parents for a number of steps at most. -/
def climb (partition : Partition α) : Nat → α → α
  | 0, item => item
  | steps + 1, item =>
    if partition.parent item = item then item else partition.climb steps (partition.parent item)

omit [Ord α] in
/-- The member that represents the class of an item. -/
def root (partition : Partition α) (item : α) : α := partition.climb partition.parents.length item

omit [Ord α] in
/-- Points the members on the way from an item to its root directly to the root. -/
def shorten (root : α) : Nat → α → Partition α → Partition α
  | 0, _, partition => partition
  | steps + 1, item, partition =>
    if item = root then partition
    else shorten root steps (partition.parent item) (partition.setParent item root)

omit [Ord α] in
/-- The representative of the class of an item, and the partition with shortened ways. -/
def find (partition : Partition α) (item : α) : α × Partition α :=
  let root := partition.root item
  (root, shorten root partition.parents.length item partition)

/-- Puts the classes of two representatives together; the smaller representative stays. -/
def link (partition : Partition α) (left right : α) : Partition α :=
  if left = right then partition
  else if compare left right = .lt then partition.setParent right left
  else partition.setParent left right

/-- Unites the classes of two members. -/
def union (partition : Partition α) (left right : α) : Partition α :=
  let (leftRoot, partition) := partition.find left
  let (rightRoot, partition) := partition.find right
  partition.link leftRoot rightRoot

omit [Ord α] in
/-- The representative of the class of an item, and the partition in which only the item itself has
a shortened way. -/
def locate (partition : Partition α) (item : α) : α × Partition α :=
  let root := partition.root item
  (root, partition.setParent item root)

/-- Unites the classes of two members, with no shortened way but their own. -/
def unite (partition : Partition α) (left right : α) : Partition α :=
  let (leftRoot, partition) := partition.locate left
  let (rightRoot, partition) := partition.locate right
  partition.link leftRoot rightRoot

variable [Std.TransOrd α] [Std.LawfulEqOrd α]

/-- The members that have the same representative as an item. -/
def classOf (partition : Partition α) (item : α) : OrderedSet α :=
  OrderedSet.ofList (partition.members.filter fun other => partition.root other = partition.root item)

/-- The classes, ordered by their smallest members. -/
def classes (partition : Partition α) : List (OrderedSet α) :=
  let members := OrderedSet.ofList partition.members
  (members.filter fun item => partition.root item = item).toList.map partition.classOf

/-! ### Loops

The ways to representatives are followed without a bound: whether a loop ends rests on the parents. -/

omit [Ord α] [Std.TransOrd α] [Std.LawfulEqOrd α] in
/-- The representative of the class of an item, at the end of the way from the item. -/
def ascend (partition : Partition α) (item : α) : Option α :=
  if partition.parent item = item then some item else partition |>.ascend (partition.parent item)
partial_fixpoint

omit [Ord α] [Std.TransOrd α] [Std.LawfulEqOrd α] in
/-- Points the members on the way from an item to a root directly to the root. -/
def redirect (root item : α) (partition : Partition α) : Option (Partition α) :=
  if item = root then some partition
  else partition.setParent item root |>.redirect root (partition.parent item)
partial_fixpoint

omit [Ord α] [Std.TransOrd α] [Std.LawfulEqOrd α] in
/-- The representative of the class of an item, and the partition with shortened ways. -/
def lookUp (partition : Partition α) (item : α) : Option (α × Partition α) := do
  let root ← partition.ascend item
  return (root, ← redirect root item partition)

omit [Std.TransOrd α] [Std.LawfulEqOrd α] in
/-- Unites the classes of two members. -/
def join (partition : Partition α) (left right : α) : Option (Partition α) := do
  let (leftRoot, partition) ← partition.lookUp left
  let (rightRoot, partition) ← partition.lookUp right
  return partition.link leftRoot rightRoot

/-- Files a member under its representative. -/
def file (filed : Partition α × ExtTreeMap α (OrderedSet α))
    (item : α) : Option (Partition α × ExtTreeMap α (OrderedSet α)) := do
  let (root, partition) ← filed.1.lookUp item
  return (partition, filed.2.alter root fun found => some ((found.getD ∅).insert item))

/-- The classes, filed member by member and sorted by their smallest members. -/
def collect (partition : Partition α) : Option (List (OrderedSet α)) := do
  let (_, sets) ← (OrderedSet.ofList partition.members).toList.foldlM file (partition, ∅)
  return (sets.toList.map Prod.snd).mergeSort fun left right =>
    (compare left.min? right.min?).isLE

end Partition

/-- A call that builds a partition. -/
inductive PartitionCall (α : Type) where
  | add (item : α)
  | union (left right : α)
  deriving DecidableEq, Repr

namespace PartitionCall

variable {α : Type} [Ord α] [DecidableEq α]

/-- Makes a call. -/
def run (partition : Partition α) : PartitionCall α → Option (Partition α)
  | .add item => some (partition.add item)
  | .union left right => partition.join left right

/-- Makes calls one after another, from the partition without members. -/
def runAll (calls : List (PartitionCall α)) : Option (Partition α) := calls.foldlM run {}

end PartitionCall

end StagePlanner
