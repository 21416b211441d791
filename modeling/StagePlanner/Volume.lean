import StagePlanner.Binary64

/-!
# Volumes

Amounts of data. Estimation adds volumes up, takes shares of them and compares
them with limits; it is written over the class `Volume`, so that it can be run
with numbers of 64 bits and reasoned about with exact ones.
-/

namespace StagePlanner

/-- The part of its input that an aggregation is expected to leave. -/
inductive Share where
  | tenth
  | quarter
  | twoFifths
  | half
  deriving DecidableEq, Repr

/-- Amounts of data. -/
class Volume (ν : Type) where
  /-- A known number of bytes. -/
  ofBytes : Nat → ν
  /-- What the sum of no volumes is. -/
  emptySum : ν
  /-- The volume of two disjoint sets of data. -/
  add : ν → ν → ν
  /-- A part of a volume. -/
  share : Share → ν → ν
  /-- Whether a volume does not exceed another. -/
  atMost : ν → ν → Bool

namespace Volume

variable {ν : Type} [Volume ν]

/-- The smaller of two volumes. -/
def lesser (left right : ν) : ν := if atMost left right then left else right

/-- The larger of two volumes. -/
def greater (left right : ν) : ν := if atMost right left then left else right

/-- The sum of a list of volumes. -/
def sum (volumes : List ν) : ν := volumes.foldl add emptySum

/-- The sum of a list of volumes; unknown if one of them is. -/
def sum? (volumes : List (Option ν)) : Option ν := (volumes.mapM id).map sum

end Volume

/-- The number that a share is multiplied with. -/
def Share.factor : Share → Float
  | .tenth => 0.1
  | .quarter => 0.25
  | .twoFifths => 0.4
  | .half => 0.5

/-- Volumes in numbers of 64 bits; the sum of none is the negative zero, which no addition keeps. -/
instance : Volume Float where
  ofBytes := Binary64.ofNat
  emptySum := -0.0
  add := (· + ·)
  share part volume := volume * part.factor
  atMost left right := left ≤ right

end StagePlanner
