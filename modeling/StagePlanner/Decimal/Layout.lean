import StagePlanner.Binary64

/-!
# Written decimals

The decimal with the fewest digits that reads back as a given number of 64 bits,
and among those with the fewest digits the nearest to it. All of it is exact
arithmetic on natural numbers. How the decimal is then written is a layout.
-/

namespace StagePlanner.Decimal

/-- A decimal magnitude, `digits · 10 ^ exponent`. -/
structure Magnitude where
  digits : Nat
  exponent : Int
  deriving DecidableEq, Repr

/-- Which of two equally near decimals is taken. -/
inductive Tie where
  | even
  | up
  deriving DecidableEq, Repr

/-- A quotient of natural numbers. -/
structure Ratio where
  numerator : Nat
  denominator : Nat

namespace Ratio

/-- A natural number times a power of a base. -/
def power (number base : Nat) (exponent : Int) : Ratio :=
  if 0 ≤ exponent then ⟨number * Nat.pow base exponent.toNat, 1⟩
  else ⟨number, Nat.pow base (-exponent).toNat⟩

/-- Whether one quotient is less than another. -/
def less (left right : Ratio) : Bool :=
  left.numerator * right.denominator < right.numerator * left.denominator

/-- Whether one quotient is at most another. -/
def atMost (left right : Ratio) : Bool := !right.less left

end Ratio

/-- The numbers that read back as one number of 64 bits lie between these two quotients. -/
structure Neighbourhood where
  value : Ratio
  lower : Ratio
  upper : Ratio
  /-- Whether the ends belong to it. -/
  closed : Bool

/-- The neighbourhood of a positive magnitude: half way to the numbers beside it. -/
def Neighbourhood.of (magnitude : Binary64.Magnitude) : Neighbourhood where
  value := .power (4 * magnitude.significand) 2 (magnitude.scale - 2)
  lower :=
    let below := if magnitude.isPower then 1 else 2
    .power (4 * magnitude.significand - below) 2 (magnitude.scale - 2)
  upper := .power (4 * magnitude.significand + 2) 2 (magnitude.scale - 2)
  closed := magnitude.significand % 2 = 0

/-- Whether a decimal reads back as the number of a neighbourhood. -/
def Neighbourhood.contains (near : Neighbourhood) (decimal : Magnitude) : Bool :=
  let ratio := Ratio.power decimal.digits 10 decimal.exponent
  if near.closed then near.lower.atMost ratio && ratio.atMost near.upper
  else near.lower.less ratio && ratio.less near.upper

/-- The number of digits before the decimal point; zero or negative for small values. -/
def pointPosition (magnitude : Binary64.Magnitude) (value : Ratio) : Int :=
  let guess := Int.fdiv (((Nat.log2 magnitude.significand : Int) + magnitude.scale) * 30103) 100000
  let above (position : Int) : Bool := value.less (.power 1 10 position)
  if above guess then guess
  else if above (guess + 1) then guess + 1
  else guess + 2

/-- The nearer of the two decimals beside a value on one grid that read back, if any does. -/
def onGrid? (tie : Tie) (near : Neighbourhood) (exponent : Int) : Option Magnitude :=
  let grid := Ratio.power 1 10 exponent
  let numerator := near.value.numerator * grid.denominator
  let denominator := near.value.denominator * grid.numerator
  let floor := numerator / denominator
  let rest := 2 * (numerator % denominator)
  let below : Magnitude := ⟨floor, exponent⟩
  let above : Magnitude := ⟨floor + 1, exponent⟩
  match near.contains below, near.contains above with
  | false, false => none
  | true, false => some below
  | false, true => some above
  | true, true =>
    if rest < denominator then some below
    else if denominator < rest then some above
    else match tie with
      | .even => some (if floor % 2 = 0 then below else above)
      | .up => some above

/-- Looks for a decimal on finer and finer grids. -/
def search (tie : Tie) (near : Neighbourhood) : Nat → Int → Option Magnitude
  | 0, _ => none
  | more + 1, exponent =>
    match onGrid? tie near exponent with
    | some decimal => some decimal
    | none => search tie near more (exponent - 1)

/-- The shortest decimal of a magnitude; seventeen digits always suffice. The first grid is coarser
than one digit, so that a power of ten above the value is found with its single digit. -/
def shortest (tie : Tie) (magnitude : Binary64.Magnitude) : Magnitude :=
  if magnitude.significand = 0 then ⟨0, 0⟩
  else
    let near := Neighbourhood.of magnitude
    (search tie near 18 (pointPosition magnitude near.value)).getD ⟨0, 0⟩

/-! ### Layout

Where positional notation ends, how an integral value is marked, and what stands for
the values that are no number.
-/

/-- The decisions of one written form of numbers. -/
structure Layout where
  /-- The position of the decimal point up to which a number is written positionally; without one
  every number is. -/
  pointLimit : Option Int
  /-- What follows a number without fraction. -/
  integralEnd : String
  /-- Which of two equally near decimals is written. -/
  tie : Tie
  /-- What is written for a value that is no number. -/
  undefined : String
  /-- What is written for an infinite value, after its sign. -/
  infinite : String

namespace Layout

/-- Places the decimal point among digits. -/
def positional (layout : Layout) (digits : List Char) (point : Int) : String :=
  if point ≤ 0 then String.ofList ('0' :: '.' :: List.replicate (-point).toNat '0' ++ digits)
  else
    let count := point.toNat
    if digits.length ≤ count then
      String.ofList (digits ++ List.replicate (count - digits.length) '0') ++ layout.integralEnd
    else String.ofList (digits.take count ++ '.' :: digits.drop count)

/-- Writes digits with a power of ten; the first digit stands before the point. -/
def scientific (digits : List Char) (point : Int) : String :=
  let exponent := point - 1
  let sign := if exponent < 0 then "-" else "+"
  let fraction := if digits.length ≤ 1 then [] else '.' :: digits.drop 1
  String.ofList (digits.take 1 ++ fraction) ++ "e" ++ sign ++ toString exponent.natAbs

/-- Whether a position of the decimal point is within the limit. -/
def isWithin (layout : Layout) (point : Int) : Bool :=
  match layout.pointLimit with
  | none => true
  | some limit => -5 < point && point ≤ limit

/-- The written form of the magnitude of a finite number. -/
def magnitudeText (layout : Layout) (magnitude : Binary64.Magnitude) : String :=
  if magnitude.significand = 0 then "0" ++ layout.integralEnd
  else
    let decimal := shortest layout.tie magnitude
    let digits := Nat.toDigits 10 decimal.digits
    let point := (digits.length : Int) + decimal.exponent
    if layout.isWithin point then layout.positional digits point else scientific digits point

/-- The written form of a number. -/
def text (layout : Layout) (number : Float) : String :=
  let sign := if Binary64.isNegative number then "-" else ""
  if number.isNaN then layout.undefined
  else if number.isInf then sign ++ layout.infinite
  else sign ++ layout.magnitudeText (Binary64.magnitude number)

end Layout

end StagePlanner.Decimal
