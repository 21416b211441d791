/-!
# Binary64

Finite floating-point numbers of 64 bits as exact numbers: a magnitude
`significand · 2 ^ scale` with a sign. `ofRatio` rounds a quotient of natural
numbers to the nearest such number, a tie to the even one.
-/

namespace StagePlanner.Binary64

/-- The magnitude of a finite number, `significand · 2 ^ scale`. -/
structure Magnitude where
  significand : Nat
  scale : Int
  /-- Whether the next smaller number is only half as far away as the next larger one. -/
  isPower : Bool
  deriving DecidableEq, Repr

/-- The sign of a number, which zero and infinity have as well. -/
def isNegative (number : Float) : Bool := number.toBits >>> 63 = 1

/-- The magnitude of a finite number. -/
def magnitude (number : Float) : Magnitude :=
  let bits := number.toBits.toNat
  let fraction := bits % Nat.pow 2 52
  let exponent := bits / Nat.pow 2 52 % Nat.pow 2 11
  if exponent = 0 then { significand := fraction, scale := -1074, isPower := false }
  else
    { significand := Nat.pow 2 52 + fraction
      scale := Int.ofNat exponent - 1075
      isPower := fraction = 0 && exponent ≠ 1 }

/-- A natural number times a power of two, as a quotient. -/
def scaled (number : Nat) (scale : Int) : Nat × Nat :=
  if 0 ≤ scale then (number * Nat.pow 2 scale.toNat, 1)
  else (number, Nat.pow 2 (-scale).toNat)

/-- The nearest integer to a quotient, a tie to the even one. -/
def nearest (numerator denominator : Nat) : Nat :=
  let floor := numerator / denominator
  let rest := 2 * (numerator % denominator)
  if rest < denominator then floor
  else if denominator < rest then floor + 1
  else floor + floor % 2

/-- The bits of the number nearest to a positive quotient. -/
def positiveBits (numerator denominator : Nat) : Nat :=
  let guess : Int := (Nat.log2 numerator : Int) - (Nat.log2 denominator : Int)
  let (lower, upper) := scaled denominator guess
  let exponent := if numerator * upper < lower then guess - 1 else guess
  let scale := max (exponent - 52) (-1074)
  let (lower, upper) := scaled denominator scale
  let significand := nearest (numerator * upper) lower
  let bits := significand + (scale + 1074).toNat * Nat.pow 2 52
  min bits (2047 * Nat.pow 2 52)

/-- The number nearest to a quotient, infinite beyond the largest finite number. -/
def ofRatio (negative : Bool) (numerator denominator : Nat) : Float :=
  let bits := if numerator = 0 then 0 else positiveBits numerator denominator
  Float.ofBits ((if negative then Nat.pow 2 63 else 0) + bits).toUInt64

/-- The number nearest to a natural number. -/
def ofNat (number : Nat) : Float := ofRatio false number 1

end StagePlanner.Binary64
