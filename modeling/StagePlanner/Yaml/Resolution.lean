import StagePlanner.Decimal.Reading
import StagePlanner.Text.Character

/-!
# Values of plain scalars

What a text without quotes denotes: null, a truth value, an integer or another number.
A leading zero followed by digits makes no number.
-/

namespace StagePlanner.Yaml

/-- Whether a text denotes null. -/
def isNull (text : String) : Bool := ["~", "null", "Null", "NULL"].contains text

/-- The truth value that a text denotes. -/
def boolean? (text : String) : Option Bool :=
  if ["true", "True", "TRUE"].contains text then some true
  else if ["false", "False", "FALSE"].contains text then some false
  else none

/-- An integer as it is written: whether there is a minus, and its distance from zero. -/
structure Integer where
  isNegative : Bool
  magnitude : Nat

namespace Integer

/-- The value of an integer. -/
def value (integer : Integer) : Int :=
  if integer.isNegative then -(integer.magnitude : Int) else integer.magnitude

/-- Whether an integer fits into a number of bits; one with a minus needs a sign bit. -/
def fits (integer : Integer) (bits : Nat) : Bool :=
  if integer.isNegative then integer.magnitude ≤ Nat.pow 2 (bits - 1)
  else integer.magnitude < Nat.pow 2 bits

end Integer

/-- Whether digits start with a zero that makes them no number. -/
def isPadded (digits : List Char) : Bool :=
  1 < digits.length && digits.head? == some '0' && digits.all Char.isDigit

/-- The value of an integer without sign. -/
def magnitude? (characters : List Char) : Option Nat :=
  let based := match characters with
    | '0' :: 'x' :: digits => Text.numeralValue? 16 digits
    | '0' :: 'o' :: digits => Text.numeralValue? 8 digits
    | '0' :: 'b' :: digits => Text.numeralValue? 2 digits
    | _ => none
  based <|> if isPadded characters then none else Text.numeralValue? 10 characters

/-- The integer that a text denotes. -/
def integer? (text : String) : Option Integer :=
  let (isNegative, characters) := Decimal.splitSign text.toList
  (magnitude? characters).map fun magnitude => { isNegative, magnitude }

/-- The natural number of 64 bits that a text denotes. -/
def natural? (text : String) : Option Nat :=
  (integer? text).bind fun integer =>
    if !integer.isNegative && integer.fits 64 then some integer.magnitude else none

/-- The number that a text denotes: infinite or undefined by name, or finite. -/
def number? (text : String) : Option Float :=
  let (isNegative, characters) := Decimal.splitSign text.toList
  if [".inf", ".Inf", ".INF"].contains (String.ofList characters) then
    some (Binary64.ofRatio isNegative (Nat.pow 2 1024) 1)
  else if [".nan", ".NaN", ".NAN"].contains text then some (0.0 / 0.0)
  else ((Decimal.numeral? characters).map (Decimal.Numeral.nearest isNegative)).filter Float.isFinite

/-- Whether a text denotes a number that is not an integer. -/
def isFraction (text : String) : Bool :=
  !isPadded (Decimal.splitSign text.toList).2 && (number? text).isSome

end StagePlanner.Yaml
