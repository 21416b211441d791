import StagePlanner.Binary64

/-!
# Reading decimals

Numbers of 64 bits from their decimal form: an optional sign and then digits with
an optional point and exponent, or the name of a value that is no finite number.
The result is the number nearest to the decimal.
-/

namespace StagePlanner.Decimal

/-- A decimal numeral, `mantissa · 10 ^ exponent`. -/
structure Numeral where
  mantissa : Nat
  exponent : Int
  deriving DecidableEq, Repr

/-- The digits at the front of a text and the rest of it. -/
def splitDigits (characters : List Char) : List Char × List Char :=
  (characters.takeWhile Char.isDigit, characters.dropWhile Char.isDigit)

/-- The value of a list of decimal digits. -/
def digitsValue (digits : List Char) : Nat :=
  digits.foldl (fun value digit => 10 * value + (digit.toNat - '0'.toNat)) 0

/-- Splits off a sign; gives whether it was a minus. -/
def splitSign : List Char → Bool × List Char
  | '-' :: rest => (true, rest)
  | '+' :: rest => (false, rest)
  | rest => (false, rest)

/-- The value of the digits of an exponent; once it exceeds 65535 the further ones do not count. -/
def exponentValue (digits : List Char) : Nat :=
  digits.foldl (fun value digit =>
    if value < 65536 then 10 * value + (digit.toNat - '0'.toNat) else value) 0

/-- Reads an exponent that must reach to the end; nothing stands for zero. -/
def exponent? : List Char → Option Int
  | [] => some 0
  | mark :: rest =>
    if mark = 'e' || mark = 'E' then
      let (negative, rest) := splitSign rest
      let (digits, rest) := splitDigits rest
      if digits.isEmpty || !rest.isEmpty then none
      else some (if negative then -(exponentValue digits : Int) else exponentValue digits)
    else none

/-- Reads a numeral without sign. -/
def numeral? (characters : List Char) : Option Numeral :=
  let (whole, rest) := splitDigits characters
  let (fraction, rest) := match rest with
    | '.' :: rest => splitDigits rest
    | rest => ([], rest)
  if whole.isEmpty && fraction.isEmpty then none
  else (exponent? rest).map fun exponent =>
    { mantissa := digitsValue (whole ++ fraction), exponent := exponent - fraction.length }

/-- The number nearest to a numeral; far beyond the largest or smallest number the digits no longer
matter. -/
def Numeral.nearest (negative : Bool) (numeral : Numeral) : Float :=
  let point := (Nat.log2 numeral.mantissa : Int) * 30103 / 100000 + numeral.exponent
  if numeral.mantissa = 0 || point < -400 then Binary64.ofRatio negative 0 1
  else if 400 < point then Binary64.ofRatio negative (Nat.pow 2 1024) 1
  else if 0 ≤ numeral.exponent then
    Binary64.ofRatio negative (numeral.mantissa * Nat.pow 10 numeral.exponent.toNat) 1
  else Binary64.ofRatio negative numeral.mantissa (Nat.pow 10 (-numeral.exponent).toNat)

/-- The number that a text denotes. -/
def float? (text : String) : Option Float :=
  let (negative, rest) := splitSign text.toList
  match String.ofList (rest.map Char.toLower) with
  | "inf" | "infinity" => some (Binary64.ofRatio negative (Nat.pow 2 1024) 1)
  | "nan" => some (0.0 / 0.0)
  | _ => (numeral? rest).map (Numeral.nearest negative)

end StagePlanner.Decimal
