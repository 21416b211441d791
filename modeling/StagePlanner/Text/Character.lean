/-!
# Characters

The values of digits and of numerals to bases up to sixteen, and the white space of Unicode with the
removal of it at both ends of a text.
-/

namespace StagePlanner.Text

/-! ### Digits -/

/-- The value of a hexadecimal digit. -/
def hexValue? (character : Char) : Option Nat :=
  if character.isDigit then some (character.toNat - '0'.toNat)
  else if 'a' ≤ character && character ≤ 'f' then some (character.toNat - 'a'.toNat + 10)
  else if 'A' ≤ character && character ≤ 'F' then some (character.toNat - 'A'.toNat + 10)
  else none

/-- The value of a digit to a base. -/
def digitValue? (base : Nat) (character : Char) : Option Nat :=
  (hexValue? character).filter (· < base)

/-- The value of a numeral to a base; a numeral has at least one digit. -/
def numeralValue? (base : Nat) (digits : List Char) : Option Nat :=
  if digits.isEmpty then none
  else (digits.mapM (digitValue? base)).map fun values =>
    values.foldl (fun total value => base * total + value) 0

/-! ### Blanks and letters -/

/-- Whether a character has the Unicode property `White_Space`. -/
def isBlank (character : Char) : Bool :=
  let code := character.toNat
  (9 ≤ code && code ≤ 13) || code = 0x20 || code = 0x85 || code = 0xA0 || code = 0x1680 ||
    (0x2000 ≤ code && code ≤ 0x200A) || code = 0x2028 || code = 0x2029 || code = 0x202F ||
    code = 0x205F || code = 0x3000

/-- Drops blank characters at the front. -/
def trimFront (characters : List Char) : List Char := characters.dropWhile isBlank

/-- Drops blank characters at both ends. -/
def trimEnds (characters : List Char) : List Char :=
  (trimFront (trimFront characters).reverse).reverse

/-- Drops blank characters at both ends of a text. -/
def trim (text : String) : String := String.ofList (trimEnds text.toList)

/-- Writes the ASCII letters of a text in lower case. -/
def lower (text : String) : String := String.ofList (text.toList.map Char.toLower)

/-- Writes the ASCII letters of a text in upper case. -/
def upper (text : String) : String := String.ofList (text.toList.map Char.toUpper)

/-- What follows a known beginning, if the text starts with it. -/
def after? (beginning text : String) : Option String :=
  let start := beginning.toList
  if start.isPrefixOf text.toList then some (String.ofList (text.toList.drop start.length))
  else none

end StagePlanner.Text
