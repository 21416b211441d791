import StagePlanner.Decimal.Layout
import StagePlanner.Json

/-!
# JSON texts

The two written forms of a JSON value: one line without blanks, and an indented
form with one item or member a line.
-/

namespace StagePlanner.Json

/-- Numbers are written positionally below 10^16, and a point tells them from integers. -/
def numberLayout : Decimal.Layout where
  pointLimit := some 16
  integralEnd := ".0"
  tie := .even
  undefined := "null"
  infinite := "null"

/-- The written form of a number; JSON has none for the values that are not finite. -/
def numberText (number : Float) : String :=
  if number.isInf then "null" else numberLayout.text number

/-- A character as it stands between quotes. -/
def quotedCharacter (character : Char) : List Char :=
  let code := character.toNat
  if character = '"' then ['\\', '"']
  else if character = '\\' then ['\\', '\\']
  else if code = 8 then ['\\', 'b']
  else if code = 9 then ['\\', 't']
  else if code = 10 then ['\\', 'n']
  else if code = 12 then ['\\', 'f']
  else if code = 13 then ['\\', 'r']
  else if code < 32 then ['\\', 'u', '0', '0', Nat.digitChar (code / 16), Nat.digitChar (code % 16)]
  else [character]

/-- A text between quotes. -/
def quoted (text : String) : String :=
  String.ofList ('"' :: (text.toList.flatMap quotedCharacter ++ ['"']))

mutual

/-- The form without blanks. -/
def compact : Json → String
  | .null => "null"
  | .boolean value => if value then "true" else "false"
  | .integer value => toString value
  | .float value => numberText value
  | .text value => quoted value
  | .array items => "[" ++ compactItems items ++ "]"
  | .object members => "\x7b" ++ compactMembers members ++ "\x7d"

/-- The items of an array without blanks. -/
def compactItems : List Json → String
  | [] => ""
  | [item] => compact item
  | item :: rest => compact item ++ "," ++ compactItems rest

/-- The members of an object without blanks. -/
def compactMembers : List (String × Json) → String
  | [] => ""
  | [(name, value)] => quoted name ++ ":" ++ compact value
  | (name, value) :: rest => quoted name ++ ":" ++ compact value ++ "," ++ compactMembers rest

end

/-- The start of a line at some depth. -/
def lineStart (depth : Nat) : String := "\n" ++ String.ofList (List.replicate (2 * depth) ' ')

mutual

/-- The indented form at some depth. -/
def indented (depth : Nat) : Json → String
  | .array [] => "[]"
  | .object [] => "\x7b\x7d"
  | .array items => "[" ++ indentedItems (depth + 1) items ++ lineStart depth ++ "]"
  | .object members => "\x7b" ++ indentedMembers (depth + 1) members ++ lineStart depth ++ "\x7d"
  | .null => "null"
  | .boolean value => if value then "true" else "false"
  | .integer value => toString value
  | .float value => numberText value
  | .text value => quoted value

/-- The items of an array, each on a line of its own. -/
def indentedItems (depth : Nat) : List Json → String
  | [] => ""
  | [item] => lineStart depth ++ indented depth item
  | item :: rest => lineStart depth ++ indented depth item ++ "," ++ indentedItems depth rest

/-- The members of an object, each on a line of its own. -/
def indentedMembers (depth : Nat) : List (String × Json) → String
  | [] => ""
  | [(name, value)] => lineStart depth ++ quoted name ++ ": " ++ indented depth value
  | (name, value) :: rest =>
    lineStart depth ++ quoted name ++ ": " ++ indented depth value ++ "," ++ indentedMembers depth rest

end

/-- The indented form. -/
def pretty (value : Json) : String := indented 0 value

end StagePlanner.Json
