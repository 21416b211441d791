import StagePlanner.Decimal.Reading
import StagePlanner.Json
import StagePlanner.Text.Character

/-!
# Reading JSON

JSON values from their written form. Numbers without point and exponent are
integers as long as they fit into 64 bits; all others are floating-point numbers. Of
members with one name the last one counts.
-/

namespace StagePlanner.Json

/-- Drops the blanks that JSON allows between tokens. -/
def skipBlanks (characters : List Char) : List Char :=
  characters.dropWhile fun character =>
    character = ' ' || character = '\t' || character = '\n' || character = '\r'

/-- Reads four hexadecimal digits. -/
def hexUnit? : List Char → Option (Nat × List Char)
  | a :: b :: c :: d :: rest => (Text.numeralValue? 16 [a, b, c, d]).map fun unit => (unit, rest)
  | _ => none

/-- Reads the character of an escape that is written by its code; two codes may stand for one
character. -/
def coded? (characters : List Char) : Option (Char × List Char) := do
  let (unit, rest) ← hexUnit? characters
  if 0xD800 ≤ unit && unit < 0xDC00 then
    match rest with
    | '\\' :: 'u' :: rest =>
      let (second, rest) ← hexUnit? rest
      if 0xDC00 ≤ second && second < 0xE000 then
        return (Char.ofNat (0x10000 + (unit - 0xD800) * 0x400 + (second - 0xDC00)), rest)
      else none
    | _ => none
  else if 0xDC00 ≤ unit && unit < 0xE000 then none
  else return (Char.ofNat unit, rest)

/-- The character that a one-letter escape stands for. -/
def escaped? : Char → Option Char
  | '"' => some '"'
  | '\\' => some '\\'
  | '/' => some '/'
  | 'b' => some (Char.ofNat 8)
  | 'f' => some (Char.ofNat 12)
  | 'n' => some '\n'
  | 'r' => some '\r'
  | 't' => some '\t'
  | _ => none

/-- Reads a text up to its closing quote; the characters come out in reverse order. -/
def textFrom? : Nat → List Char → List Char → Option (String × List Char)
  | 0, _, _ => none
  | more + 1, reversed, characters =>
    match characters with
    | [] => none
    | '"' :: rest => some (String.ofList reversed.reverse, rest)
    | '\\' :: 'u' :: rest =>
      match coded? rest with
      | some (character, rest) => textFrom? more (character :: reversed) rest
      | none => none
    | '\\' :: letter :: rest =>
      match escaped? letter with
      | some character => textFrom? more (character :: reversed) rest
      | none => none
    | character :: rest =>
      if character.toNat < 32 then none else textFrom? more (character :: reversed) rest

/-- Whether a character may occur in a number. -/
def isNumeric (character : Char) : Bool :=
  character.isDigit || character = '-' || character = '+' || character = '.' || character = 'e' ||
    character = 'E'

/-- The number that a run of numeric characters denotes. -/
def numeral? (characters : List Char) : Option Json :=
  let (negative, digits) := Decimal.splitSign characters
  let (whole, rest) := Decimal.splitDigits digits
  let fractionOk := match rest with
    | '.' :: rest => !(rest.takeWhile Char.isDigit).isEmpty
    | _ => true
  let isPadded := whole.length > 1 && whole.head? = some '0'
  if characters.head? = some '+' || whole.isEmpty || isPadded then none
  else if !fractionOk then none
  else
    let value := Decimal.digitsValue whole
    let isZero := negative && value = 0
    let limit := if negative then Nat.pow 2 63 else Nat.pow 2 64 - 1
    if rest.isEmpty && value ≤ limit && !isZero then
      some (.integer (if negative then -(value : Int) else value))
    else (Decimal.numeral? digits).map fun numeral => .float (numeral.nearest negative)

/-- Adds a member after the others, in place of an earlier one of the same name. -/
def putMember (members : List (String × Json)) (name : String)
    (value : Json) : List (String × Json) :=
  members.filter (fun member => member.1 ≠ name) ++ [(name, value)]

mutual

/-- Reads one value. -/
def valueFrom? : Nat → List Char → Option (Json × List Char)
  | 0, _ => none
  | more + 1, characters =>
    match skipBlanks characters with
    | 'n' :: 'u' :: 'l' :: 'l' :: rest => some (.null, rest)
    | 't' :: 'r' :: 'u' :: 'e' :: rest => some (.boolean true, rest)
    | 'f' :: 'a' :: 'l' :: 's' :: 'e' :: rest => some (.boolean false, rest)
    | '"' :: rest => (textFrom? more [] rest).map fun (value, rest) => (.text value, rest)
    | '[' :: rest =>
      match skipBlanks rest with
      | ']' :: rest => some (.array [], rest)
      | rest => itemsFrom? more [] rest
    | '\x7b' :: rest =>
      match skipBlanks rest with
      | '\x7d' :: rest => some (.object [], rest)
      | rest => membersFrom? more [] rest
    | rest =>
      (numeral? (rest.takeWhile isNumeric)).map fun value => (value, rest.dropWhile isNumeric)

/-- Reads the items of an array up to its end. -/
def itemsFrom? : Nat → List Json → List Char → Option (Json × List Char)
  | 0, _, _ => none
  | more + 1, items, characters =>
    match valueFrom? more characters with
    | none => none
    | some (item, rest) =>
      match skipBlanks rest with
      | ',' :: rest => itemsFrom? more (item :: items) rest
      | ']' :: rest => some (.array (item :: items).reverse, rest)
      | _ => none

/-- Reads the members of an object up to its end. -/
def membersFrom? : Nat → List (String × Json) → List Char → Option (Json × List Char)
  | 0, _, _ => none
  | more + 1, members, characters =>
    match skipBlanks characters with
    | '"' :: rest =>
      match textFrom? more [] rest with
      | none => none
      | some (name, rest) =>
        match skipBlanks rest with
        | ':' :: rest =>
          match valueFrom? more rest with
          | none => none
          | some (value, rest) =>
            let members := putMember members name value
            match skipBlanks rest with
            | ',' :: rest => membersFrom? more members rest
            | '\x7d' :: rest => some (.object members, rest)
            | _ => none
        | _ => none
    | _ => none

end

/-- The value that a text is the written form of. -/
def parse? (text : String) : Option Json :=
  let characters := text.toList
  match valueFrom? (2 * characters.length + 1) characters with
  | some (value, rest) => if (skipBlanks rest).isEmpty then some value else none
  | none => none

end StagePlanner.Json
