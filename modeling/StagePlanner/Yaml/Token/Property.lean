import StagePlanner.Text.Character
import StagePlanner.Yaml.Token

/-!
# Anchors, tags and directives

The tokens that say something about a node or a document.
-/

namespace StagePlanner.Yaml.Token

/-- Whether a character may follow the name of an anchor. -/
def endsName (character : Char) : Bool :=
  isSpace character || "?:,]\x7d%@\x60".toList.contains character

/-- Reads the name of an anchor after its indicator. -/
def anchorName? (cursor : Cursor) : Option (String × Cursor) :=
  let (name, cursor) := cursor.takeWhile isNameCharacter
  if name.isEmpty || !cursor.rest.head?.all endsName then none
  else some (String.ofList name, cursor)

/-- Reads the handle of a tag: a name in exclamation marks. Without the second mark it is only the
beginning of a tag. -/
def tagHandle? (cursor : Cursor) : Option (List Char × Cursor) :=
  if !cursor.isAt '!' then none
  else
    let (name, cursor) := (cursor.advance 1).takeWhile isNameCharacter
    if cursor.isAt '!' then some ('!' :: name ++ ['!'], cursor.advance 1)
    else some ('!' :: name, cursor)

/-- How many bytes a character has whose first byte is given. -/
def width? (byte : Nat) : Option Nat :=
  if byte < 0x80 then some 1
  else if 0xC0 ≤ byte && byte < 0xE0 then some 2
  else if 0xE0 ≤ byte && byte < 0xF0 then some 3
  else if 0xF0 ≤ byte && byte < 0xF8 then some 4
  else none

/-- Reads a byte that is written as an escape. -/
def escapedByte? : List Char → Option (Nat × List Char)
  | '%' :: high :: low :: rest => (Text.numeralValue? 16 [high, low]).map fun byte => (byte, rest)
  | _ => none

/-- Reads the further bytes of a character. -/
def furtherBytes? : Nat → List Char → Option (List UInt8 × List Char)
  | 0, rest => some ([], rest)
  | count + 1, rest => do
    let (byte, rest) ← escapedByte? rest
    if !(0x80 ≤ byte && byte < 0xC0) then none
    let (more, rest) ← furtherBytes? count rest
    return (byte.toUInt8 :: more, rest)

/-- Reads the bytes of a character that are written as escapes; only how many they are is checked. -/
def escapedBytes? (characters : List Char) : Option (List UInt8 × List Char) := do
  let (byte, rest) ← escapedByte? characters
  let (more, rest) ← furtherBytes? ((← width? byte) - 1) rest
  return (byte.toUInt8 :: more, rest)

/-- Whether a character may occur in a tag. -/
def isTagCharacter (isVerbatim : Bool) (character : Char) : Bool :=
  isNameCharacter character || ";/?:@&=+$.%!~*'()".toList.contains character ||
    (isVerbatim && ",[]".toList.contains character)

/-- Reads the bytes of a tag; gives them and what remains. -/
def tagBytesFrom? (isVerbatim : Bool) : Nat → List Char → Option (List UInt8 × List Char)
  | 0, _ => none
  | _ + 1, [] => some ([], [])
  | fuel + 1, character :: rest =>
    if !isTagCharacter isVerbatim character then some ([], character :: rest)
    else do
      let (bytes, rest) ← if character = '%' then escapedBytes? (character :: rest)
        else some ([character.toUInt8], rest)
      let (more, rest) ← tagBytesFrom? isVerbatim fuel rest
      return (bytes ++ more, rest)

/-- Reads the bytes of a tag. -/
def tagBytes? (isVerbatim : Bool) (cursor : Cursor) : Option (List UInt8 × Cursor) := do
  let (bytes, rest) ← tagBytesFrom? isVerbatim (cursor.size + 1) cursor.rest
  return (bytes, cursor.advance (cursor.rest.length - rest.length))

/-- A tag with the handle of one mark; a single mark has no handle. -/
def ownName (suffix : Tag) : TagName :=
  if suffix.bytes.isEmpty then ⟨"", .ofText "!"⟩ else ⟨"!", suffix⟩

/-- Reads a tag without what ends it: in brackets, with a handle, or with the handle of one
mark. -/
def tagName? (cursor : Cursor) : Option (TagName × Cursor) := do
  if cursor.rest.take 2 == ['!', '<'] then
    let (bytes, cursor) ← tagBytes? true (cursor.advance 2)
    if bytes.isEmpty || !cursor.isAt '>' then none
    else return (⟨"", .ofBytes bytes⟩, cursor.advance 1)
  else
    let (handle, next) ← tagHandle? cursor
    let (bytes, next) ← tagBytes? false next
    if 1 < handle.length && handle.getLast? == some '!' then
      if bytes.isEmpty then none else return (⟨String.ofList handle, .ofBytes bytes⟩, next)
    else
      return (ownName (.ofBytes ((handle.drop 1).map Char.toUInt8 ++ bytes)), next)

/-- Reads a tag. -/
def tag? (inFlow : Bool) (cursor : Cursor) : Option (TagName × Cursor) := do
  let (name, cursor) ← tagName? cursor
  if cursor.isSpaceOrEnd 0 || (inFlow && cursor.isAt ',') then return (name, cursor) else none

/-- Reads a number of a version; it has at most nine digits. -/
def versionNumber? (cursor : Cursor) : Option (Nat × Cursor) :=
  let (digits, cursor) := cursor.takeWhile Char.isDigit
  if 9 < digits.length then none
  else (Text.numeralValue? 10 digits).map fun number => (number, cursor)

/-- Reads what follows the name of a version directive. -/
def versionDirective? (cursor : Cursor) : Option (Token × Cursor) := do
  let (major, cursor) ← versionNumber? (cursor.skipWhile isBlank)
  if !cursor.isAt '.' then none
  let (minor, cursor) ← versionNumber? (cursor.advance 1)
  return (.version major minor, cursor)

/-- Reads what follows the name of a tag directive: a handle, which is a single mark or a name
between marks, and what it stands for. -/
def handleDirective? (cursor : Cursor) : Option (Token × Cursor) := do
  let (handle, cursor) ← tagHandle? (cursor.skipWhile isBlank)
  if handle.getLast? != some '!' || !cursor.isAtAny isBlank then none
  let (bytes, cursor) ← tagBytes? true (cursor.skipWhile isBlank)
  if bytes.isEmpty || !cursor.isSpaceOrEnd 0 then none
  return (.handleMeaning (String.ofList handle) (.ofBytes bytes), cursor)

/-- Reads a directive after its indicator, and the rest of its line. -/
def directive? (cursor : Cursor) : Option (Token × Cursor) := do
  let (name, cursor) := cursor.takeWhile isNameCharacter
  if !cursor.isSpaceOrEnd 0 then none
  let (token, cursor) ← match String.ofList name with
    | "YAML" => versionDirective? cursor
    | "TAG" => handleDirective? cursor
    | _ => none
  return (token, ← cursor.nextLineStart?)

end StagePlanner.Yaml.Token
