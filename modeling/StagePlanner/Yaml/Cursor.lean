import StagePlanner.Total

/-!
# Positions in a YAML text

A cursor holds what remains to be read and where that starts: how many bytes were
passed, in which line it is, and how many characters of that line were passed.
A line ends at a break; a carriage return and a line feed that follow one another are
one break.
-/

namespace StagePlanner.Yaml

/-- Whether a character may occur in a text at all. -/
def isAllowed (character : Char) : Bool :=
  let code := character.toNat
  code = 0x09 || code = 0x0A || code = 0x0D || (0x20 ≤ code && code ≤ 0x7E) || code = 0x85 ||
    (0xA0 ≤ code && code ≤ 0xD7FF) || (0xE000 ≤ code && code ≤ 0xFFFD) || 0x10000 ≤ code

/-- Whether a character separates words within a line. -/
def isBlank (character : Char) : Bool := character = ' ' || character = '\t'

/-- Whether a character is a break that is kept as it is; all others become line feeds. -/
def isKeptBreak (character : Char) : Bool := character = '\u2028' || character = '\u2029'

/-- Whether a character breaks a line. -/
def isBreak (character : Char) : Bool :=
  character = '\n' || character = '\r' || character = '\x85' || isKeptBreak character

/-- Whether a character separates words. -/
def isSpace (character : Char) : Bool := isBlank character || isBreak character

/-- Whether a character may occur in the name of an anchor, a directive or a tag handle. -/
def isNameCharacter (character : Char) : Bool :=
  character.isAlphanum || character = '_' || character = '-'

/-- A position in a text. -/
structure Cursor where
  /-- What remains to be read. -/
  rest : List Char
  /-- The length of the whole text, which bounds every loop over the rest. -/
  size : Nat
  /-- How many bytes were passed. -/
  offset : Nat := 0
  /-- How many breaks were passed. -/
  line : Nat := 0
  /-- How many characters were passed since the last break. -/
  column : Nat := 0

namespace Cursor

/-- The start of a text. -/
def ofText (text : String) : Cursor := { rest := text.toList, size := text.length }

/-- Whether nothing remains. -/
def atEnd (cursor : Cursor) : Bool := cursor.rest.isEmpty

/-- Whether the next character is a given one. -/
def isAt (cursor : Cursor) (character : Char) : Bool := cursor.rest.head? == some character

/-- Whether the next character is one of a class. -/
def isAtAny (cursor : Cursor) (isMember : Char → Bool) : Bool := cursor.rest.head?.any isMember

/-- Whether the character at a distance is a space or the end of the text. -/
def isSpaceOrEnd (cursor : Cursor) (distance : Nat) : Bool := cursor.rest[distance]?.all isSpace

/-- Whether nothing remains of the line. -/
def atLineEnd (cursor : Cursor) : Bool := cursor.rest.head?.all isBreak

/-- Whether a line starts here that consists of three given characters, maybe with more after a
space. -/
def isAtRule (cursor : Cursor) (character : Char) : Bool :=
  cursor.column = 0 && cursor.rest.take 3 == [character, character, character] &&
    cursor.isSpaceOrEnd 3

/-- Whether a line here separates documents. -/
def isAtDocumentLimit (cursor : Cursor) : Bool := cursor.isAtRule '-' || cursor.isAtRule '.'

/-- The number of bytes of the next characters. -/
def width (cursor : Cursor) (count : Nat) : Nat :=
  total ((cursor.rest.take count).map Char.utf8Size)

/-- Passes characters that are no breaks. -/
def advance (cursor : Cursor) (count : Nat) : Cursor :=
  { cursor with
    rest := cursor.rest.drop count
    offset := cursor.offset + cursor.width count
    column := cursor.column + count }

/-- Passes a break of a number of characters. -/
def nextLine (cursor : Cursor) (count : Nat) : Cursor :=
  { cursor with
    rest := cursor.rest.drop count
    offset := cursor.offset + cursor.width count
    line := cursor.line + 1
    column := 0 }

/-- The characters of a class that follow, and the position after them; the class has no breaks. -/
def takeWhile (cursor : Cursor) (isMember : Char → Bool) : List Char × Cursor :=
  let taken := cursor.rest.takeWhile isMember
  (taken, cursor.advance taken.length)

/-- The position after the characters of a class that follow; the class has no breaks. -/
def skipWhile (cursor : Cursor) (isMember : Char → Bool) : Cursor := (cursor.takeWhile isMember).2

/-- The text that the next break stands for, and the position after it; no break stands for
nothing. -/
def takeBreak (cursor : Cursor) : List Char × Cursor :=
  match cursor.rest with
  | '\r' :: '\n' :: _ => (['\n'], cursor.nextLine 2)
  | character :: _ =>
    if isKeptBreak character then ([character], cursor.nextLine 1)
    else if isBreak character then (['\n'], cursor.nextLine 1)
    else ([], cursor)
  | [] => ([], cursor)

/-- The position after the next break, if there is one. -/
def skipBreak (cursor : Cursor) : Cursor := cursor.takeBreak.2

/-- The position at the end of the line if a comment starts here. -/
def skipComment (cursor : Cursor) : Cursor :=
  if cursor.isAt '#' then cursor.skipWhile fun character => !isBreak character else cursor

/-- The position in the next line if no more than blanks and a comment remain in this one. -/
def nextLineStart? (cursor : Cursor) : Option Cursor :=
  let cursor := (cursor.skipWhile isBlank).skipComment
  if cursor.atLineEnd then some cursor.skipBreak else none

end Cursor

end StagePlanner.Yaml
