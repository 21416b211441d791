import StagePlanner.Text.Character
import StagePlanner.Yaml.Scalar

/-!
# Reading scalars

The text of a scalar in each of its written forms: without quotes, in quotes, and as
a block of whole lines under an indicator.
-/

/-! ## Plain scalars

Scalars without quotes. They end where a comment or an indicator begins, or where a
line is not indented enough.
-/

namespace StagePlanner.Yaml.Plain

/-- Whether a character separates items of a flow collection. -/
def isFlowIndicator (character : Char) : Bool := ",[]\x7b\x7d".toList.contains character

/-- Whether a character must not follow a colon within a flow collection. -/
def refusesColon (character : Char) : Bool := character = '?' || isFlowIndicator character

/-- The word at the front of a text. A colon within a flow collection must not be followed by an
indicator. -/
def word? (inFlow : Bool) : List Char → Option (List Char)
  | [] => some []
  | character :: rest =>
    if isSpace character then some []
    else if inFlow && character = ':' && rest.head?.any refusesColon then none
    else if character = ':' && rest.head?.all isSpace then some []
    else if inFlow && isFlowIndicator character then some []
    else (word? inFlow rest).map (character :: ·)

/-- Reads the words after a gap; lines have to start at a column at least, unless within a flow
collection. Also gives whether breaks come before the position afterwards. -/
def words? (inFlow : Bool) (column : Nat) : Nat → Gap → Cursor → Option (List Char × Bool × Cursor)
  | 0, _, _ => none
  | fuel + 1, gap, cursor =>
    if cursor.isAtDocumentLimit || cursor.isAt '#' then some ([], gap.isBroken, cursor)
    else do
      let word ← word? inFlow cursor.rest
      let text := if word.isEmpty then [] else gap.text ++ word
      let isBroken := word.isEmpty && gap.isBroken
      let cursor := cursor.advance word.length
      if !cursor.isAtAny isSpace then return (text, isBroken, cursor)
      let (gap, cursor) ← Gap.read? column (cursor.size + 1) {} cursor
      if !inFlow && cursor.column < column then return (text, gap.isBroken, cursor)
      let (more, isBroken, cursor) ← words? inFlow column fuel gap cursor
      return (text ++ more, isBroken, cursor)

/-- Reads a plain scalar. -/
def read? (inFlow : Bool) (column : Nat) (cursor : Cursor) : Option (List Char × Bool × Cursor) :=
  words? inFlow column (cursor.size + 1) {} cursor

end StagePlanner.Yaml.Plain

/-! ## Quoted scalars

Scalars in quotes. Between single quotes a quote is written twice; between double
quotes a backslash starts an escape, and before a break it joins two lines.
-/

namespace StagePlanner.Yaml.Quoted

/-- The character that an escape of one letter stands for. -/
def escaped? : Char → Option Char
  | '0' => some '\x00'
  | 'a' => some '\x07'
  | 'b' => some '\x08'
  | 't' | '\t' => some '\t'
  | 'n' => some '\n'
  | 'v' => some '\x0b'
  | 'f' => some '\x0c'
  | 'r' => some '\r'
  | 'e' => some '\x1b'
  | ' ' => some ' '
  | '"' => some '"'
  | '/' => some '/'
  | '\\' => some '\\'
  | 'N' => some '\x85'
  | '_' => some '\u00a0'
  | 'L' => some '\u2028'
  | 'P' => some '\u2029'
  | _ => none

/-- How many hexadecimal digits follow the letter of an escape. -/
def codeLength? : Char → Option Nat
  | 'x' => some 2
  | 'u' => some 4
  | 'U' => some 8
  | _ => none

/-- The character of a code. -/
def ofCode? (code : Nat) : Option Char :=
  if code.isValidChar then some (Char.ofNat code) else none

/-- The character that an escape stands for, and the length of what follows the backslash. -/
def escape? : List Char → Option (Char × Nat)
  | [] => none
  | letter :: rest =>
    match codeLength? letter with
    | none => (escaped? letter).map fun character => (character, 1)
    | some length =>
      let digits := rest.take length
      if digits.length = length then
        ((Text.numeralValue? 16 digits).bind ofCode?).map fun character => (character, length + 1)
      else none

/-- The word at the front of a text between single quotes, and its written length. -/
def singleWord : List Char → List Char × Nat
  | '\'' :: '\'' :: rest =>
    let (word, length) := singleWord rest
    ('\'' :: word, length + 2)
  | '\'' :: _ => ([], 0)
  | [] => ([], 0)
  | character :: rest =>
    if isSpace character then ([], 0)
    else
      let (word, length) := singleWord rest
      (character :: word, length + 1)

/-- The word at the front of a text between double quotes, and its written length; it ends before an
escaped break. -/
def doubleWord? : Nat → List Char → Option (List Char × Nat)
  | 0, _ => none
  | _ + 1, [] => some ([], 0)
  | fuel + 1, character :: rest =>
    if character = '"' || isSpace character then some ([], 0)
    else if character = '\\' then
      if rest.head?.any isBreak then some ([], 0)
      else do
        let (character, length) ← escape? rest
        let (word, more) ← doubleWord? fuel (rest.drop length)
        return (character :: word, length + more + 1)
    else (doubleWord? fuel rest).map fun (word, length) => (character :: word, length + 1)

/-- Reads words up to the closing quote. -/
def words? (isDouble : Bool) : Nat → Cursor → Option (List Char × Cursor)
  | 0, _ => none
  | fuel + 1, cursor =>
    if cursor.isAtDocumentLimit || cursor.atEnd then none
    else do
      let (word, length) ← if isDouble then doubleWord? (cursor.size + 1) cursor.rest
        else some (singleWord cursor.rest)
      let cursor := cursor.advance length
      let isJoined := isDouble && cursor.isAt '\\'
      let cursor := if isJoined then (cursor.advance 1).skipBreak else cursor
      if cursor.isAt (if isDouble then '"' else '\'') then return (word, cursor.advance 1)
      let (gap, cursor) ← Gap.read? 0 (cursor.size + 1) { isBroken := isJoined } cursor
      let (more, cursor) ← words? isDouble fuel cursor
      return (word ++ gap.text ++ more, cursor)

/-- Reads a quoted scalar after its opening quote. -/
def read? (isDouble : Bool) (cursor : Cursor) : Option (List Char × Cursor) :=
  words? isDouble (cursor.size + 1) cursor

end StagePlanner.Yaml.Quoted

/-! ## Block scalars

Scalars of whole lines under an indicator. A literal one keeps its breaks. A folded
one joins lines with a space, unless one of the two starts with a blank or empty
lines separate them. The header may give the indentation, and whether the breaks at
the end are all kept, all dropped, or kept up to the first.
-/

namespace StagePlanner.Yaml.Block

/-- What becomes of the breaks at the end. -/
inductive Chomping where
  | strip
  | clip
  | keep
  deriving DecidableEq, Repr

/-- What stands before the lines. -/
structure Header where
  chomping : Chomping := .clip
  /-- How far the lines are indented beyond what surrounds them. -/
  indentation : Option Nat := none

/-- Reads an indicator of chomping, if there is one. -/
def chomping (cursor : Cursor) : Option Chomping × Cursor :=
  if cursor.isAt '+' then (some .keep, cursor.advance 1)
  else if cursor.isAt '-' then (some .strip, cursor.advance 1)
  else (none, cursor)

/-- Reads an indicator of indentation, if there is one; it is not zero. -/
def indentation? (cursor : Cursor) : Option (Option Nat × Cursor) :=
  match cursor.rest with
  | digit :: _ =>
    if digit = '0' then none
    else if digit.isDigit then some (some (digit.toNat - '0'.toNat), cursor.advance 1)
    else some (none, cursor)
  | [] => some (none, cursor)

/-- Reads a header: the two indicators in either order, and then the end of the line. -/
def header? (cursor : Cursor) : Option (Header × Cursor) := do
  let (early, cursor) := chomping cursor
  let (indentation, cursor) ← indentation? cursor
  let (late, cursor) :=
    if early.isNone && indentation.isSome then chomping cursor else (none, cursor)
  return ({ chomping := (early <|> late).getD .clip, indentation }, ← cursor.nextLineStart?)

/-- Whether a column belongs to the indentation, which may still be unknown. -/
def isIndentation (indentation : Option Nat) (column : Nat) : Bool :=
  indentation.all fun indentation => column < indentation

/-- Passes the spaces of the indentation. -/
def skipIndentation (indentation : Option Nat) (cursor : Cursor) : Cursor :=
  let spaces := (cursor.rest.takeWhile (· = ' ')).length
  cursor.advance (match indentation with
    | none => spaces
    | some indentation => min spaces (indentation - cursor.column))

/-- Reads empty lines and the indentation of the line after them. Gives the text of the breaks and
the widest indentation. -/
def emptyLines? (indentation : Option Nat) : Nat → Cursor → Option (List Char × Nat × Cursor)
  | 0, _ => none
  | fuel + 1, cursor =>
    let cursor := skipIndentation indentation cursor
    if isIndentation indentation cursor.column && cursor.isAt '\t' then none
    else if cursor.isAtAny isBreak then do
      let (text, next) := cursor.takeBreak
      let (breaks, widest, next) ← emptyLines? indentation fuel next
      return (text ++ breaks, max cursor.column widest, next)
    else some ([], cursor.column, cursor)

/-- The text between two lines: a break, and those of empty lines. -/
def separation (isFolded : Bool) (lineBreak breaks : List Char) : List Char :=
  if isFolded && lineBreak = ['\n'] then if breaks.isEmpty then [' '] else breaks
  else lineBreak ++ breaks

/-- Reads the lines after a line; the first arguments say how the lines are written, and the last
ones what came so far: whether the line before starts with a blank, its break, and those of empty
lines. -/
def lines? (isLiteral : Bool) (chomping : Chomping) (indentation : Nat) :
    Nat → Bool → List Char → List Char → Cursor → Option (List Char × Cursor)
  | 0, _, _, _, _ => none
  | fuel + 1, afterBlank, lineBreak, breaks, cursor =>
    if cursor.column = indentation && !cursor.atEnd then do
      let startsBlank := cursor.isAtAny isBlank
      let separation := separation (!isLiteral && !afterBlank && !startsBlank) lineBreak breaks
      let (line, cursor) := cursor.takeWhile fun character => !isBreak character
      let (lineBreak, cursor) := cursor.takeBreak
      let (breaks, _, cursor) ← emptyLines? indentation (cursor.size + 1) cursor
      let (more, cursor) ←
        lines? isLiteral chomping indentation fuel startsBlank lineBreak breaks cursor
      return (separation ++ line ++ more, cursor)
    else
      some (match chomping with
        | .strip => []
        | .clip => lineBreak
        | .keep => lineBreak ++ breaks, cursor)

/-- Reads a block scalar after its indicator. The lines around it start at an outer column, if there
are any; without an indentation of its own its lines are indented as the first one, or the widest
empty one before it, and at least by one more than those around. -/
def read? (isLiteral : Bool) (outer : Option Nat)
    (cursor : Cursor) : Option (List Char × Cursor) := do
  let (header, cursor) ← header? cursor
  let known := header.indentation.map fun indentation => outer.getD 0 + indentation
  let (breaks, widest, cursor) ← emptyLines? known (cursor.size + 1) cursor
  let least := max 1 (outer.elim 0 (· + 1))
  let indentation := known.getD (max widest least)
  lines? isLiteral header.chomping indentation (cursor.size + 1) false [] breaks cursor

end StagePlanner.Yaml.Block
