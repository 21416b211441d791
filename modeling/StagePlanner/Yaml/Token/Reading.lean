import StagePlanner.Yaml.Scalar.Reading
import StagePlanner.Yaml.Token.Property

/-!
# Reading tokens

The tokens of a text, one after the other. What is open in the text decides what a
token is:

* Blocks are kept by their columns. A token that starts left of the innermost block
  ends it, and one right of it may start a block.
* What may turn out to be a key, because a colon follows, is remembered with its place
  among the tokens. It has to end in the line where it starts and within 1024
  bytes. The token that marks a key is put in at its place when the colon comes.
-/

namespace StagePlanner.Yaml

/-- A place where a key may have started. -/
structure KeyCandidate where
  /-- The number of tokens before it. -/
  place : Nat
  offset : Nat
  line : Nat
  column : Nat
  /-- Whether the text is malformed if it is no key. -/
  isRequired : Bool

/-- What is known in the middle of a text. -/
structure Scanner where
  cursor : Cursor
  tokens : Array Token := #[]
  /-- The columns of the open blocks, from the innermost one. -/
  blocks : List Nat := []
  /-- The possible key of the innermost flow collection or, outside of them, of the block. -/
  candidate : Option KeyCandidate := none
  /-- The possible keys around the innermost flow collection, from the inside. -/
  outer : List (Option KeyCandidate) := []
  /-- Whether a key may start here. -/
  allowsKey : Bool := true

namespace Scanner

/-- Whether a flow collection is open. -/
def inFlow (scanner : Scanner) : Bool := !scanner.outer.isEmpty

/-- The least column of what belongs to the innermost block. -/
def contentColumn (scanner : Scanner) : Nat := scanner.blocks.head?.elim 0 (· + 1)

/-- Adds a token and moves on. -/
def emit (scanner : Scanner) (token : Token) (cursor : Cursor) : Scanner :=
  { scanner with tokens := scanner.tokens.push token, cursor }

/-- Adds a token for an indicator of a number of characters. -/
def indicate (scanner : Scanner) (token : Token) (length : Nat) : Scanner :=
  scanner.emit token (scanner.cursor.advance length)

/-- Whether a possible key that started earlier still is one here. -/
def isFresh (scanner : Scanner) (candidate : KeyCandidate) : Bool :=
  scanner.cursor.line ≤ candidate.line && scanner.cursor.offset ≤ candidate.offset + 1024

/-- A possible key, unless it is one no more; nothing if a required one got lost. -/
def refresh? (scanner : Scanner) : Option KeyCandidate → Option (Option KeyCandidate)
  | none => some none
  | some candidate =>
    if scanner.isFresh candidate then some (some candidate)
    else if candidate.isRequired then none
    else some none

/-- Drops the possible keys that started too long ago. -/
def refreshKeys? (scanner : Scanner) : Option Scanner := do
  return {
    scanner with
    candidate := ← scanner.refresh? scanner.candidate
    outer := ← scanner.outer.mapM scanner.refresh? }

/-- Drops the innermost possible key, which must not be required. -/
def dropKey? (scanner : Scanner) : Option Scanner :=
  if scanner.candidate.any KeyCandidate.isRequired then none
  else some { scanner with candidate := none }

/-- Remembers that a key may start here, if one may. -/
def saveKey? (scanner : Scanner) : Option Scanner := do
  if !scanner.allowsKey then return scanner
  let isRequired := !scanner.inFlow && scanner.blocks.head? == some scanner.cursor.column
  let scanner ← scanner.dropKey?
  return {
    scanner with
    candidate := some {
      place := scanner.tokens.size
      offset := scanner.cursor.offset
      line := scanner.cursor.line
      column := scanner.cursor.column
      isRequired } }

/-- Sets whether a key may start here. -/
def allowKey (scanner : Scanner) (allowsKey : Bool) : Scanner := { scanner with allowsKey }

/-- Opens a block at a column unless it belongs to an open one; the token goes to a place among the
tokens. -/
def openBlock (scanner : Scanner) (token : Token) (place column : Nat) : Scanner :=
  if scanner.inFlow || column < scanner.contentColumn then scanner
  else {
    scanner with
    blocks := column :: scanner.blocks
    tokens := scanner.tokens.insertIdxIfInBounds place token }

/-- Opens a block here. -/
def openBlockHere (scanner : Scanner) (token : Token) : Scanner :=
  scanner.openBlock token scanner.tokens.size scanner.cursor.column

/-- Closes the blocks whose columns are of a kind. -/
def closeBlocks (scanner : Scanner) (isClosed : Nat → Bool) : Scanner :=
  if scanner.inFlow then scanner
  else {
    scanner with
    blocks := scanner.blocks.dropWhile isClosed
    tokens := scanner.tokens ++ (scanner.blocks.takeWhile isClosed).map fun _ => Token.blockEnd }

/-- Closes all blocks before something that is not part of a document. -/
def leaveDocument? (scanner : Scanner) : Option Scanner := do
  return (← (scanner.closeBlocks fun _ => true).dropKey?).allowKey false

/-- Passes spaces, comments and breaks. Tabs only count as spaces where no key may start. -/
def skipSpaces (scanner : Scanner) : Nat → Scanner
  | 0 => scanner
  | fuel + 1 =>
    let cursor := scanner.cursor
    let cursor := if cursor.column = 0 && cursor.isAt '\ufeff' then cursor.advance 1 else cursor
    let allowsTab := scanner.inFlow || !scanner.allowsKey
    let cursor :=
      cursor.skipWhile fun character => character = ' ' || (allowsTab && character = '\t')
    let cursor := cursor.skipComment
    if cursor.isAtAny isBreak then
      let allowsKey := scanner.allowsKey || !scanner.inFlow
      skipSpaces { scanner with cursor := cursor.skipBreak, allowsKey } fuel
    else { scanner with cursor }

/-- Reads the start of a flow collection. -/
def openFlow? (scanner : Scanner) (token : Token) : Option Scanner := do
  let scanner ← scanner.saveKey?
  let scanner := { scanner with outer := scanner.candidate :: scanner.outer, candidate := none }
  return (scanner.allowKey true).indicate token 1

/-- Reads the end of a flow collection. -/
def closeFlow? (scanner : Scanner) (token : Token) : Option Scanner := do
  let scanner ← scanner.dropKey?
  let scanner := match scanner.outer with
    | [] => scanner
    | candidate :: outer => { scanner with candidate, outer }
  return (scanner.allowKey false).indicate token 1

/-- Reads the indicator between items or entries of a flow collection. -/
def separator? (scanner : Scanner) : Option Scanner := do
  return ((← scanner.dropKey?).allowKey true).indicate .separator 1

/-- Reads the indicator of an item in a block. -/
def item? (scanner : Scanner) : Option Scanner := do
  if !scanner.inFlow && !scanner.allowsKey then none
  let scanner ← (scanner.openBlockHere .blockSequenceStart).dropKey?
  return (scanner.allowKey true).indicate .item 1

/-- Reads the indicator of a key. -/
def key? (scanner : Scanner) : Option Scanner := do
  if !scanner.inFlow && !scanner.allowsKey then none
  let scanner ← (scanner.openBlockHere .blockMappingStart).dropKey?
  return (scanner.allowKey !scanner.inFlow).indicate .key 1

/-- Reads the indicator of a value. What may be a key before it is one; without that it belongs to a
key that was indicated. -/
def value? (scanner : Scanner) : Option Scanner :=
  match scanner.candidate with
  | some candidate =>
    let tokens := scanner.tokens.insertIdxIfInBounds candidate.place .key
    let scanner := { scanner with tokens, candidate := none }
    let scanner := scanner.openBlock .blockMappingStart candidate.place candidate.column
    some ((scanner.allowKey false).indicate .value 1)
  | none =>
    if !scanner.inFlow && !scanner.allowsKey then none
    else
      let scanner := scanner.openBlockHere .blockMappingStart
      some ((scanner.allowKey !scanner.inFlow).indicate .value 1)

/-- Reads something that may be part of a key. -/
def keyPart? (scanner : Scanner) (read? : Cursor → Option (Token × Cursor)) : Option Scanner := do
  let scanner ← scanner.saveKey?
  let (token, cursor) ← read? scanner.cursor
  return (scanner.allowKey false).emit token cursor

/-- Reads a scalar in quotes. -/
def quoted? (scanner : Scanner) (isDouble : Bool) : Option Scanner :=
  scanner.keyPart? fun cursor => do
    let (text, cursor) ← Quoted.read? isDouble (cursor.advance 1)
    return (.scalar .other (String.ofList text), cursor)

/-- Reads a scalar of whole lines. -/
def block? (scanner : Scanner) (isLiteral : Bool) : Option Scanner := do
  let scanner ← scanner.dropKey?
  let (text, cursor) ← Block.read? isLiteral scanner.blocks.head? (scanner.cursor.advance 1)
  let style : ScalarStyle := if isLiteral then .literal else .other
  return (scanner.allowKey true).emit (.scalar style (String.ofList text)) cursor

/-- Reads a scalar without quotes; after breaks at its end a key may start. -/
def plain? (scanner : Scanner) : Option Scanner := do
  let scanner ← scanner.saveKey?
  let (text, isBroken, cursor) ← Plain.read? scanner.inFlow scanner.contentColumn scanner.cursor
  return (scanner.allowKey isBroken).emit (.scalar .plain (String.ofList text)) cursor

/-- Whether a plain scalar may start with the next character. -/
def startsPlain (scanner : Scanner) : Bool :=
  let cursor := scanner.cursor
  if cursor.isAt '-' then !(cursor.rest[1]?.any isBlank)
  else if cursor.isAt '?' || cursor.isAt ':' then !scanner.inFlow && !cursor.isSpaceOrEnd 1
  else !cursor.isSpaceOrEnd 0 && !cursor.isAtAny ",[]\x7b\x7d#&*!|>'\"%@\x60".toList.contains

/-- Reads a token within a line of a document. -/
def lineToken? (scanner : Scanner) : Option Scanner :=
  let cursor := scanner.cursor
  let inFlow := scanner.inFlow
  match cursor.rest with
  | '[' :: _ => scanner.openFlow? .flowSequenceStart
  | '\x7b' :: _ => scanner.openFlow? .flowMappingStart
  | ']' :: _ => scanner.closeFlow? .flowSequenceEnd
  | '\x7d' :: _ => scanner.closeFlow? .flowMappingEnd
  | ',' :: _ => scanner.separator?
  | '*' :: _ => scanner.keyPart? fun cursor => do
    let (name, cursor) ← Token.anchorName? (cursor.advance 1)
    return (.reference name, cursor)
  | '&' :: _ => scanner.keyPart? fun cursor => do
    let (name, cursor) ← Token.anchorName? (cursor.advance 1)
    return (.anchor name, cursor)
  | '!' :: _ => scanner.keyPart? fun cursor => do
    let (name, cursor) ← Token.tag? inFlow cursor
    return (.tag name, cursor)
  | '\'' :: _ => scanner.quoted? false
  | '"' :: _ => scanner.quoted? true
  | character :: _ =>
    if character = '-' && cursor.isSpaceOrEnd 1 then scanner.item?
    else if character = '?' && (inFlow || cursor.isSpaceOrEnd 1) then scanner.key?
    else if character = ':' && (inFlow || cursor.isSpaceOrEnd 1) then scanner.value?
    else if character = '|' && !inFlow then scanner.block? true
    else if character = '>' && !inFlow then scanner.block? false
    else if scanner.startsPlain then scanner.plain?
    else none
  | [] => none

/-- Reads the next token. -/
def next? (scanner : Scanner) : Option Scanner := do
  let cursor := scanner.cursor
  if cursor.column = 0 && cursor.isAt '%' then
    let scanner ← scanner.leaveDocument?
    let (token, cursor) ← Token.directive? (cursor.advance 1)
    return scanner.emit token cursor
  else if cursor.isAtRule '-' then return (← scanner.leaveDocument?).indicate .documentStart 3
  else if cursor.isAtRule '.' then return (← scanner.leaveDocument?).indicate .documentEnd 3
  else scanner.lineToken?

/-- Reads the tokens up to the end of the text. -/
def run? : Nat → Scanner → Option Scanner
  | 0, _ => none
  | fuel + 1, scanner => do
    let scanner ← (scanner.skipSpaces (scanner.cursor.size + 1)).refreshKeys?
    if scanner.cursor.atEnd then scanner.leaveDocument?
    else run? fuel (← (scanner.closeBlocks fun column => scanner.cursor.column < column).next?)

end Scanner

/-- The tokens of a text; nothing if the text is malformed. -/
def tokens? (text : String) : Option (List Token) :=
  if text.toList.all isAllowed then
    (Scanner.run? (text.length + 2) { cursor := .ofText text }).map fun scanner =>
      scanner.tokens.toList
  else none

end StagePlanner.Yaml
