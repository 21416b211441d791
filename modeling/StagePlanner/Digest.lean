/-!
# Digests

Fixed-size fingerprints of texts and of sequences of numbers, and their written
forms. A fingerprint is made by BLAKE3 with its default output of 32 bytes: the input is cut
into chunks of 1024 bytes, a chunk into blocks of 64 bytes; the chunks become the
leaves of a binary tree that is full on the left, and the root of it is the hash.
-/

namespace StagePlanner.Blake3

/-- Sixteen words: a block of input or the state of the compression. -/
abbrev Words := Vector UInt32 16

/-- The eight words that one compression hands to the next. -/
abbrev Chain := Vector UInt32 8

/-- The chain that every chunk starts with. -/
def startChain : Chain :=
  #v[0x6A09E667, 0xBB67AE85, 0x3C6EF372, 0xA54FF53A, 0x510E527F, 0x9B05688C, 0x1F83D9AB, 0x5BE0CD19]

/-- The order in which a round takes over the words of the round before. -/
def schedule : Vector (Fin 16) 16 := #v[2, 6, 3, 10, 7, 0, 4, 13, 1, 11, 12, 5, 9, 14, 15, 8]

/-- Marks the first block of a chunk. -/
def chunkStart : UInt32 := 1

/-- Marks the last block of a chunk. -/
def chunkEnd : UInt32 := 2

/-- Marks an inner node of the tree. -/
def parentNode : UInt32 := 4

/-- Marks the root of the tree. -/
def rootNode : UInt32 := 8

/-- Rotates a word to the right. -/
def rotate (word count : UInt32) : UInt32 := (word >>> count) ||| (word <<< (32 - count))

/-- Mixes two words of input into four words of the state. -/
def mix (state : Words) (a b c d : Fin 16) (x y : UInt32) : Words :=
  let a1 := state[a] + state[b] + x
  let d1 := rotate (state[d] ^^^ a1) 16
  let c1 := state[c] + d1
  let b1 := rotate (state[b] ^^^ c1) 12
  let a2 := a1 + b1 + y
  let d2 := rotate (d1 ^^^ a2) 8
  let c2 := c1 + d2
  let b2 := rotate (b1 ^^^ c2) 7
  (((state.set a a2).set b b2).set c c2).set d d2

/-- Mixes a block into the columns and then into the diagonals of the state. -/
def round (state block : Words) : Words :=
  let state := mix state 0 4 8 12 block[0] block[1]
  let state := mix state 1 5 9 13 block[2] block[3]
  let state := mix state 2 6 10 14 block[4] block[5]
  let state := mix state 3 7 11 15 block[6] block[7]
  let state := mix state 0 5 10 15 block[8] block[9]
  let state := mix state 1 6 11 12 block[10] block[11]
  let state := mix state 2 7 8 13 block[12] block[13]
  mix state 3 4 9 14 block[14] block[15]

/-- Runs a number of rounds, rearranging the block before each but the first. -/
def rounds : Nat → Words → Words → Words
  | 0, state, _ => state
  | more + 1, state, block =>
    rounds more (round state block) (schedule.map fun index => block[index])

/-- What one compression needs, which is also a node of the tree before it is compressed. -/
structure Node where
  chain : Chain
  block : Words
  /-- The position of the chunk; zero for inner nodes. -/
  counter : UInt64
  /-- How many bytes of the block are input. -/
  length : UInt32
  flags : UInt32

namespace Node

/-- The chain that a node hands on, with additional flags. -/
def compress (node : Node) (flags : UInt32) : Chain :=
  let state : Words := node.chain ++ #v[0x6A09E667, 0xBB67AE85, 0x3C6EF372, 0xA54FF53A,
    node.counter.toUInt32, (node.counter >>> 32).toUInt32, node.length, node.flags ||| flags]
  let state := rounds 7 state node.block
  Vector.ofFn fun index : Fin 8 => state[index.val] ^^^ state[index.val + 8]

/-- The inner node above two nodes. -/
def parent (left right : Node) : Node where
  chain := startChain
  block := left.compress 0 ++ right.compress 0
  counter := 0
  length := 64
  flags := parentNode

end Node

/-- Cuts a list into pieces of a given size; the last may be shorter, and an empty list is one
piece. -/
def pieces {α : Type} (size : Nat) : Nat → List α → List (List α)
  | 0, items => [items]
  | more + 1, items =>
    let rest := items.drop size
    if rest.isEmpty then [items] else items.take size :: pieces size more rest

/-- The words of a block, smallest byte first, filled up with zeros. -/
def wordsOf (bytes : List UInt8) : Words :=
  let bytes := bytes.toArray
  Vector.ofFn fun index : Fin 16 =>
    let byte (offset : Nat) : UInt32 := (bytes.getD (4 * index.val + offset) 0).toUInt32
    byte 0 ||| (byte 1 <<< 8) ||| (byte 2 <<< 16) ||| (byte 3 <<< 24)

/-- The node of the rest of a chunk, from the chain and the flags that its next block gets. -/
def chunkFrom (counter : UInt64) : Chain → UInt32 → List (List UInt8) → Node
  | chain, flags, [] =>
    { chain, block := wordsOf [], counter, length := 0, flags := flags ||| chunkEnd }
  | chain, flags, [block] =>
    { chain, block := wordsOf block, counter, length := block.length.toUInt32
      flags := flags ||| chunkEnd }
  | chain, flags, block :: rest =>
    let node : Node := { chain, block := wordsOf block, counter, length := 64, flags }
    chunkFrom counter (node.compress 0) 0 rest

/-- The leaf for the chunk at a position. -/
def chunk (position : Nat) (bytes : List UInt8) : Node :=
  chunkFrom position.toUInt64 startChain chunkStart (pieces 64 16 bytes)

/-- Joins neighbours; a last node without a neighbour stays as it is. -/
def joinPairs : List Node → List Node
  | left :: right :: rest => Node.parent left right :: joinPairs rest
  | rest => rest

/-- The root above a node and its right neighbours; as many rounds as nodes are enough. -/
def root : Nat → Node → List Node → Node
  | _, node, [] => node
  | 0, node, _ => node
  | more + 1, node, second :: rest => root more (Node.parent node second) (joinPairs rest)

/-- The bytes of a word, smallest first. -/
def wordBytes (word : UInt32) : List UInt8 :=
  [word.toUInt8, (word >>> 8).toUInt8, (word >>> 16).toUInt8, (word >>> 24).toUInt8]

/-- The 32 bytes of the hash of an input. -/
def hash (bytes : List UInt8) : List UInt8 :=
  let chunks := (pieces 1024 (bytes.length / 1024 + 1) bytes).zipIdx.map fun (piece, position) =>
    chunk position piece
  match chunks with
  | [] => []
  | first :: rest => ((root rest.length first rest).compress rootNode).toList.flatMap wordBytes

end StagePlanner.Blake3

namespace StagePlanner

/-- A fingerprint of 32 bytes. -/
structure Digest where
  bytes : List UInt8
  deriving DecidableEq, Repr

namespace Digest

/-- The digest of a sequence of bytes. -/
def ofBytes (bytes : List UInt8) : Digest := ⟨Blake3.hash bytes⟩

/-- The digest of the UTF-8 form of a text. -/
def ofText (text : String) : Digest := ofBytes text.toUTF8.toList

/-- The eight bytes of a number below 2^64, smallest first. -/
def numberBytes (number : Nat) : List UInt8 :=
  (List.range 8).map fun position => (number / Nat.pow 256 position).toUInt8

/-- The digest of a sequence of numbers below 2^64, eight bytes each. -/
def ofNumbers (numbers : List Nat) : Digest := ofBytes (numbers.flatMap numberBytes)

/-- A hexadecimal digit. -/
def hexDigit (value : Nat) : Char := (Nat.digitChar value)

/-- The digest in 64 hexadecimal digits. -/
def hex (digest : Digest) : String :=
  String.ofList (digest.bytes.flatMap fun byte =>
    [hexDigit (byte.toNat / 16), hexDigit (byte.toNat % 16)])

/-- The first twelve hexadecimal digits. -/
def short (digest : Digest) : String := String.ofList (digest.hex.toList.take 12)

end Digest

end StagePlanner
