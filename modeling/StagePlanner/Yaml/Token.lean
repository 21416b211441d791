import StagePlanner.Yaml.Scalar

/-!
# Tags and tokens

What is said about the kind of a node, and the parts that a YAML text consists of. A tag
consists of bytes, because the escapes in a tag need not make up characters, and a zero
byte ends it. A tag that starts with an exclamation mark is the document's own.
-/

namespace StagePlanner.Yaml

/-- The bytes of a tag. -/
structure Tag where
  bytes : List UInt8
  deriving DecidableEq, Repr

namespace Tag

/-- A tag of bytes, up to the first zero. -/
def ofBytes (bytes : List UInt8) : Tag := ⟨bytes.takeWhile (· ≠ 0)⟩

/-- The tag that a text is. -/
def ofText (text : String) : Tag := .ofBytes text.toUTF8.toList

/-- A tag after what its handle stands for. -/
def after (rest start : Tag) : Tag := ⟨start.bytes ++ rest.bytes⟩

/-- The byte of an exclamation mark. -/
def mark : UInt8 := 0x21

/-- Whether a tag is the document's own. -/
def isLocal (tag : Tag) : Bool := tag.bytes.head? == some mark

/-- The name in a tag of the document's own, if its bytes are a text; a mark alone is a name. -/
def localName? (tag : Tag) : Option String :=
  if tag.isLocal then
    let name := tag.bytes.drop 1
    String.fromUTF8? ⟨(if name.isEmpty then [mark] else name).toArray⟩
  else none

/-- The tag of the language with a given name. -/
def core (name : String) : Tag := .ofText ("tag:yaml.org,2002:" ++ name)

end Tag

/-! ## Tokens

The parts that a YAML text consists of. Blocks, which only indentation marks in the
text, have tokens at their start and end. -/

/-- A tag as it is written: a handle that a directive may explain, and what follows it. -/
structure TagName where
  handle : String
  suffix : Tag
  deriving DecidableEq, Repr

/-- A part of a text. -/
inductive Token where
  /-- The version of the language that a document is written in. -/
  | version (major minor : Nat)
  /-- What a handle of tags stands for. -/
  | handleMeaning (handle : String) (meaning : Tag)
  | documentStart
  | documentEnd
  | blockSequenceStart
  | blockMappingStart
  | blockEnd
  | flowSequenceStart
  | flowSequenceEnd
  | flowMappingStart
  | flowMappingEnd
  /-- The start of an item in a block. -/
  | item
  /-- The end of an item or entry in a flow collection. -/
  | separator
  | key
  | value
  /-- An alias of the node with an anchor. -/
  | reference (name : String)
  | anchor (name : String)
  | tag (name : TagName)
  | scalar (style : ScalarStyle) (text : String)
  deriving DecidableEq, Repr

end StagePlanner.Yaml
