import StagePlanner.Total
import StagePlanner.Yaml.Scalar
import StagePlanner.Yaml.Token

/-!
# Nodes

What a YAML document consists of once its tokens are put together. A node with an
anchor has a number, and an alias names a number; the alias stands for the last node
of the document that has it. A node may contain an alias of itself.
-/

namespace StagePlanner.Yaml

/-- A node of a document. -/
inductive Node where
  | scalar (anchor : Option Nat) (tag : Option Tag) (style : ScalarStyle) (text : String)
  | sequence (anchor : Option Nat) (tag : Option Tag) (items : List Node)
  | mapping (anchor : Option Nat) (tag : Option Tag) (entries : List (Node × Node))
  /-- An alias of the nodes with a number. -/
  | reference (number : Nat)

namespace Node

/-- The node that stands where nothing is written. -/
def empty : Node := .scalar none none .plain ""

/-- The number of a node with an anchor. -/
def anchor? : Node → Option Nat
  | .scalar anchor .. | .sequence anchor .. | .mapping anchor .. => anchor
  | .reference _ => none

mutual

/-- The nodes within a node, itself included, in the order of their beginnings. -/
def parts : Node → List Node
  | .scalar anchor tag style text => [.scalar anchor tag style text]
  | .sequence anchor tag items => .sequence anchor tag items :: itemParts items
  | .mapping anchor tag entries => .mapping anchor tag entries :: entryParts entries
  | .reference number => [.reference number]

/-- The nodes within the items of a sequence. -/
def itemParts : List Node → List Node
  | [] => []
  | item :: rest => parts item ++ itemParts rest

/-- The nodes within the entries of a mapping. -/
def entryParts : List (Node × Node) → List Node
  | [] => []
  | (key, value) :: rest => parts key ++ parts value ++ entryParts rest

end

/-- The number of marks that delimit a node: one for a scalar or an alias, and two for the ends of
others. -/
def marks : Node → Nat
  | .scalar .. | .reference _ => 1
  | .sequence .. | .mapping .. => 2

/-- The nodes with anchors within a node, by their numbers; the last one comes first. -/
def anchored (node : Node) : List (Nat × Node) :=
  (node.parts.filterMap fun part => part.anchor?.map fun number => (number, part)).reverse

/-- The number of marks in the text of a node. -/
def size (node : Node) : Nat := total (node.parts.map marks)

end Node

end StagePlanner.Yaml
