import StagePlanner.Identifier
import StagePlanner.Iteration
import StagePlanner.Schema

/-!
# Operators

What an operator of a dataflow graph is: its kind, its ports, its arguments and
the traits that later passes attach to it. A `Blueprint` is an operator before
it gets its identifiers.
-/

namespace StagePlanner

/-- How an operator consumes an input. -/
inductive InputUnit where
  | record
  | group
  | whole
  deriving DecidableEq, Repr

namespace InputUnit

/-- The written name of a unit. -/
def symbol : InputUnit → String
  | .record => "record"
  | .group => "group"
  | .whole => "whole"

/-- The unit with a given name. -/
def ofSymbol? (symbol : String) : Option InputUnit :=
  [InputUnit.record, .group, .whole].find? fun unit => unit.symbol == symbol

end InputUnit

/-- A place where a graph may be cut into stages. -/
inductive Marker where
  /-- Stands where nothing is read. -/
  | begin
  /-- Stands where nothing reads. -/
  | finish
  /-- Stores the data as they are. -/
  | checkpoint
  /-- Shuffles the data by key. -/
  | gather
  /-- Delivers all the data to every task. -/
  | broadcast
  deriving DecidableEq, Repr

namespace Marker

/-- Every marker. -/
def all : List Marker := [.begin, .finish, .checkpoint, .gather, .broadcast]

/-- The written name of a marker. -/
def symbol : Marker → String
  | .begin => "BEGIN"
  | .finish => "END"
  | .checkpoint => "CHECKPOINT"
  | .gather => "GATHER"
  | .broadcast => "BROADCAST"

/-- The marker with a given name. -/
def ofSymbol? (symbol : String) : Option Marker := all.find? fun marker => marker.symbol == symbol

end Marker

/-- The operators that the planner itself understands. -/
inductive CoreKind where
  | checkpoint
  | project
  | extend
  | restructure
  deriving DecidableEq, Repr

namespace CoreKind

/-- Every core kind. -/
def all : List CoreKind := [.checkpoint, .project, .extend, .restructure]

/-- The written name of a core kind. -/
def symbol : CoreKind → String
  | .checkpoint => "checkpoint"
  | .project => "project"
  | .extend => "extend"
  | .restructure => "restructure"

/-- The name of a core kind as labels write it. -/
def title : CoreKind → String
  | .checkpoint => "Checkpoint"
  | .project => "Project"
  | .extend => "Extend"
  | .restructure => "Restructure"

/-- The core kind with a given name. -/
def ofSymbol? (symbol : String) : Option CoreKind := all.find? fun kind => kind.symbol == symbol

end CoreKind

/-- The operators whose computation a user supplies. -/
inductive UserKind where
  | extract
  | convert
  | update
  | branch
  | split
  | coGroup
  | groupSort
  | fold
  | summarize
  | masterJoin
  | masterCheck
  | masterBranch
  | masterJoinUpdate
  deriving DecidableEq, Repr

namespace UserKind

/-- Every user kind. -/
def all : List UserKind :=
  [.extract, .convert, .update, .branch, .split, .coGroup, .groupSort, .fold, .summarize,
    .masterJoin, .masterCheck, .masterBranch, .masterJoinUpdate]

/-- The written name of a user kind. -/
def symbol : UserKind → String
  | .extract => "extract"
  | .convert => "convert"
  | .update => "update"
  | .branch => "branch"
  | .split => "split"
  | .coGroup => "co_group"
  | .groupSort => "group_sort"
  | .fold => "fold"
  | .summarize => "summarize"
  | .masterJoin => "master_join"
  | .masterCheck => "master_check"
  | .masterBranch => "master_branch"
  | .masterJoinUpdate => "master_join_update"

/-- The name of a user kind as labels write it. -/
def title : UserKind → String
  | .extract => "Extract"
  | .convert => "Convert"
  | .update => "Update"
  | .branch => "Branch"
  | .split => "Split"
  | .coGroup => "CoGroup"
  | .groupSort => "GroupSort"
  | .fold => "Fold"
  | .summarize => "Summarize"
  | .masterJoin => "MasterJoin"
  | .masterCheck => "MasterCheck"
  | .masterBranch => "MasterBranch"
  | .masterJoinUpdate => "MasterJoinUpdate"

/-- The user kind with a given name. -/
def ofSymbol? (symbol : String) : Option UserKind := all.find? fun kind => kind.symbol == symbol

/-- Whether the operator consumes groups of records that share a key. -/
def isGroupWise : UserKind → Bool
  | .coGroup | .groupSort | .fold | .summarize => true
  | _ => false

/-- Whether records may be reduced before they are shuffled. -/
def supportsPartialReduction : UserKind → Bool
  | .fold | .summarize => true
  | _ => false

/-- Whether the first input is master data and the second holds transactions. -/
def isMasterJoin : UserKind → Bool
  | .masterJoin | .masterCheck | .masterBranch | .masterJoinUpdate => true
  | _ => false

end UserKind

/-- An operator with a computation supplied by a user. -/
structure UserOperator where
  name : String
  kind : UserKind
  partialAggregation : Bool := false
  deriving DecidableEq, Repr

/-- A dataset that is read. -/
structure ExternalInput where
  name : String
  path : Option String := none
  /-- The declared size in bytes, if known. -/
  declaredSize : Option Nat := none
  deriving DecidableEq, Repr

/-- A dataset that is written. -/
structure ExternalOutput where
  name : String
  path : Option String := none
  deriving DecidableEq, Repr

/-- What an operator does. -/
inductive OperatorKind where
  | user (operator : UserOperator)
  | core (kind : CoreKind)
  | input (input : ExternalInput)
  | output (output : ExternalOutput)
  | marker (marker : Marker)
  deriving DecidableEq, Repr

namespace OperatorKind

/-- The written form of a kind, the first part of every label. -/
def text : OperatorKind → String
  | .user definition => definition.name ++ "[" ++ definition.kind.title ++ "]"
  | .core kind => "core:" ++ kind.title
  | .input dataset => "input:" ++ dataset.name
  | .output dataset => "output:" ++ dataset.name
  | .marker boundary => boundary.symbol

/-- The marker that an operator is, if it is one. -/
def marker? : OperatorKind → Option Marker
  | .marker boundary => some boundary
  | _ => none

/-- The user operator that an operator is, if it is one. -/
def user? : OperatorKind → Option UserOperator
  | .user definition => some definition
  | _ => none

/-- Whether an operator reads a dataset. -/
def isInput : OperatorKind → Bool
  | .input _ => true
  | _ => false

/-- Whether an operator writes a dataset. -/
def isOutput : OperatorKind → Bool
  | .output _ => true
  | _ => false

/-- Where the dataset of an external operator lies. -/
def path? : OperatorKind → Option String
  | .input dataset => dataset.path
  | .output dataset => dataset.path
  | _ => none

end OperatorKind

/-- The value of an argument. -/
inductive ArgumentValue where
  | boolean (value : Bool)
  | integer (value : Int)
  | text (value : String)
  deriving DecidableEq, Repr

/-- A named argument of an operator. -/
structure Argument where
  name : String
  value : ArgumentValue
  deriving DecidableEq, Repr

/-- Identity of the data that cross a gather or broadcast marker. -/
structure Crossing where
  dataType : DataType
  group : Option Group := none
  /-- The operator whose partial aggregation runs before the exchange. -/
  aggregation : Option SerialNumber := none
  deriving DecidableEq, Repr

/-- What passes attach to an operator; each trait is absent until it is attached. -/
structure Traits where
  iteration : Option Iteration := none
  crossing : Option Crossing := none
  deriving DecidableEq, Repr

/-- A port before it gets its identifier. -/
structure PortShape where
  name : String
  dataType : DataType
  group : Option Group := none
  unit : Option InputUnit := none
  deriving DecidableEq, Repr

/-- A port of an operator. -/
structure Port extends PortShape where
  id : PortId
  deriving DecidableEq, Repr

/-- An operator of a graph, with its ports. -/
structure Operator where
  id : OperatorId
  serial : SerialNumber
  kind : OperatorKind
  inputs : List Port
  outputs : List Port
  arguments : List Argument := []
  traits : Traits := {}
  deriving DecidableEq, Repr

namespace Operator

/-- Every port, inputs first. -/
def ports (operator : Operator) : List Port := operator.inputs ++ operator.outputs

/-- The marker that an operator is, if it is one. -/
def marker? (operator : Operator) : Option Marker := operator.kind.marker?

/-- Whether the operator is a marker. -/
def isMarker (operator : Operator) : Bool := operator.marker?.isSome

/-- Whether the operator is a given marker. -/
def isMarkerOf (operator : Operator) (marker : Marker) : Bool := operator.marker? = some marker

/-- Whether the operator is of a given core kind. -/
def isCore (operator : Operator) (kind : CoreKind) : Bool := operator.kind = .core kind

/-- A short text that stays the same in every copy of the operator. -/
def label (operator : Operator) : String :=
  operator.kind.text ++ "#" ++ toString operator.serial.index

end Operator

end StagePlanner
