import StagePlanner.Config.Property
import StagePlanner.Decimal.Layout
import StagePlanner.Operator
import StagePlanner.OrderedSet

/-!
# Graph documents

What a document says about a graph and about how it is to be planned, before any of
it is checked.
-/

namespace StagePlanner

/-- The settings of a document. -/
structure Settings where
  /-- Which options are on, by their names in ascending order. -/
  options : List (String × Bool) := []
  broadcastLimit : Option Float := none
  /-- Limits of size classes, by the names of the classes in ascending order. -/
  partitionLimits : List (String × Float) := []
  /-- Names of size classes for stages, by their labels in ascending order. -/
  partitionSizes : List (String × String) := []

/-- A field of a record type as a document gives it. -/
structure FieldDefinition where
  name : String
  type : String
  nullable : Bool := false
  deriving DecidableEq, Repr

/-- A type as a document gives it. -/
inductive TypeDefinition where
  | named (name : String)
  | record (name : String) (fields : List FieldDefinition)
  deriving DecidableEq, Repr

/-- A port as a document gives it. -/
structure PortDefinition where
  name : String
  type : TypeDefinition
  group : List String := []
  order : List String := []
  unit : Option InputUnit := none
  deriving DecidableEq, Repr

/-- A condition of iteration as a document gives it. -/
inductive IterationDefinition where
  | flag (value : Bool)
  | parameters (names : List String)
  deriving DecidableEq, Repr

/-- An operator as a document gives it. -/
structure OperatorDefinition where
  id : String
  kind : String
  name : Option String := none
  type : Option TypeDefinition := none
  inputs : List PortDefinition := []
  outputs : List PortDefinition := []
  /-- Arguments by their names in ascending order. -/
  arguments : List (String × ArgumentValue) := []
  partialAggregation : Bool := false
  path : Option String := none
  size : Option Nat := none
  iteration : Option IterationDefinition := none
  deriving DecidableEq, Repr

/-- An edge between two endpoints as a document gives it. -/
structure EdgeDefinition where
  source : String
  target : String
  deriving DecidableEq, Repr

/-- A graph document. -/
structure Document where
  settings : Settings := {}
  operators : List OperatorDefinition := []
  edges : List EdgeDefinition := []

namespace Settings

/-- Numbers in properties have no exponent and, if they are integral, no point. -/
def numberLayout : Decimal.Layout where
  pointLimit := none
  integralEnd := ""
  tie := .up
  undefined := "NaN"
  infinite := "inf"

/-- The properties that say the same as the settings. -/
def properties (settings : Settings) : List (String × String) :=
  settings.options.map (fun (symbol, enabled) =>
      (optionKey ++ symbol, if enabled then "true" else "false")) ++
    (settings.broadcastLimit.map fun limit => (broadcastLimitKey, numberLayout.text limit)).toList ++
    settings.partitionLimits.map (fun (size, bytes) =>
      (partitionLimitKey ++ size, numberLayout.text bytes)) ++
    settings.partitionSizes.map fun (label, size) => (partitionSizeKey ++ label, size)

/-- Applies the settings to a configuration. -/
def applyTo (settings : Settings)
    (config : Config Float) : Config Float × Except ConfigFault Unit :=
  config.applyProperties settings.properties

end Settings

end StagePlanner
