import StagePlanner.Fault
import StagePlanner.Text.Character
import StagePlanner.Volume

/-!
# Configuration

The switches of the planner, the size below which master data are broadcast and
the size classes of partitioned exchanges.
-/

namespace StagePlanner

/-- A switch of the planner. -/
inductive PlanningOption where
  | checkpointAfterExternalInputs
  | checkpointBeforeExternalOutputs
  | removeCyclicBroadcasts
  | unifyStagePorts
  | sizeEstimation
  | iterativeExtension
  | parameterDetection
  | graphStatistics
  | planStatistics
  deriving DecidableEq, Repr

namespace PlanningOption

/-- Every option, in the order in which they are listed. -/
def all : List PlanningOption :=
  [.checkpointAfterExternalInputs, .checkpointBeforeExternalOutputs, .removeCyclicBroadcasts,
    .unifyStagePorts, .sizeEstimation, .iterativeExtension, .parameterDetection, .graphStatistics,
    .planStatistics]

/-- The written name of an option. -/
def symbol : PlanningOption → String
  | .checkpointAfterExternalInputs => "checkpoint_after_external_inputs"
  | .checkpointBeforeExternalOutputs => "checkpoint_before_external_outputs"
  | .removeCyclicBroadcasts => "remove_cyclic_broadcasts"
  | .unifyStagePorts => "unify_subplan_io"
  | .sizeEstimation => "size_estimation"
  | .iterativeExtension => "iterative_extension"
  | .parameterDetection => "parameter_detection"
  | .graphStatistics => "graph_statistics"
  | .planStatistics => "plan_statistics"

/-- The option with a given name. -/
def ofSymbol? (symbol : String) : Option PlanningOption :=
  all.find? fun option => option.symbol == symbol

/-- Whether an option is on unless it is switched off. -/
def isDefault : PlanningOption → Bool
  | .removeCyclicBroadcasts | .unifyStagePorts | .sizeEstimation | .iterativeExtension
  | .parameterDetection => true
  | _ => false

end PlanningOption

/-- The state of every switch. -/
structure PlanningOptions where
  isEnabled : PlanningOption → Bool := PlanningOption.isDefault

namespace PlanningOptions

/-- Sets one switch. -/
def set (options : PlanningOptions) (option : PlanningOption)
    (enabled : Bool) : PlanningOptions where
  isEnabled other := if other = option then enabled else options.isEnabled other

/-- The options that are on, in the order in which they are listed. -/
def enabled (options : PlanningOptions) : List PlanningOption :=
  PlanningOption.all.filter options.isEnabled

end PlanningOptions

/-- The size class of a partitioned exchange. -/
inductive SizeClass where
  | tiny
  | small
  | regular
  | large
  | huge
  deriving DecidableEq, Repr

namespace SizeClass

/-- Every class, smallest first. -/
def all : List SizeClass := [.tiny, .small, .regular, .large, .huge]

/-- The position of a class among all classes. -/
def rank : SizeClass → Nat
  | .tiny => 0
  | .small => 1
  | .regular => 2
  | .large => 3
  | .huge => 4

/-- The written name of a class. -/
def symbol : SizeClass → String
  | .tiny => "tiny"
  | .small => "small"
  | .regular => "regular"
  | .large => "large"
  | .huge => "huge"

/-- The class that a text names; blanks around the name and the case of ASCII letters do not
matter. -/
def ofText (text : String) : Except ConfigFault SizeClass :=
  match all.find? fun size => size.symbol == Text.lower (Text.trim text) with
  | some size => .ok size
  | none => .error (.unknownSizeClass text)

/-- The larger of two classes. -/
def larger (left right : SizeClass) : SizeClass := if left.rank ≤ right.rank then right else left

/-- The largest class of a list. -/
def largest? (sizes : List SizeClass) : Option SizeClass :=
  sizes.foldl (fun best size => some (match best with
    | none => size
    | some other => larger other size)) none

end SizeClass

/-- The largest volumes of the size classes below the last. -/
structure SizeLimits (ν : Type) where
  tiny : ν
  small : ν
  regular : ν
  large : ν

namespace SizeLimits

variable {ν : Type} [Volume ν]

/-- The class of a volume. -/
def classify (limits : SizeLimits ν) (volume : ν) : SizeClass :=
  if Volume.atMost volume limits.tiny then .tiny
  else if Volume.atMost volume limits.small then .small
  else if Volume.atMost volume limits.regular then .regular
  else if Volume.atMost volume limits.large then .large
  else .huge

omit [Volume ν] in
/-- Sets the limit of a class; the last class has none. -/
def set (limits : SizeLimits ν) (size : SizeClass)
    (volume : ν) : Except ConfigFault (SizeLimits ν) :=
  match size with
  | .tiny => .ok { limits with tiny := volume }
  | .small => .ok { limits with small := volume }
  | .regular => .ok { limits with regular := volume }
  | .large => .ok { limits with large := volume }
  | .huge => .error .unlimitedSizeClass

/-- Twenty and two hundred mebibytes, twenty and two hundred gibibytes. -/
def standard : SizeLimits ν where
  tiny := Volume.ofBytes (20 * Nat.pow 1024 2)
  small := Volume.ofBytes (200 * Nat.pow 1024 2)
  regular := Volume.ofBytes (20 * Nat.pow 1024 3)
  large := Volume.ofBytes (200 * Nat.pow 1024 3)

end SizeLimits

/-- The configuration of a planning run. -/
structure Config (ν : Type) where
  options : PlanningOptions := {}
  /-- Master data up to this size are broadcast; without a limit none are. -/
  broadcastLimit : Option ν
  limits : SizeLimits ν
  /-- Size classes fixed by the label or the name of a stage. -/
  explicitSizes : List (String × SizeClass) := []

namespace Config

variable {ν : Type} [Volume ν]

/-- The configuration without any setting. -/
def standard : Config ν where
  broadcastLimit := some (Volume.ofBytes (20 * Nat.pow 1024 2))
  limits := .standard

omit [Volume ν] in
/-- Fixes the size class for a label or a name, in place of an earlier one. -/
def fixSize (config : Config ν) (label : String) (size : SizeClass) : Config ν :=
  { config with
    explicitSizes := (config.explicitSizes.filter fun entry => entry.1 ≠ label) ++ [(label, size)] }

end Config

end StagePlanner
