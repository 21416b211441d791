import StagePlanner.Config
import StagePlanner.Decimal.Reading

/-!
# Settings in text form

Properties and environment variables. A property with a known beginning has to be
well formed, all other properties are ignored; environment variables that cannot
be read are ignored as well.
-/

namespace StagePlanner

/-- The beginning of the keys that set an option. -/
def optionKey : String := "flowplan.planning.option."

/-- The key of the broadcast limit. -/
def broadcastLimitKey : String := "flowplan.planning.broadcast.limit"

/-- The beginning of the keys that set the limit of a size class. -/
def partitionLimitKey : String := "flowplan.planning.partition.limit."

/-- The beginning of the keys that fix the size class of a stage. -/
def partitionSizeKey : String := "flowplan.planning.partition.size."

namespace Config

/-- The truth value that a text names. -/
def boolean? (text : String) : Option Bool :=
  match Text.lower (Text.trim text) with
  | "true" | "on" | "yes" | "1" => some true
  | "false" | "off" | "no" | "0" => some false
  | _ => none

/-- The number that a text denotes; blanks around it do not matter. -/
def number? (text : String) : Option Float := Decimal.float? (Text.trim text)

/-- The number of bytes that a property gives. -/
def byteCount (key value : String) : Except ConfigFault Float :=
  match number? value with
  | some bytes => .ok bytes
  | none => .error (.notByteCount key value)

/-- Sets the broadcast limit; a negative number switches broadcasts off. -/
def limitBroadcasts (config : Config Float) (bytes : Float) : Config Float :=
  { config with broadcastLimit := if 0.0 ≤ bytes then some bytes else none }

/-- Sets the option that a property names. -/
def setOption (config : Config Float)
    (key symbol value : String) : Except ConfigFault (Config Float) :=
  match PlanningOption.ofSymbol? symbol with
  | none => .error (.unknownOption key)
  | some option =>
    match boolean? value with
    | none => .error (.notBoolean key value)
    | some enabled => .ok { config with options := config.options.set option enabled }

/-- Sets the limit of the size class that a property names. -/
def setLimit (config : Config Float)
    (key symbol value : String) : Except ConfigFault (Config Float) := do
  let size ← SizeClass.ofText symbol
  let bytes ← byteCount key value
  let limits ← config.limits.set size bytes
  return { config with limits }

/-- Applies one property. -/
def applyProperty (config : Config Float)
    (key value : String) : Except ConfigFault (Config Float) :=
  match Text.after? optionKey key with
  | some symbol => config.setOption key symbol value
  | none =>
    if key = broadcastLimitKey then (byteCount key value).map config.limitBroadcasts
    else match Text.after? partitionLimitKey key with
      | some symbol => config.setLimit key symbol value
      | none => match Text.after? partitionSizeKey key with
        | some label => (SizeClass.ofText value).map (config.fixSize label)
        | none => .ok config

/-- Applies properties in order until one fails; what was applied before stays. -/
def applyProperties (config : Config Float) :
    List (String × String) → Config Float × Except ConfigFault Unit
  | [] => (config, .ok ())
  | (key, value) :: rest =>
    match config.applyProperty key value with
    | .ok changed => changed.applyProperties rest
    | .error fault => (config, .error fault)

/-- The environment variable that sets an option. -/
def optionVariable (option : PlanningOption) : String :=
  "FLOWPLAN_OPTION_" ++ Text.upper option.symbol

/-- The environment variable that sets the limit of a size class. -/
def limitVariable (size : SizeClass) : String :=
  "FLOWPLAN_PARTITION_LIMIT_" ++ Text.upper size.symbol

/-- The environment variable that sets the broadcast limit. -/
def broadcastLimitVariable : String := "FLOWPLAN_BROADCAST_LIMIT_BYTES"

/-- All environment variables that matter. -/
def variableNames : List String :=
  broadcastLimitVariable :: PlanningOption.all.map optionVariable ++ SizeClass.all.map limitVariable

/-- Sets one option from its environment variable. -/
def readOption (environment : String → Option String) (config : Config Float)
    (option : PlanningOption) : Config Float :=
  match (environment (optionVariable option)).bind boolean? with
  | some enabled => { config with options := config.options.set option enabled }
  | none => config

/-- Sets the limit of one size class from its environment variable. -/
def readLimit (environment : String → Option String) (config : Config Float)
    (size : SizeClass) : Config Float :=
  match (environment (limitVariable size)).bind number? with
  | none => config
  | some bytes =>
    match config.limits.set size bytes with
    | .ok limits => { config with limits }
    | .error _ => config

/-- The configuration that the environment gives. -/
def ofEnvironment (environment : String → Option String) : Config Float :=
  let config := PlanningOption.all.foldl (readOption environment) Config.standard
  let config := match (environment broadcastLimitVariable).bind number? with
    | some bytes => config.limitBroadcasts bytes
    | none => config
  SizeClass.all.foldl (readLimit environment) config

end Config

end StagePlanner
