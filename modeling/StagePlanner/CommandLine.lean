import StagePlanner.Decimal.Reading

/-!
# Command lines

What the program can be asked for, and the options of each command. The values of
most options must not look like options themselves.
-/

namespace StagePlanner

/-- The commands of the program. -/
inductive Verb where
  | plan
  | validate
  | explain
  deriving DecidableEq, Repr

/-- The options of commands. All of them take a value. -/
inductive Flag where
  | graph
  | output
  | option
  | broadcastLimit
  deriving DecidableEq, Repr

/-- Settings that come with a command. -/
structure Overrides where
  /-- Assignments to planning options as they are written. -/
  options : List String := []
  broadcastLimit : Option Float := none

/-- A complete command. -/
structure Command where
  verb : Verb
  /-- The file with the graph document. -/
  graph : String
  /-- The file for the plan; without one it goes to the standard output. -/
  output : Option String
  overrides : Overrides

/-- What a command line asks for. -/
inductive Request where
  | execute (command : Command)
  /-- The description of a command or of the whole program. -/
  | help (verb : Option Verb)
  /-- The description of the command that describes others. -/
  | helpOnHelp
  /-- Nothing, since it is not well formed. -/
  | refuse

namespace Verb

/-- All commands. -/
def all : List Verb := [.plan, .validate, .explain]

/-- The name of a command. -/
def symbol : Verb → String
  | .plan => "plan"
  | .validate => "validate"
  | .explain => "explain"

/-- The command with a name. -/
def ofSymbol? (symbol : String) : Option Verb := all.find? fun verb => verb.symbol == symbol

/-- The options of a command. -/
def flags : Verb → List Flag
  | .plan => [.graph, .output, .option, .broadcastLimit]
  | .validate | .explain => [.graph, .option, .broadcastLimit]

end Verb

namespace Flag

/-- The name of an option. -/
def symbol : Flag → String
  | .graph => "graph"
  | .output => "output"
  | .option => "option"
  | .broadcastLimit => "broadcast-limit"

/-- The letter of an option. -/
def letter? : Flag → Option Char
  | .graph => some 'g'
  | .output => some 'o'
  | .option | .broadcastLimit => none

/-- Whether a text may be the value of an option although it looks like an option. -/
def acceptsAny : Flag → Bool
  | .broadcastLimit => true
  | .graph | .output | .option => false

end Flag

/-- The options of a command that were read so far. -/
structure Settled where
  graph : Option String := none
  output : Option String := none
  overrides : Overrides := {}

namespace Settled

/-- A file name, which is not empty and given at most once. -/
def fileName? (earlier : Option String) (value : String) : Option (Option String) :=
  if earlier.isSome || value.isEmpty then none else some (some value)

/-- Adds the value of an option; only planning options can be given more than once. -/
def add? (settled : Settled) (flag : Flag) (value : String) : Option Settled :=
  match flag with
  | .graph => (fileName? settled.graph value).map fun graph => { settled with graph }
  | .output => (fileName? settled.output value).map fun output => { settled with output }
  | .option => some { settled with
      overrides := { settled.overrides with options := settled.overrides.options ++ [value] } }
  | .broadcastLimit =>
    if settled.overrides.broadcastLimit.isSome then none
    else (Decimal.float? value).map fun limit =>
      { settled with overrides := { settled.overrides with broadcastLimit := some limit } }

/-- The command that the options make up; it needs a graph. -/
def command? (settled : Settled) (verb : Verb) : Option Command :=
  settled.graph.map fun graph =>
    { verb, graph, output := settled.output, overrides := settled.overrides }

end Settled

/-! ### Help

The texts that describe the program and its commands.
-/

/-- The name under which the program is run. -/
def programName : String := "flowplan"

/-- What a command is for. -/
def Verb.purpose : Verb → String
  | .plan => "Plan a graph document and print or write the plan document (JSON)"
  | .validate => "Parse and prepare a graph document without building a plan"
  | .explain => "Show the stages of the plan in human readable form"

/-- What an option is for. -/
def Flag.purpose : Flag → String
  | .graph => "Path to the graph YAML file"
  | .output => "Write the plan document here instead of stdout"
  | .option => "Planning option override, `symbol=true|false` (repeatable)"
  | .broadcastLimit => "Broadcast threshold in bytes (negative disables broadcasts)"

/-- What stands for the value of an option. -/
def Flag.placeholder : Flag → String
  | .graph => "<GRAPH>"
  | .output => "<OUTPUT>"
  | .option => "<SYMBOL=BOOL>"
  | .broadcastLimit => "<BROADCAST_LIMIT>"

namespace Request

/-- What the command is for that describes others. -/
def helpPurpose : String := "Print this message or the help of the given subcommand(s)"

/-- Lines of a text. -/
def lines (lines : List String) : String := String.join (lines.map (· ++ "\n"))

/-- An option in the description of a command. -/
def flagLines (flag : Flag) : List String :=
  let letter := match flag.letter? with
    | some letter => "  -" ++ String.singleton letter ++ ", "
    | none => "      "
  [letter ++ "--" ++ flag.symbol ++ " " ++ flag.placeholder, "          " ++ flag.purpose]

/-- A command in the description of the program. -/
def verbLine (name purpose : String) : String :=
  "  " ++ name ++ String.ofList (List.replicate (10 - name.length) ' ') ++ purpose

/-- The description of the program. -/
def programHelp : String :=
  lines (["Turns dataflow operator graphs into staged execution plans", "",
      "Usage: " ++ programName ++ " <COMMAND>", "", "Commands:"] ++
    Verb.all.map (fun verb => verbLine verb.symbol verb.purpose) ++
    [verbLine "help" helpPurpose, "", "Options:", "  -h, --help  Print help"])

/-- The description of a command. -/
def verbHelp (verb : Verb) : String :=
  lines ([verb.purpose, "",
      "Usage: " ++ programName ++ " " ++ verb.symbol ++ " [OPTIONS] --graph <GRAPH>", "", "Options:"] ++
    verb.flags.flatMap flagLines ++ ["  -h, --help", "          Print help"])

/-- The description of the command that describes others. -/
def helpHelp : String :=
  lines [helpPurpose, "", "Usage: " ++ programName ++ " help [COMMAND]...", "", "Arguments:",
    "  [COMMAND]...  Print help for the subcommand(s)"]

end Request

end StagePlanner
