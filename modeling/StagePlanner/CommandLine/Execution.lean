import StagePlanner.CommandLine.Reading
import StagePlanner.Config.Property
import StagePlanner.Document.Building
import StagePlanner.Document.YamlFormat
import StagePlanner.Files
import StagePlanner.Planning
import StagePlanner.SavedPlan

/-!
# Execution of commands

What the program answers to a request. The environment is given with it: the
environment variables, what the graph file holds, and what tells a saved plan from
others. The configuration takes the environment first, then the settings of the
document, then those of the command line.
-/

namespace StagePlanner

/-- Why a command fails. -/
inductive CommandFault where
  | file (cause : FileFault)
  /-- The text is no YAML, or has not the shape of a graph document. -/
  | document
  | planner (cause : Fault)
  /-- An assignment to a planning option without an equals sign. -/
  | assignment (text : String)
  deriving DecidableEq, Repr

/-- The text of a fault of a command. -/
def CommandFault.text : CommandFault → String
  | .file cause => cause.text
  | .document => "YAML error"
  | .planner cause => cause.message
  | .assignment text => "option must look like symbol=true: " ++ text

/-- What surrounds the execution of a command. -/
structure Surroundings where
  environment : String → Option String
  /-- What the file with the graph document holds. -/
  source : Except FileFault String
  /-- The identifier of a plan that is saved. -/
  id : Option String
  /-- The time in milliseconds. -/
  time : Nat

/-- What the program leaves: its exit code, and the texts on its output and error channels. -/
structure Outcome where
  code : Nat := 0
  output : String := ""
  messages : String := ""
  deriving DecidableEq, Repr

/-- What the program does at the end. -/
inductive Reply where
  | finish (outcome : Outcome)
  /-- Writes a text to a file; the outcome holds if that works. -/
  | save (path text : String) (outcome : Outcome)

/-- A text with a line end. -/
def lineOf (text : String) : String := text ++ "\n"

/-- The outcome of a command that fails. -/
def Verb.failed (verb : Verb) (fault : CommandFault) : Outcome :=
  let start := match verb with
    | .validate => "Validation failed: "
    | .plan | .explain => "Error: "
  { code := 1, messages := lineOf (start ++ fault.text) }

namespace Overrides

/-- The property that an assignment to a planning option stands for. -/
def property (assignment : String) : Except CommandFault (String × String) :=
  let characters := assignment.toList
  match characters.dropWhile (· ≠ '=') with
  | _ :: value =>
    let symbol := Text.trim (String.ofList (characters.takeWhile (· ≠ '=')))
    .ok (optionKey ++ symbol, String.ofList value)
  | [] => .error (.assignment assignment)

/-- Applies an assignment to a planning option. -/
def assign (config : Config Float) (assignment : String) : Except CommandFault (Config Float) := do
  let (key, value) ← property assignment
  (config.applyProperty key value).mapError fun cause => .planner (.config cause)

/-- Applies the settings of a command line. -/
def applyTo (overrides : Overrides)
    (config : Config Float) : Except CommandFault (Config Float) := do
  let config ← overrides.options.foldlM assign config
  return overrides.broadcastLimit.elim config config.limitBroadcasts

end Overrides

namespace Command

/-- A graph that is ready to be planned. -/
structure Loaded where
  source : String
  graph : Graph
  planner : Planner Float

/-- Reads the graph and settles the configuration. -/
def load (command : Command) (surroundings : Surroundings) : Except CommandFault Loaded := do
  let source ← surroundings.source.mapError CommandFault.file
  let document ← (Yaml.document? source).elim (.error .document) .ok
  let named ← document.build.mapError CommandFault.planner
  let (config, result) := document.settings.applyTo (.ofEnvironment surroundings.environment)
  result.mapError fun cause => .planner (.config cause)
  let config ← command.overrides.applyTo config
  return { source, graph := named.graph, planner := { config } }

/-- Plans a graph that was read. -/
def Loaded.save (loaded : Loaded)
    (surroundings : Surroundings) : Except CommandFault SavedPlan := do
  let plan ← (loaded.planner.planOf loaded.graph).mapError CommandFault.planner
  return .ofPlan plan loaded.source surroundings.id surroundings.time

/-- Plans the graph and gives the plan away. -/
def plan (command : Command) (surroundings : Surroundings) : Except CommandFault Reply := do
  let saved ← (← command.load surroundings).save surroundings
  match command.output with
  | none => return .finish { output := lineOf saved.json.pretty }
  | some path =>
    let message := "✓ Planned " ++ toString saved.manifest.stages ++ " stages into " ++ path ++
      " (plan hash " ++ saved.manifest.planDigest.short ++ ")"
    return .save path saved.json.pretty { messages := lineOf message }

/-- Prepares the graph; warns if the loop of optimisation was cut short. -/
def validate (command : Command) (surroundings : Surroundings) : Except CommandFault Reply := do
  let loaded ← command.load surroundings
  let report ← ((loaded.planner.prepare).apply loaded.graph).1.mapError CommandFault.planner
  let warning :=
    "warning: optimization stopped after " ++ toString report.optimization.steps ++ " steps"
  return .finish {
    output := lineOf "✓ Graph is valid"
    messages := if report.optimization.converged then "" else lineOf warning }

/-- Plans the graph and describes the plan to readers. -/
def explain (command : Command) (surroundings : Surroundings) : Except CommandFault Reply := do
  let loaded ← command.load surroundings
  let saved ← loaded.save surroundings
  return .finish { output := saved.explanation loaded.graph.size }

/-- Executes a command. -/
def execute (command : Command) (surroundings : Surroundings) : Reply :=
  let result := match command.verb with
    | .plan => command.plan surroundings
    | .validate => command.validate surroundings
    | .explain => command.explain surroundings
  match result with
  | .ok reply => reply
  | .error fault => .finish (command.verb.failed fault)

/-- Executes a command among files; gives its outcome and the files that it leaves. The source of
the surroundings is read from the files. -/
def executeIn (command : Command) (surroundings : Surroundings) (files : Files) : Outcome × Files :=
  match command.execute { surroundings with source := files.read command.graph } with
  | .finish outcome => (outcome, files)
  | .save path text outcome =>
    match files.write path text with
    | .ok files => (outcome, files)
    | .error fault => (command.verb.failed (.file fault), files)

end Command

namespace Request

/-- The message about a command line that is not well formed. -/
def refusal : String := lineOf ("error: invalid arguments; see " ++ programName ++ " --help")

/-- Answers a request that needs no file. -/
def outcome? : Request → Option Outcome
  | .execute _ => none
  | .help none => some { output := programHelp }
  | .help (some verb) => some { output := verbHelp verb }
  | .helpOnHelp => some { output := helpHelp }
  | .refuse => some { code := 2, messages := refusal }

end Request

end StagePlanner
