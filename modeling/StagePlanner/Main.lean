import Std.Time.DateTime.Timestamp
import StagePlanner.CommandLine.Execution

/-!
# The program

Reads what a request needs from the system, and gives the system what the answer
contains.
-/

open StagePlanner

/-- The fault behind an error of the system, whose code for a directory is 21. -/
def fileFault : IO.Error → FileFault
  | .noFileOrDirectory .. => .missing
  | .inappropriateType _ 21 _ => .isDirectory
  | .inappropriateType .. => .notDirectory
  | .resourceExhausted .. => .noSpace
  | .invalidArgument .. => .nameTooLong
  | error => .other error.toString

/-- An identifier made of random bytes; six of its bits say that it is. -/
def randomId : IO String := do
  let bytes ← IO.getRandomBytes 16
  let marked := bytes.toList.mapIdx fun index byte =>
    if index = 6 then byte % 16 + 64 else if index = 8 then byte % 64 + 128 else byte
  let digits := marked.map fun byte =>
    String.ofList [Nat.digitChar (byte.toNat / 16), Nat.digitChar (byte.toNat % 16)]
  return String.intercalate "-" ([(0, 4), (4, 6), (6, 8), (8, 10), (10, 16)].map fun (first, last) =>
    String.join ((digits.take last).drop first))

/-- What surrounds the execution of a command now. -/
def surroundings (command : Command) : IO Surroundings := do
  let source ← (IO.FS.readFile command.graph).toBaseIO
  let values ← Config.variableNames.mapM fun name => do return (name, ← IO.getEnv name)
  let time ← Std.Time.Timestamp.now
  return {
    environment := fun name => (values.lookup name).join
    source := source.mapError fileFault
    id := some (← randomId)
    time := time.toMillisecondsSinceUnixEpoch.val.toNat }

/-- Gives an outcome to the system. -/
def finish (outcome : Outcome) : IO UInt32 := do
  IO.print outcome.output
  IO.eprint outcome.messages
  return outcome.code.toUInt32

/-- Writes a text to a file. -/
def writeText (path text : String) : IO Unit := do
  let handle ← IO.FS.Handle.mk path .write
  handle.putStr text
  handle.flush

/-- Does what a command asks for. -/
def perform (command : Command) : IO UInt32 := do
  match command.execute (← surroundings command) with
  | .finish outcome => finish outcome
  | .save path text outcome =>
    match ← (writeText path text).toBaseIO with
    | .ok () => finish outcome
    | .error error => finish (command.verb.failed (.file (fileFault error)))

/-- Runs the program with its arguments. -/
def main (arguments : List String) : IO UInt32 := do
  match Request.ofArguments arguments with
  | .execute command => perform command
  | request => finish (request.outcome?.getD {})
