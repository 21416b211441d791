import StagePlanner.CommandLine

/-!
# Reading command lines

The request that the arguments of the program make. An option is written by its name
after two hyphens or by its letter after one; its value follows an equals sign, the
letter, or as the next argument. The first argument that asks for help decides, unless
something before it is malformed.
-/

namespace StagePlanner.Request

/-- An argument that starts with hyphens. -/
inductive Mark where
  /-- An option with the value that is written together with it. -/
  | flag (flag : Flag) (value : Option String)
  | help
  | unknown

/-- Whether an argument looks like an option. -/
def looksLikeFlag (argument : String) : Bool :=
  match argument.toList with
  | '-' :: _ :: _ => true
  | _ => false

/-- A value after an equals sign, if there is one. -/
def assigned? : List Char → Option String
  | '=' :: value => some (String.ofList value)
  | _ => none

/-- Reads what follows two hyphens. -/
def named (flags : List Flag) (characters : List Char) : Mark :=
  let name := String.ofList (characters.takeWhile (· ≠ '='))
  let value := assigned? (characters.dropWhile (· ≠ '='))
  match flags.find? fun flag => flag.symbol == name with
  | some flag => .flag flag value
  | none => if name == "help" && value.isNone then .help else .unknown

/-- Reads what follows one hyphen. -/
def lettered (flags : List Flag) : List Char → Mark
  | [] => .unknown
  | letter :: rest =>
    match flags.find? fun flag => flag.letter? == some letter with
    | some flag =>
      let value := if rest.isEmpty then none else some ((assigned? rest).getD (String.ofList rest))
      .flag flag value
    | none => if letter = 'h' then .help else .unknown

/-- Reads an argument that looks like an option. -/
def mark (flags : List Flag) (argument : String) : Mark :=
  match argument.toList with
  | '-' :: '-' :: rest => named flags rest
  | '-' :: rest => lettered flags rest
  | _ => .unknown

/-- The request of a command with the options read so far. -/
def ofSettled (verb : Verb) (settled : Settled) : Request :=
  (settled.command? verb).elim .refuse .execute

/-- Reads the arguments of a command. -/
def arguments (verb : Verb) (settled : Settled) : List String → Request
  | [] => ofSettled verb settled
  | ["--"] => ofSettled verb settled
  | argument :: rest =>
    match mark verb.flags argument with
    | .unknown => .refuse
    | .help => .help verb
    | .flag flag (some value) =>
      match settled.add? flag value with
      | some settled => arguments verb settled rest
      | none => .refuse
    | .flag flag none =>
      match rest with
      | [] => .refuse
      | value :: rest =>
        if looksLikeFlag value && !flag.acceptsAny then .refuse
        else match settled.add? flag value with
          | some settled => arguments verb settled rest
          | none => .refuse

/-- The request that the arguments of the program make. -/
def ofArguments : List String → Request
  | ["help"] => .help none
  | ["help", "help"] => .helpOnHelp
  | ["help", name] =>
    match Verb.ofSymbol? name with
    | some verb => .help verb
    | none => .refuse
  | name :: rest =>
    match Verb.ofSymbol? name with
    | some verb => arguments verb {} rest
    | none =>
      match mark [] name with
      | .help => .help none
      | _ => .refuse
  | [] => .refuse

end StagePlanner.Request
