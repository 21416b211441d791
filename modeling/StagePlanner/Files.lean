/-!
# Files

The files that a command can reach, and what goes wrong with them. A path is walked
name by name, from the root or from the working directory, and it only leads through
directories. A text is written under the last name of a path, whether something is
there or not, unless that name stands for a directory.
-/

namespace StagePlanner

/-- Why a file cannot be read or written. -/
inductive FileFault where
  | missing
  | notDirectory
  | isDirectory
  | noSpace
  | nameTooLong
  | other (text : String)
  deriving DecidableEq, Repr

/-- The text of a fault of a file. -/
def FileFault.text : FileFault → String
  | .missing => "No such file or directory (os error 2)"
  | .notDirectory => "Not a directory (os error 20)"
  | .isDirectory => "Is a directory (os error 21)"
  | .noSpace => "No space left on device (os error 28)"
  | .nameTooLong => "File name too long (os error 36)"
  | .other text => text

/-- What a name stands for. -/
inductive FileEntry where
  | directory
  | text (content : String)
  /-- A device that is empty and takes everything. -/
  | sink
  /-- A device that is empty and has no room. -/
  | full
  deriving DecidableEq, Repr

/-- A place among files: the names that lead to it from the root. -/
abbrev Place := List String

/-- All that paths can lead to. -/
structure Files where
  entries : List (Place × FileEntry)
  /-- Where paths start that do not start at the root. -/
  working : Place := []

namespace Files

/-- The most bytes of a name. -/
def nameLimit : Nat := 255

/-- The most bytes of a path. -/
def pathLimit : Nat := 4095

/-- The names that a path consists of. -/
def names (path : String) : List String := (path.splitOn "/").filter (!·.isEmpty)

/-- Whether a path ends behind its last name, which then has to be a directory. -/
def endsOpen (path : String) : Bool := path.toList.getLast? == some '/'

/-- What stands at a place. -/
def entry? (files : Files) (place : Place) : Option FileEntry := files.entries.lookup place

/-- Where a path starts. -/
def start (files : Files) (path : String) : Place :=
  if path.toList.head? == some '/' then [] else files.working

/-- A place, if it is a directory. -/
def directory (files : Files) (place : Place) : Except FileFault Place :=
  if files.entry? place = some .directory then .ok place else .error .notDirectory

/-- The place of a new or old name in a directory. -/
def placeOf (place : Place) (name : String) : Except FileFault Place :=
  if nameLimit < name.utf8ByteSize then .error .nameTooLong else .ok (place ++ [name])

/-- The place to which a name leads from a place; a single dot stays there, and two dots lead to the
directory around it. -/
def enter (files : Files) (place : Place) (name : String) : Except FileFault Place := do
  let place ← files.directory place
  if name = "." then return place
  else if name = ".." then return place.dropLast
  else
    let place ← placeOf place name
    if (files.entry? place).isSome then return place else throw .missing

/-- Checks that a path is not too long. -/
def checkLength (path : String) : Except FileFault Unit :=
  if pathLimit < path.utf8ByteSize then .error .nameTooLong else .ok ()

/-- The text to which a path leads. -/
def read (files : Files) (path : String) : Except FileFault String := do
  checkLength path
  let place ← (names path).foldlM files.enter (files.start path)
  match files.entry? place with
  | none => throw .missing
  | some .directory => throw .isDirectory
  | some entry =>
    if endsOpen path then throw .notDirectory
    else match entry with
      | .text content => return content
      | _ => return ""

/-- The place where a path says that a text is to be written. -/
def target (files : Files) (path : String) : Except FileFault Place := do
  checkLength path
  match (names path).getLast? with
  | none => throw .isDirectory
  | some name =>
    let place ← (names path).dropLast.foldlM files.enter (files.start path)
    let place ← files.directory place
    if name = "." || name = ".." || endsOpen path then throw .isDirectory
    placeOf place name

/-- The files after a text was written to where a path leads. -/
def write (files : Files) (path content : String) : Except FileFault Files := do
  let place ← files.target path
  match files.entry? place with
  | some .directory => throw .isDirectory
  | some .full => if content.isEmpty then return files else throw .noSpace
  | some .sink => return files
  | some (.text _) | none =>
    let others := files.entries.filter fun entry => entry.1 ≠ place
    return { files with entries := (place, .text content) :: others }

end Files

end StagePlanner
