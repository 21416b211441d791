import StagePlanner.Plan
import StagePlanner.Text.Character

/-!
# Parameters of plans

A text refers to a parameter by writing its name between a dollar sign with an opening brace and the
next closing brace. The parameters of a plan are those to which the text arguments and the paths of its
operators refer.
-/

namespace StagePlanner

namespace Text

/-- What follows the first opening of a reference. -/
def afterOpening? : List Char → Option (List Char)
  | [] => none
  | '$' :: '\x7b' :: rest => some rest
  | _ :: rest => afterOpening? rest

/-- Whether a character does not close a reference. -/
def isInside (character : Char) : Bool := character ≠ '\x7d'

/-- The text between every opening and the next closing, for a number of references at most. -/
def bodies : Nat → List Char → List (List Char)
  | 0, _ => []
  | more + 1, characters =>
    match afterOpening? characters with
    | none => []
    | some rest =>
      match rest.dropWhile isInside with
      | [] => []
      | _ :: after => rest.takeWhile isInside :: bodies more after

/-- The names to which a text refers, without blanks around them; a blank name is none. -/
def references (text : String) : List String :=
  let names := (bodies text.length text.toList).map trimEnds
  (names.filter fun name => !name.isEmpty).map String.ofList

/-- Some names with those to which a text refers. -/
def collectReferences (names : OrderedSet String) (text : String) : OrderedSet String :=
  names.insertAll (references text)

end Text

/-- The texts of an operator that may refer to parameters. -/
def Operator.referringTexts (operator : Operator) : List String :=
  let arguments := operator.arguments.filterMap fun argument =>
    match argument.value with
    | .text value => some value
    | _ => none
  arguments ++ operator.kind.path?.toList

/-- The names of all parameters to which a plan refers. -/
def Plan.parameters (plan : Plan) : OrderedSet String :=
  OrderedSet.ofList (plan.stages.flatMap fun stage =>
    stage.graph.operators.flatMap fun operator => operator.referringTexts.flatMap Text.references)

/-- The parameters are collected text by text. -/
theorem Plan.parameters_eq_foldl (plan : Plan) :
    plan.parameters = (plan.stages.flatMap fun stage =>
      stage.graph.operators.flatMap Operator.referringTexts).foldl Text.collectReferences ∅ := by
  simp only [parameters, OrderedSet.ofList, OrderedSet.insertAll, List.foldl_flatMap]
  rfl

end StagePlanner
