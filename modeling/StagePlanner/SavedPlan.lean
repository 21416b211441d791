import StagePlanner.Description
import StagePlanner.Manifest

/-!
# Saved plans

The document that a planning run leaves: the description of the plan, what was found
out about the plan as a whole, and the manifest. It is written as JSON, or as a text
for readers.
-/

namespace StagePlanner

/-- The result of a planning run. -/
structure SavedPlan where
  manifest : Manifest
  description : PlanDescription Float
  notes : PlanNotes

namespace SavedPlan

/-- A plan that is saved under an identifier at a time, with the text that it was made from. -/
def ofPlan (plan : AnnotatedPlan Float) (source : String) (id : Option String)
    (createdAt : Nat) : SavedPlan where
  manifest := {
    id, createdAt
    planDigest := plan.describe.digest
    sourceDigest := some (.ofText source)
    stages := plan.plan.stages.length }
  description := plan.describe
  notes := plan.notes.plan

/-- The names of the parameters, ascending. -/
def parameters (saved : SavedPlan) : List String := saved.notes.parameters.elim [] OrderedSet.toList

/-- A saved plan as JSON; what was not found out is left out. -/
def json (saved : SavedPlan) : Json :=
  let parameters := if saved.parameters.isEmpty then none else some saved.parameters
  .object ([("manifest", saved.manifest.json), ("plan", saved.description.json .float)] ++
    Json.memberOf "parameters" Json.texts parameters ++
    Json.memberOf "iterative" Iteration.json saved.notes.iteration ++
    Json.memberOf "statistics" PlanStatistics.json saved.notes.planStatistics ++
    Json.memberOf "graph_statistics" GraphStatistics.json saved.notes.graphStatistics)

/-- A port in the text for readers; an arrow tells inputs from outputs. -/
def portLine (arrow : String) (port : PortDescription Float) : String :=
  "  " ++ port.name ++ arrow ++ port.exchange.title ++ " " ++
    String.intercalate ", " port.opposites ++ " (" ++ port.dataType ++ ")"

/-- A vertex in the text for readers. -/
def vertexLines (vertex : VertexDescription Float) : List String :=
  (vertex.name ++ " [" ++ vertex.label ++ "]") ::
    vertex.inputs.map (portLine " <- ") ++ vertex.outputs.map (portLine " -> ") ++
    vertex.operators.map ("    " ++ ·)

/-- A saved plan as a text for readers, with the number of operators that were planned. -/
def explanation (saved : SavedPlan) (operators : Nat) : String :=
  let parameters := if saved.parameters.isEmpty then []
    else ["Parameters: " ++ String.intercalate ", " saved.parameters]
  let lines := ["Execution Plan", "==============", "",
      "Operators: " ++ toString operators,
      "Stages: " ++ toString saved.description.vertices.length,
      "Plan hash: " ++ saved.manifest.planDigest.short] ++
    parameters ++ [""] ++ saved.description.vertices.flatMap vertexLines
  String.join (lines.map (· ++ "\n"))

end SavedPlan

end StagePlanner
