import StagePlanner.Plan
import StagePlanner.Total

/-!
# Grouping of stages

Stages that read the same sources, broadcasts excepted, may become one stage.
Groups of them are split until no member depends on another member, directly or
not, and until the groups could be merged all at once without a circuit.
-/

namespace StagePlanner

/-- Stages that may become one. -/
structure StageGroup where
  /-- The origins that every member reads, broadcasts excepted. -/
  sources : OrderedSet OperatorId
  elements : List StageId
  deriving DecidableEq, Repr

/-- The origins that a stage reads, broadcasts excepted. -/
def Stage.drivingOrigins (stage : Stage) : OrderedSet OperatorId :=
  OrderedSet.unions
    ((stage.inputs.filter fun port => stage.marker? port ≠ some .broadcast).map StagePort.origins)

/-- The group of one stage. -/
def Stage.group (stage : Stage) : Except Fault StageGroup :=
  let sources := stage.drivingOrigins
  if sources.isEmpty then .error (.invariant (.nothingToGroupBy stage.id))
  else .ok { sources, elements := [stage.id] }

/-- The stages that a list of stages depends on, directly or not. -/
def blockers (dependencies : DependencyGraph StageId) (elements : List StageId) : List StageId :=
  Reach.reachable dependencies.dependencies dependencies.vertices.toList elements

namespace StageGroup

/-- Adds the members of a group to the first one with the same sources, or else adds the group. -/
def addTo (group : StageGroup) : List StageGroup → List StageGroup
  | [] => [group]
  | first :: rest =>
    if first.sources = group.sources then
      { first with elements := first.elements ++ group.elements } :: rest
    else first :: group.addTo rest

/-- Merges groups with equal sources; the first of them gives the position. -/
def combine (groups : List StageGroup) : List StageGroup :=
  groups.foldl (fun combined group => group.addTo combined) []

/-- Splits a group into the members that no member depends on and, if there are any, the others. -/
def split (dependencies : DependencyGraph StageId)
    (group : StageGroup) : StageGroup × Option StageGroup :=
  if group.elements.length ≤ 1 then (group, none)
  else
    let blockers := blockers dependencies group.elements
    match group.elements.filter fun element => element ∈ blockers with
    | [] => (group, none)
    | purged =>
      ({ group with elements := group.elements.filter fun element => element ∉ blockers },
        some { group with elements := purged })

/-- Splits every group once; what is split off goes to the end. -/
def splitRound (dependencies : DependencyGraph StageId)
    (groups : List StageGroup) : List StageGroup × List StageGroup :=
  let parts := groups.map (split dependencies)
  (parts.map Prod.fst, parts.filterMap Prod.snd)

/-- Splits groups for a number of rounds, or until nothing is split off. -/
def splitRounds (dependencies : DependencyGraph StageId) : Nat → List StageGroup → List StageGroup
  | 0, groups => groups
  | rounds + 1, groups =>
    match splitRound dependencies groups with
    | (_, []) => groups
    | (kept, purged) => splitRounds dependencies rounds (kept ++ purged)

/-- The number of members of all groups. -/
def population (groups : List StageGroup) : Nat :=
  total (groups.map fun group => group.elements.length)

end StageGroup

/-- Splits groups until nothing is split off. Groups of stages that depend on each other in a circle can
be split without end, and then this gives no result. -/
def DependencyGraph.splitAll (dependencies : DependencyGraph StageId)
    (groups : List StageGroup) : List StageGroup :=
  match StageGroup.splitRound dependencies groups with
  | (_, []) => groups
  | (kept, purged) => dependencies |>.splitAll (kept ++ purged)
partial_fixpoint

namespace StageGroup

export DependencyGraph (splitAll)

/-- The dependencies between groups, by position, as if every group were one stage. -/
def contracted (dependencies : DependencyGraph StageId)
    (groups : List StageGroup) : DependencyGraph Nat :=
  let owner (element : StageId) : Option Nat :=
    groups.findIdx? fun group => element ∈ group.elements
  DependencyGraph.ofLists (List.range groups.length)
    (groups.zipIdx.flatMap fun (group, position) =>
      (group.elements.flatMap dependencies.dependencies).filterMap fun dependency =>
        match owner dependency with
        | some other => if other = position then none else some ⟨position, other⟩
        | none => none)

/-- The parts of a group on a circuit: the members that do not depend on another stage of the
circuit and those that do; all members apart if this separates nothing. -/
def circuitParts (dependencies : DependencyGraph StageId) (circuit : List StageId)
    (group : StageGroup) : List (List StageId) :=
  let depends (element : StageId) : Bool :=
    (blockers dependencies [element]).any fun other => other ≠ element && other ∈ circuit
  let moved := group.elements.filter depends
  let kept := group.elements.filter fun element => !depends element
  if moved.isEmpty || kept.isEmpty then group.elements.map fun element => [element]
  else [kept, moved]

/-- Splits the group at a position; the first part stays there and the others go to the end. -/
def splitAt (dependencies : DependencyGraph StageId) (circuit : List StageId)
    (groups : List StageGroup) (position : Nat) : List StageGroup :=
  match groups[position]? with
  | none => groups
  | some group =>
    match circuitParts dependencies circuit group with
    | [] => groups
    | first :: others =>
      groups.set position { group with elements := first } ++
        others.map fun elements => { group with elements }

/-- The group to be split next, with the members of the circuit on which it lies. -/
def onCircuit? (dependencies : DependencyGraph StageId)
    (groups : List StageGroup) : Option (Nat × List StageId) :=
  match (contracted dependencies groups).circuits with
  | [] => none
  | circuit :: _ =>
    let elementsAt (position : Nat) : List StageId := (groups[position]?.map elements).getD []
    (circuit.toList.find? fun position => (elementsAt position).length > 1).map fun position =>
      (position, circuit.toList.flatMap elementsAt)

/-- Splits groups on circuits for a number of rounds, or until there is none to split. -/
def breakRounds (dependencies : DependencyGraph StageId) : Nat → List StageGroup → List StageGroup
  | 0, groups => groups
  | rounds + 1, groups =>
    match onCircuit? dependencies groups with
    | none => groups
    | some (position, circuit) =>
      breakRounds dependencies rounds (splitAt dependencies circuit groups position)

/-- Splits groups until merging all of them leaves no circuit that they cause. -/
def breakCircuits (dependencies : DependencyGraph StageId)
    (groups : List StageGroup) : List StageGroup :=
  breakRounds dependencies (population groups) groups

end StageGroup

namespace Plan

/-- The groups of stages that may be merged. -/
def groups (plan : Plan) : Except Fault (List StageGroup) := do
  let groups ← plan.stages.mapM Stage.group
  let dependencies := plan.dependencies
  return StageGroup.breakCircuits dependencies
    (StageGroup.splitAll dependencies (StageGroup.combine groups))

end Plan

end StagePlanner
