import StagePlanner.Proofs.Preparation.Totality

/-!
# Units agree after one pass

Fixing units puts other operators in the places of those whose units are not what their classes
require. The graph that is left is isomorphic to the one before (`Graph.Isomorphic`), and no
operator is classified differently for its new units: where the master data of a join were small enough
for a broadcast, they are declared whole now, and nothing else moves an input between the primary and
the secondary ones. So the units agree with the new classes, and a second pass finds nothing.

* `Edit.agrees_fixAllUnits`: the units agree with the classes of the graph that is left.
* `Edit.fixAllUnits_refits`: what fixing units does to a graph without circuits.
-/

namespace StagePlanner

/-! ### Units and classes -/

/-- A class consumes an input in a unit: the input is whole if it is secondary, and otherwise the unit
is that of the primary inputs. -/
structure OperatorClass.Consumes (operatorClass : OperatorClass) (input : PortId)
    (unit : Option InputUnit) : Prop where
  secondary : input ∈ operatorClass.secondary → unit = some .whole
  primary : input ∉ operatorClass.secondary →
    operatorClass.primaryUse = .record ∧ unit = some .record ∨
      operatorClass.primaryUse = .group ∧ unit = some .group

namespace OperatorClass

variable {operatorClass : OperatorClass} {operator : Operator} {definition : UserOperator}
  {shuffled : Prop}

theorem Consumes.ne_none {input : PortId} {unit : Option InputUnit}
    (consumes : operatorClass.Consumes input unit) : unit ≠ none := by
  by_cases listed : input ∈ operatorClass.secondary
  · simp [consumes.secondary listed]
  · rcases consumes.primary listed with ⟨-, rfl⟩ | ⟨-, rfl⟩ <;> simp

/-- The unit in which an input is consumed is the one that is required. -/
theorem Consumes.requiredUnit_eq {input : PortId} {unit : Option InputUnit}
    (consumes : operatorClass.Consumes input unit) : operatorClass.requiredUnit input unit = unit := by
  rw [requiredUnit]
  split
  · next listed => exact (consumes.secondary listed).symm
  · next notListed =>
    rcases consumes.primary notListed with ⟨use, rfl⟩ | ⟨use, rfl⟩ <;> rw [use]

/-- An input gets a unit in which its operator's class consumes it. -/
theorem Describes.consumes_requiredUnit
    (describes : operatorClass.Describes operator definition shuffled) {input : Port}
    (member : input ∈ operator.inputs) :
    operatorClass.Consumes input.id (operatorClass.requiredUnit input.id input.unit) where
  secondary listed := if_pos listed
  primary notListed := by
    rw [requiredUnit, if_neg notListed]
    cases use : operatorClass.primaryUse with
    | record => exact .inl ⟨rfl, rfl⟩
    | group => exact .inr ⟨rfl, rfl⟩
    | nothing =>
      rw [describes.nothing.1 use] at member
      cases member

/-- A class consumes an input in the unit that it declares, if the inputs of a shuffled operator are
grouped or whole, those of other operators are not grouped, and master data that are broadcast are
whole. -/
theorem Describes.consumes (describes : operatorClass.Describes operator definition shuffled)
    (distinct : (operator.inputs.map Port.id).Nodup)
    (aligned : ∀ input ∈ operator.inputs, input.unit = some .group → shuffled)
    (gathered : shuffled →
      ∀ input ∈ operator.inputs, input.unit = some .group ∨ input.unit = some .whole)
    (broadcast : ¬ shuffled → definition.kind.isMasterJoin = true →
      ∀ input, operator.inputs.head? = some input → input.unit = some .whole)
    {input : Port} (member : input ∈ operator.inputs) (declared : input.unit ≠ none) :
    operatorClass.Consumes input.id input.unit where
  secondary listed := by
    rcases describes.other input.id listed with ⟨other, isOther, same, isWhole⟩ |
      ⟨notShuffled, isJoin, other, first, same⟩
    · rwa [← List.inj_on_of_nodup_map distinct isOther member same]
    · rw [← List.inj_on_of_nodup_map distinct (List.mem_of_head? first) member same]
      exact broadcast notShuffled isJoin other first
  primary notListed := by
    have notWhole : input.unit ≠ some .whole := fun isWhole =>
      notListed (describes.whole input member isWhole)
    by_cases isShuffled : shuffled
    · exact .inr ⟨describes.group.2 ⟨isShuffled, List.ne_nil_of_mem member⟩,
        (gathered isShuffled input member).resolve_right notWhole⟩
    · have notGroup : input.unit ≠ some .group := fun isGroup => isShuffled (aligned input member isGroup)
      refine .inl ⟨?_, ?_⟩
      · cases use : operatorClass.primaryUse with
        | record => rfl
        | group => exact absurd (describes.group.1 use).1 isShuffled
        | nothing => exact absurd (describes.nothing.1 use) (List.ne_nil_of_mem member)
      · cases unit : input.unit with
        | none => exact absurd unit declared
        | some other =>
          cases other with
          | record => rfl
          | group => exact absurd unit notGroup
          | whole => exact absurd unit notWhole

end OperatorClass

section

variable {ν : Type} [Volume ν] (limit : Option ν) (estimator : Estimator)

/-- The class that an operator has in a graph consumes its inputs in these units. -/
def Operator.ConsumedIn (graph : Graph) (operator : Operator) (units : List (Option InputUnit)) : Prop :=
  ∃ operatorClass, classOf? limit graph (estimator.estimate graph) operator = some operatorClass ∧
    List.Forall₂ (fun input unit => operatorClass.Consumes input.id unit) operator.inputs units

/-- Operators of users declare the units in which their inputs are consumed. -/
def Graph.Agrees (graph : Graph) : Prop :=
  ∀ operator ∈ graph.operators, operator.kind.user?.isSome = true →
    operator.ConsumedIn limit estimator graph (operator.inputs.map fun port => port.unit)

/-- Another graph is isomorphic and differs in the units of inputs only. Operators stay, unless they
are operators of users and get other units; units are those in which inputs were consumed. -/
structure Graph.Refits (graph result : Graph) (becomes : Operator → Operator)
    (rename : PortId → PortId) : Prop extends Graph.Isomorphic graph result becomes rename where
  same : ∀ operator ∈ graph.operators, operator.SameButUnits (becomes operator)
  stays : ∀ operator ∈ graph.operators, operator.kind.user? = none ∨
    (becomes operator).inputs.map (fun port => port.unit) =
      operator.inputs.map (fun port => port.unit) → Graph.Untouched becomes rename operator
  consumed : ∀ operator ∈ graph.operators, operator.kind.user?.isSome = true →
    operator.ConsumedIn limit estimator graph ((becomes operator).inputs.map fun port => port.unit)

end

/-! ### Fixing units once and again -/

namespace Edit

variable {graph result : Graph} {ν : Type} [Volume ν] {limit : Option ν} {estimator : Estimator}

/-- Where units agree with classes no operator is rebuilt. -/
theorem yields_fixAllUnits_of_agrees (wellFormed : graph.WellFormed)
    (agrees : graph.Agrees limit estimator) :
    (fixAllUnits estimator limit).Yields graph 0 graph := by
  refine yields_bind.2 ⟨graph, graph, yields_get.2 ⟨rfl, rfl⟩, yields_countChanges_idle ?_⟩
  intro operatorClass listed
  obtain ⟨operator, member, isUser, isClass⟩ := (mem_fixedClasses wellFormed).1 listed
  obtain ⟨found, isFound, consumed⟩ := agrees operator member isUser
  obtain rfl := Option.some.inj (isFound.symm.trans isClass)
  have asRequired : found.requiredUnits operator = operator.inputs.map fun port => port.unit := by
    rw [List.forall₂_map_right_iff, List.forall₂_same] at consumed
    exact List.map_congr_left fun input isInput => (consumed input isInput).requiredUnit_eq
  have looked : graph.operator found.operator = .ok operator :=
    operator_of_classOf? isClass ▸ wellFormed.operator_eq_ok member
  refine yields_bind.2 ⟨operator, graph, yields_look.2 ⟨looked, rfl⟩, ?_⟩
  rw [if_pos asRequired]
  exact yields_pure.2 ⟨rfl, rfl⟩

section

variable (wellFormed : graph.WellFormed) (acyclic : graph.Acyclic)
  (sums : limit = none ∨ Volume.Exact ν)

include wellFormed acyclic sums

/-- After all units are fixed they agree with the classes that the operators have then. -/
theorem agrees_fixAllUnits {count : Nat}
    (yields : (fixAllUnits estimator limit).Yields graph count result) :
    result.Agrees limit estimator := by
  obtain ⟨becomes, rename, fixes⟩ := fixes_fixAllUnits wellFormed yields
  have renamed := fixes.renamed
  intro operator isThere isUser
  obtain ⟨definition, kind⟩ := OperatorKind.exists_definition isUser
  obtain ⟨old, member, rfl⟩ := (renamed.operators operator).1 isThere
  obtain ⟨before, isBefore, required⟩ :=
    fixes.exists_class wellFormed member ((renamed.alike old member).user isUser ▸ isUser)
  have describesBefore := describes_fixed renamed member isBefore kind
  obtain ⟨after, isAfter, describes⟩ :=
    exists_classOf? limit result (estimator.estimate result) kind
  have aligned :=
    aligned_fixed sums renamed wellFormed acyclic member isBefore required definition kind
  obtain ⟨gathered, broadcast⟩ :=
    settled_fixed sums renamed wellFormed acyclic member isBefore required definition kind
  refine ⟨after, isAfter, ?_⟩
  rw [List.forall₂_map_right_iff, List.forall₂_same]
  intro input isInput
  refine describes.consumes (renamed.wellFormed.portsOn_nodup isThere .input) aligned gathered
    broadcast isInput ?_
  have listed : input.unit ∈ before.requiredUnits old := required ▸ List.mem_map_of_mem isInput
  obtain ⟨port, isPort, isUnit⟩ := List.mem_map.1 listed
  exact isUnit ▸ (describesBefore.consumes_requiredUnit isPort).ne_none

/-- In a graph without circuits units can be fixed. The graph that is left is isomorphic and differs in
units of inputs only; operators that are not of users or have their units already stay as they are.
Every operator of a user declares the units in which its inputs were consumed, which are those in
which they are consumed then, and nothing is left to fix. -/
theorem fixAllUnits_refits : ∃ count result becomes rename,
    (fixAllUnits estimator limit).apply graph = (.ok count, result) ∧
      graph.Refits limit estimator result becomes rename ∧ result.Agrees limit estimator ∧
        (fixAllUnits estimator limit).apply result = (.ok 0, result) := by
  obtain ⟨count, result, yields⟩ := succeeds_fixAllUnits estimator limit wellFormed
  obtain ⟨becomes, rename, fixes⟩ := fixes_fixAllUnits wellFormed yields
  have renamed := fixes.renamed
  have agrees := agrees_fixAllUnits wellFormed acyclic sums yields
  refine ⟨count, result, becomes, rename, yields, ⟨renamed.isomorphic wellFormed, fixes.same,
    fun operator member => ?_, fun operator member isUser => ?_⟩, agrees,
    yields_fixAllUnits_of_agrees renamed.wellFormed agrees⟩
  · rintro (notUser | sameUnits)
    · exact fixes.untouched wellFormed member notUser
    · exact fixes.idle operator member sameUnits
  · obtain ⟨operatorClass, isClass, required⟩ := fixes.exists_class wellFormed member isUser
    obtain ⟨definition, kind⟩ := OperatorKind.exists_definition isUser
    have describes := describes_fixed renamed member isClass
      ((fixes.same operator member).kind.trans kind)
    rw [required]
    refine ⟨operatorClass, isClass, ?_⟩
    rw [OperatorClass.requiredUnits, List.forall₂_map_right_iff, List.forall₂_same]
    exact fun input isInput => describes.consumes_requiredUnit isInput

end

/-- A small table is the master of a join with a large one; groups of what is joined are written. -/
def unitSample : Graph :=
  let rows : DataType := .named "row"
  let row : PortShape := { name := "rows", dataType := rows }
  let blueprints : List Blueprint :=
    [.marker .begin Blueprint.activationType, (Blueprint.externalInput "master" rows).withDeclaredSize 10,
      (Blueprint.externalInput "log" rows).withDeclaredSize 1000,
      (((Blueprint.user "join" .masterJoin).withInput row).withInput row).withOutput row,
      ((Blueprint.user "group" .coGroup).withInput row).withOutput row,
      .externalOutput "result" rows, .marker .finish Blueprint.activationType]
  let edges : List (Nat × Nat) := [(1, 2), (1, 4), (3, 6), (5, 7), (8, 9), (10, 11), (12, 13)]
  let operators := blueprints.foldl (fun graph blueprint => (graph.add blueprint).2) Graph.empty
  edges.foldl (fun graph (source, target) => graph.link ⟨source⟩ ⟨target⟩) operators

theorem wellFormed_unitSample : unitSample.WellFormed where
  ascending := by decide +kernel
  operatorsBelow := by decide +kernel
  ports := by decide +kernel
  portsBelow := by decide +kernel
  sources := by
    change ∀ edge ∈ unitSample.edges.toList, _
    decide +kernel
  targets := by
    change ∀ edge ∈ unitSample.edges.toList, _
    decide +kernel

/-- The join is rebuilt with a broadcast of the small table, and so is the operator behind it, which
gets groups. -/
theorem fixAllUnits_refits_unitSample : unitSample.WellFormed ∧ unitSample.Acyclic ∧
    ∃ result becomes rename,
      (fixAllUnits (.flowing []) (some (100 : Nat))).apply unitSample = (.ok 2, result) ∧
        unitSample.Refits (some (100 : Nat)) (.flowing []) result becomes rename ∧
          result.edges.toList = [⟨⟨1⟩, ⟨2⟩⟩, ⟨⟨1⟩, ⟨4⟩⟩, ⟨⟨3⟩, ⟨15⟩⟩, ⟨⟨5⟩, ⟨16⟩⟩, ⟨⟨12⟩, ⟨13⟩⟩,
            ⟨⟨17⟩, ⟨18⟩⟩, ⟨⟨19⟩, ⟨11⟩⟩] := by
  have acyclic : unitSample.Acyclic :=
    (Graph.circuitless_dependencies_iff wellFormed_unitSample).1
      ((DependencyGraph.circuits_eq_nil_iff Graph.dependencies_wellFormed).1 (by decide +kernel))
  obtain ⟨count, result, becomes, rename, applies, refits, -⟩ := fixAllUnits_refits
    wellFormed_unitSample acyclic (.inr Volume.exact_nat : some (100 : Nat) = none ∨ _)
  have counts : ((fixAllUnits (.flowing []) (some (100 : Nat))).apply unitSample).1.toOption =
      some 2 := by
    rw [fixAllUnits_eq]
    decide +kernel
  have edges : ((fixAllUnits (.flowing []) (some (100 : Nat))).apply unitSample).2.edges.toList =
      [⟨⟨1⟩, ⟨2⟩⟩, ⟨⟨1⟩, ⟨4⟩⟩, ⟨⟨3⟩, ⟨15⟩⟩, ⟨⟨5⟩, ⟨16⟩⟩, ⟨⟨12⟩, ⟨13⟩⟩, ⟨⟨17⟩, ⟨18⟩⟩, ⟨⟨19⟩, ⟨11⟩⟩] := by
    rw [fixAllUnits_eq]
    decide +kernel
  rw [applies] at counts edges
  obtain rfl : count = 2 := Option.some.inj counts
  exact ⟨wellFormed_unitSample, acyclic, result, becomes, rename, applies, refits, edges⟩

end Edit

end StagePlanner
