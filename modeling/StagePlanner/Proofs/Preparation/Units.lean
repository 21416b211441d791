import Mathlib.Data.List.Sort
import StagePlanner.Preparation.Units
import StagePlanner.Proofs.Estimate.Invariance
import StagePlanner.Proofs.Preparation.Closure

/-!
# Units agree with classes

After units are fixed, an operator of a user has a grouped input only if it is classified as one
that needs a shuffle (`Operator.Aligned`). This stays true when checkpoints become markers, since
neither kind of replacement changes what is estimated.
-/

namespace StagePlanner

/-- Sorting keeps the order of items that precede each other, as inserting one item after the other
does. -/
theorem mergeSort_eq_insertionSort {α : Type} {precedes : α → α → Bool}
    (trans : ∀ first second third, precedes first second → precedes second third → precedes first third)
    (total : ∀ first second, precedes first second || precedes second first) (items : List α) :
    items.mergeSort precedes = items.insertionSort fun left right => precedes left right = true := by
  induction items with
  | nil => exact List.mergeSort_nil
  | cons item items ih =>
    obtain ⟨before, behind, sorted, rest, smaller⟩ := List.mergeSort_cons trans total item items
    have inOrder := List.pairwise_mergeSort trans total (item :: items)
    rw [sorted] at inOrder ⊢
    rw [List.insertionSort_cons, ← ih, rest]
    clear ih sorted rest
    induction before with
    | nil =>
      cases behind with
      | nil => rfl
      | cons next behind =>
        have precede := List.rel_of_pairwise_cons inOrder List.mem_cons_self
        exact (List.orderedInsert_cons_of_le (precedes · · = true) _ precede).symm
    | cons first before ih =>
      have greater := smaller first List.mem_cons_self
      rw [List.cons_append, List.cons_append, List.orderedInsert_of_not_le _ _ (by simpa using greater),
        ih (fun other member => smaller other (List.mem_cons_of_mem _ member)) (List.Pairwise.of_cons inOrder)]

namespace Graph

variable {graph result : Graph} {becomes : Operator → Operator} {rename : PortId → PortId}

/-- A renamed graph is closed if the graph is. -/
theorem Closed.renamed (closed : graph.Closed) (renamed : graph.Renamed result becomes rename) :
    result.Closed := by
  have wellFormed := closed.wellFormed
  have isBegin : ∀ {old : Operator}, old ∈ graph.operators →
      (becomes old).isMarkerOf .begin = old.isMarkerOf .begin :=
    fun member => (renamed.alike _ member).isMarkerOf nofun
  have isFinish : ∀ {old : Operator}, old ∈ graph.operators →
      (becomes old).isMarkerOf .finish = old.isMarkerOf .finish :=
    fun member => (renamed.alike _ member).isMarkerOf nofun
  refine ⟨⟨renamed.wellFormed, ?_, ?_, ?_, ?_⟩, ?_, ?_⟩ <;> intro operator isThere isMarker <;>
    obtain ⟨old, member, rfl⟩ := (renamed.operators operator).1 isThere
  · rw [isBegin member] at isMarker
    exact (renamed.length_portsOn .output member).trans (closed.oneOutput old member isMarker)
  · rw [isFinish member] at isMarker
    exact (renamed.length_portsOn .input member).trans (closed.oneInput old member isMarker)
  · rw [isBegin member] at isMarker
    exact renamed.unconnected wellFormed .input member (closed.unfed old member isMarker)
  · rw [isFinish member] at isMarker
    exact renamed.unconnected wellFormed .output member (closed.unread old member isMarker)
  · rw [isBegin member] at isMarker
    exact renamed.connected wellFormed .input member (closed.fed old member isMarker)
  · rw [isFinish member] at isMarker
    exact renamed.connected wellFormed .output member (closed.read old member isMarker)

end Graph

/-! ### Classes of operators of users -/

theorem OperatorKind.exists_definition {kind : OperatorKind} (isUser : kind.user?.isSome = true) :
    ∃ definition, kind = .user definition := by
  cases kind with
  | user definition => exact ⟨definition, rfl⟩
  | _ => cases isUser

section

variable {ν : Type} [Volume ν] (limit : Option ν) (graph : Graph) (estimates : Estimates ν)

/-- The records of an operator of a user have to be shuffled. -/
def Operator.IsShuffled (operator : Operator) (definition : UserOperator) : Prop :=
  if definition.kind.isMasterJoin then broadcastsMaster limit graph estimates operator = false
  else definition.kind.isGroupWise = true

/-- What a class says about an operator of a user. -/
structure OperatorClass.Describes (operatorClass : OperatorClass) (operator : Operator)
    (definition : UserOperator) (shuffled : Prop) : Prop where
  sameId : operatorClass.operator = operator.id
  partialReduction : operatorClass.partialReduction =
    (definition.partialAggregation && definition.kind.supportsPartialReduction)
  inputs : ∀ port ∈ operatorClass.secondary, port ∈ operator.inputs.map Port.id
  primary : ∀ port, port ∈ operatorClass.primary ↔
    port ∈ operator.inputs.map Port.id ∧ port ∉ operatorClass.secondary
  whole : ∀ input ∈ operator.inputs, input.unit = some .whole → input.id ∈ operatorClass.secondary
  /-- The master data of a join that is not shuffled are broadcast. -/
  master : ¬ shuffled → definition.kind.isMasterJoin = true →
    ∀ input, operator.inputs.head? = some input → input.id ∈ operatorClass.secondary
  /-- Other inputs are broadcast only if they are declared whole. -/
  other : ∀ port ∈ operatorClass.secondary,
    (∃ input ∈ operator.inputs, input.id = port ∧ input.unit = some .whole) ∨
      ¬ shuffled ∧ definition.kind.isMasterJoin = true ∧
        ∃ input, operator.inputs.head? = some input ∧ input.id = port
  group : operatorClass.primaryUse = .group ↔ shuffled ∧ operator.inputs ≠ []
  nothing : operatorClass.primaryUse = .nothing ↔ operator.inputs = []

omit [Volume ν] in
/-- Inputs of shuffled operators are broadcast only if they are declared whole. -/
theorem OperatorClass.Describes.declared {operatorClass : OperatorClass} {operator : Operator}
    {definition : UserOperator} {shuffled : Prop}
    (describes : operatorClass.Describes operator definition shuffled) (isShuffled : shuffled) :
    ∀ port ∈ operatorClass.secondary,
      ∃ input ∈ operator.inputs, input.id = port ∧ input.unit = some .whole := fun port listed =>
  (describes.other port listed).resolve_right fun notShuffled => notShuffled.1 isShuffled

omit [Volume ν] in
/-- A class describes an operator if its secondary ports are those that are declared whole, and for a
join that is not shuffled the port of the master data. -/
theorem describes_of {operator : Operator} {definition : UserOperator} {shuffled : Prop}
    {use : PrimaryUse} {secondary : List PortId}
    (listed : ∀ port, port ∈ secondary ↔
      (∃ input ∈ operator.inputs, input.id = port ∧ input.unit = some .whole) ∨
        ¬ shuffled ∧ definition.kind.isMasterJoin = true ∧
          ∃ input, operator.inputs.head? = some input ∧ input.id = port)
    (isUse : shuffled ∧ use = .group ∨ ¬ shuffled ∧ use = .record) :
    OperatorClass.Describes
      { operator := operator.id
        primaryUse := if operator.inputs.isEmpty then .nothing else use
        primary := (operator.inputs.map fun port => port.id).filter fun port => port ∉ secondary
        secondary
        partialReduction :=
          definition.partialAggregation && definition.kind.supportsPartialReduction }
      operator definition shuffled where
  sameId := rfl
  partialReduction := rfl
  inputs port isSecondary := by
    rcases (listed port).1 isSecondary with ⟨input, isInput, rfl, -⟩ | ⟨-, -, input, first, rfl⟩
    · exact List.mem_map_of_mem isInput
    · exact List.mem_map_of_mem (List.mem_of_head? first)
  primary port := by rw [List.mem_filter, decide_eq_true_eq]
  whole input isInput isWhole := (listed input.id).2 (.inl ⟨input, isInput, rfl, isWhole⟩)
  master notShuffled isJoin input first :=
    (listed input.id).2 (.inr ⟨notShuffled, isJoin, input, first, rfl⟩)
  other port := (listed port).1
  group := by
    cases operator.inputs with
    | nil => simp
    | cons first rest => rcases isUse with ⟨yes, rfl⟩ | ⟨no, rfl⟩ <;> simp [*]
  nothing := by
    cases operator.inputs with
    | nil => simp
    | cons first rest => rcases isUse with ⟨-, rfl⟩ | ⟨-, rfl⟩ <;> simp

theorem mem_declared {operator : Operator} {port : PortId} :
    port ∈ (operator.inputs.filter fun port => port.unit = some .whole).map (fun port => port.id) ↔
      ∃ input ∈ operator.inputs, input.id = port ∧ input.unit = some .whole := by
  simp only [List.mem_map, List.mem_filter, decide_eq_true_eq, and_assoc]
  exact exists_congr fun input => and_congr_right fun _ => and_comm

/-- The ports of the master data and the declared ones without them. -/
theorem mem_master_or_declared {operator : Operator} {declared : List PortId} {port : PortId} :
    port ∈ (operator.inputs.take 1).map (fun port => port.id) ++
        declared.filter (fun port => port ∉ (operator.inputs.take 1).map fun port => port.id) ↔
      port ∈ declared ∨ ∃ input, operator.inputs.head? = some input ∧ input.id = port := by
  have isMaster : port ∈ (operator.inputs.take 1).map (fun port => port.id) ↔
      ∃ input, operator.inputs.head? = some input ∧ input.id = port := by
    cases operator.inputs with
    | nil => simp
    | cons first rest => simp [eq_comm]
  rw [List.mem_append, List.mem_filter, decide_eq_true_eq, ← isMaster, or_and_left,
    and_iff_left (em _), or_comm]

theorem exists_classOf? {operator : Operator} {definition : UserOperator}
    (isUser : operator.kind = .user definition) :
    ∃ operatorClass, classOf? limit graph estimates operator = some operatorClass ∧
      operatorClass.Describes operator definition
        (operator.IsShuffled limit graph estimates definition) := by
  -- Only the master data of a join that is not shuffled are broadcast without being declared whole.
  have declared : (operator.IsShuffled limit graph estimates definition ∨
      definition.kind.isMasterJoin = false) → ∀ port,
        port ∈ ((operator.inputs.filter fun port => port.unit = some .whole).map fun port => port.id) ↔
          (∃ input ∈ operator.inputs, input.id = port ∧ input.unit = some .whole) ∨
            ¬ operator.IsShuffled limit graph estimates definition ∧
              definition.kind.isMasterJoin = true ∧
                ∃ input, operator.inputs.head? = some input ∧ input.id = port := by
    intro either port
    rw [mem_declared, or_iff_left]
    rintro ⟨notShuffled, isJoin, -⟩
    exact either.elim notShuffled fun notJoin => Bool.false_ne_true (notJoin.symm.trans isJoin)
  rw [classOf?, isUser]
  dsimp only
  split
  · next isJoin =>
    have shuffled : operator.IsShuffled limit graph estimates definition ↔
        broadcastsMaster limit graph estimates operator = false := by
      rw [Operator.IsShuffled, if_pos isJoin]
    split
    · next isBroadcast =>
      have notShuffled : ¬ operator.IsShuffled limit graph estimates definition := fun yes =>
        Bool.false_ne_true ((shuffled.1 yes).symm.trans isBroadcast)
      refine ⟨_, rfl, describes_of (fun port => ?_) (.inr ⟨notShuffled, rfl⟩)⟩
      rw [mem_master_or_declared, mem_declared]
      exact or_congr_right ⟨fun first => ⟨notShuffled, isJoin, first⟩, fun all => all.2.2⟩
    · next notBroadcast =>
      have isShuffled := shuffled.2 (Bool.eq_false_iff.2 notBroadcast)
      exact ⟨_, rfl, describes_of (declared (.inl isShuffled)) (.inl ⟨isShuffled, rfl⟩)⟩
  · next notJoin =>
    have shuffled : operator.IsShuffled limit graph estimates definition ↔
        definition.kind.isGroupWise = true := by
      rw [Operator.IsShuffled, if_neg notJoin]
    have listed := declared (.inr (Bool.eq_false_iff.2 notJoin))
    split
    · next isGroupWise =>
      exact ⟨_, rfl, describes_of listed (.inl ⟨shuffled.2 isGroupWise, rfl⟩)⟩
    · next notGroupWise =>
      exact ⟨_, rfl, describes_of listed (.inr ⟨fun yes => notGroupWise (shuffled.1 yes), rfl⟩)⟩

end

/-! ### Renamed operators -/

section

variable {ν : Type} [Volume ν] {limit : Option ν} {graph result : Graph}
  {becomes : Operator → Operator} {rename : PortId → PortId} {estimator : Estimator}

/-- Grouped inputs belong to operators whose records have to be shuffled. -/
def Operator.Aligned (limit : Option ν) (estimator : Estimator) (graph : Graph)
    (operator : Operator) : Prop :=
  ∀ definition, operator.kind = .user definition → ∀ input ∈ operator.inputs,
    input.unit = some .group →
      operator.IsShuffled limit graph (estimator.estimate graph) definition

/-- Inputs of an operator whose records have to be shuffled are grouped or whole, and the master data of
a join whose records need not be are whole. -/
def Operator.Settled (limit : Option ν) (estimator : Estimator) (graph : Graph)
    (operator : Operator) : Prop :=
  ∀ definition, operator.kind = .user definition →
    (operator.IsShuffled limit graph (estimator.estimate graph) definition →
      ∀ input ∈ operator.inputs, input.unit = some .group ∨ input.unit = some .whole) ∧
    (¬ operator.IsShuffled limit graph (estimator.estimate graph) definition →
      definition.kind.isMasterJoin = true →
        ∀ input, operator.inputs.head? = some input → input.unit = some .whole)

/-- An operator is classified in the same way where its first input gets the same volume. -/
theorem isShuffled_congr {operator : Operator} {ours theirs : Estimates ν}
    (same : limit = none ∨ ∀ input, operator.inputs.head? = some input →
      theirs.input? result input.id = ours.input? graph input.id) (definition : UserOperator) :
    operator.IsShuffled limit result theirs definition ↔
      operator.IsShuffled limit graph ours definition := by
  have broadcasts : broadcastsMaster limit result theirs operator =
      broadcastsMaster limit graph ours operator := by
    rcases same with rfl | volumes
    · rfl
    rw [broadcastsMaster, broadcastsMaster]
    split
    · next master isMaster => simp only [isBroadcastable, volumes master isMaster]
    · rfl
  rw [Operator.IsShuffled, Operator.IsShuffled, broadcasts]

theorem Operator.Settled.congr {operator : Operator} (settled : operator.Settled limit estimator graph)
    (same : limit = none ∨ ∀ input ∈ operator.inputs.map Port.id,
      (estimator.estimate result : Estimates ν).input? result input =
        (estimator.estimate graph : Estimates ν).input? graph input) :
    operator.Settled limit estimator result := by
  intro definition isUser
  rw [isShuffled_congr (same.imp_right fun volumes input first =>
    volumes input.id (List.mem_map_of_mem (List.mem_of_head? first)))]
  exact settled definition isUser

variable (sums : limit = none ∨ Volume.Exact ν) (renamed : graph.Renamed result becomes rename)
  (wellFormed : graph.WellFormed) (acyclic : graph.Acyclic)

include sums renamed wellFormed acyclic

theorem isBroadcastable_renamed {operator : Operator} (member : operator ∈ graph.operators)
    {input : PortId} (owned : input ∈ operator.inputs.map Port.id) :
    isBroadcastable limit result (estimator.estimate result) (rename input) =
      isBroadcastable limit graph (estimator.estimate graph) input := by
  rcases sums with rfl | exact
  · rfl
  · have same := Estimator.input?_estimate_renamed renamed wellFormed exact acyclic estimator
      member owned
    simp only [isBroadcastable, same]

/-- An operator stays one that needs a shuffle unless its first input becomes whole. -/
theorem isShuffled_renamed {operator : Operator} (member : operator ∈ graph.operators)
    {definition : UserOperator}
    (shuffled : operator.IsShuffled limit graph (estimator.estimate graph) definition)
    (whole : ∀ master, (becomes operator).inputs.head? = some master →
      master.unit = some .whole → ∃ old, operator.inputs.head? = some old ∧ old.unit = some .whole) :
    (becomes operator).IsShuffled limit result (estimator.estimate result) definition := by
  rw [Operator.IsShuffled] at shuffled ⊢
  split
  · next isJoin =>
    rw [if_pos isJoin, broadcastsMaster] at shuffled
    have heads := congrArg List.head? (renamed.ports operator member .input)
    rw [List.map_map, List.head?_map, List.head?_map] at heads
    rw [broadcastsMaster]
    cases isMaster : (becomes operator).inputs.head? with
    | none => rfl
    | some master =>
      rw [Operator.portsOn, Operator.portsOn, isMaster] at heads
      cases wasMaster : operator.inputs.head? with
      | none =>
        rw [wasMaster] at heads
        cases heads
      | some old =>
        rw [wasMaster] at heads shuffled
        obtain ⟨notSmall, notWhole⟩ := Bool.or_eq_false_iff.1 shuffled
        have sameId : master.id = rename old.id := Option.some.inj heads
        refine Bool.or_eq_false_iff.2 ⟨?_, decide_eq_false fun isWhole => ?_⟩
        · rw [sameId, isBroadcastable_renamed sums renamed wellFormed acyclic member
            (List.mem_map_of_mem (List.mem_of_head? wasMaster))]
          exact notSmall
        · obtain ⟨other, same, wasWhole⟩ := whole master isMaster isWhole
          rw [wasMaster] at same
          cases same
          exact of_decide_eq_false notWhole wasWhole
  · next notJoin =>
    rw [if_neg notJoin] at shuffled
    exact shuffled

/-- An operator that is not touched stays aligned. -/
theorem aligned_untouched {operator : Operator} (member : operator ∈ graph.operators)
    (untouched : Graph.Untouched becomes rename operator)
    (aligned : operator.Aligned limit estimator graph) :
    operator.Aligned limit estimator result := by
  intro definition isUser input isInput isGroup
  have shuffled := isShuffled_renamed sums renamed wellFormed acyclic member
    (aligned definition isUser input isInput isGroup) fun master isMaster isWhole =>
      ⟨master, by rwa [untouched.1] at isMaster, isWhole⟩
  rwa [untouched.1] at shuffled

/-- An operator that is not touched stays settled. -/
theorem settled_untouched {operator : Operator} (member : operator ∈ graph.operators)
    (untouched : Graph.Untouched becomes rename operator)
    (settled : operator.Settled limit estimator graph) :
    operator.Settled limit estimator result := by
  refine settled.congr (sums.imp_right fun exact input owned => ?_)
  rw [← Estimator.input?_estimate_renamed renamed wellFormed exact acyclic estimator member owned,
    untouched.2 input (Operator.mem_ports_of_mem_portsOn .input owned)]

section Fixed

variable {operator : Operator} (member : operator ∈ graph.operators) {operatorClass : OperatorClass}
  (isClass : classOf? limit graph (estimator.estimate graph) operator = some operatorClass)
  (units : (becomes operator).inputs.map (fun port => port.unit) =
    operatorClass.requiredUnits operator)
  {definition : UserOperator} (isUser : (becomes operator).kind = .user definition)

include member isClass isUser

omit sums wellFormed acyclic in
/-- The class of an operator describes it before it is fixed. -/
theorem describes_fixed : operatorClass.Describes operator definition
    (operator.IsShuffled limit graph (estimator.estimate graph) definition) := by
  have kind : (becomes operator).kind = operator.kind :=
    (renamed.alike operator member).user (by rw [isUser]; rfl)
  obtain ⟨found, isFound, describes⟩ :=
    exists_classOf? limit graph (estimator.estimate graph) (kind ▸ isUser)
  exact Option.some.inj (isFound.symm.trans isClass) ▸ describes

include units

omit sums wellFormed acyclic in
/-- Master data that were broadcast are declared whole now, so the operator still need not be
shuffled. -/
theorem isShuffled_of_fixed
    (shuffled : (becomes operator).IsShuffled limit result (estimator.estimate result) definition) :
    operator.IsShuffled limit graph (estimator.estimate graph) definition := by
  have describes := describes_fixed renamed member isClass isUser
  by_contra notShuffled
  by_cases isJoin : definition.kind.isMasterJoin = true
  · have isBroadcast : broadcastsMaster limit graph (estimator.estimate graph) operator = true := by
      rwa [Operator.IsShuffled, if_pos isJoin, Bool.not_eq_false] at notShuffled
    rw [Operator.IsShuffled, if_pos isJoin] at shuffled
    cases isOld : operator.inputs.head? with
    | none =>
      rw [broadcastsMaster, isOld] at isBroadcast
      cases isBroadcast
    | some old =>
      have heads := congrArg List.head? units
      rw [List.head?_map, OperatorClass.requiredUnits, List.head?_map, isOld] at heads
      obtain ⟨master, isMaster, required⟩ := Option.map_eq_some_iff.1 heads
      have isWhole : master.unit = some .whole :=
        required.trans (if_pos (describes.master notShuffled isJoin old isOld))
      rw [broadcastsMaster, isMaster] at shuffled
      exact of_decide_eq_false (Bool.or_eq_false_iff.1 shuffled).2 isWhole
  · rw [Operator.IsShuffled, if_neg isJoin] at shuffled notShuffled
    exact notShuffled shuffled

omit sums acyclic in
/-- Master data of a shuffled operator that are whole now were declared whole before. -/
theorem whole_of_fixed
    (isShuffled : operator.IsShuffled limit graph (estimator.estimate graph) definition) {master : Port}
    (isMaster : (becomes operator).inputs.head? = some master) (isWhole : master.unit = some .whole) :
    ∃ old, operator.inputs.head? = some old ∧ old.unit = some .whole := by
  have describes := describes_fixed renamed member isClass isUser
  have heads := congrArg List.head? units
  rw [List.head?_map, OperatorClass.requiredUnits, List.head?_map, isMaster] at heads
  obtain ⟨old, wasMaster, required⟩ := Option.map_eq_some_iff.1 heads.symm
  have isOld := List.mem_of_head? wasMaster
  refine ⟨old, wasMaster, ?_⟩
  replace required := required.trans isWhole
  rw [OperatorClass.requiredUnit] at required
  split at required
  · next isSecondary =>
    obtain ⟨other, isOther, sameId, wasWhole⟩ := describes.declared isShuffled old.id isSecondary
    rw [← List.inj_on_of_nodup_map (wellFormed.portsOn_nodup member .input) isOther isOld sameId]
    exact wasWhole
  · rw [describes.group.2 ⟨isShuffled, List.ne_nil_of_mem isOld⟩] at required
    cases required

/-- An operator whose units are as its class requires is classified as before. -/
theorem isShuffled_fixed :
    (becomes operator).IsShuffled limit result (estimator.estimate result) definition ↔
      operator.IsShuffled limit graph (estimator.estimate graph) definition := by
  refine ⟨isShuffled_of_fixed renamed member isClass units isUser, fun isShuffled => ?_⟩
  exact isShuffled_renamed sums renamed wellFormed acyclic member isShuffled fun _ =>
    whole_of_fixed renamed wellFormed member isClass units isUser isShuffled

end Fixed

variable {operator : Operator} (member : operator ∈ graph.operators) {operatorClass : OperatorClass}
  (isClass : classOf? limit graph (estimator.estimate graph) operator = some operatorClass)
  (units : (becomes operator).inputs.map (fun port => port.unit) =
    operatorClass.requiredUnits operator)

include member isClass units

/-- An operator whose units are as its class requires is aligned. -/
theorem aligned_fixed : (becomes operator).Aligned limit estimator result := by
  intro definition isUser input isInput isGroup
  have describes := describes_fixed renamed member isClass isUser
  refine (isShuffled_fixed sums renamed wellFormed acyclic member isClass units isUser).2 ?_
  have listed : some .group ∈ (becomes operator).inputs.map fun port => port.unit :=
    isGroup ▸ List.mem_map_of_mem isInput
  rw [units] at listed
  obtain ⟨port, isPort, required⟩ := List.mem_map.1 listed
  rw [OperatorClass.requiredUnit] at required
  split at required
  · cases required
  · split at required
    · cases required
    · next isGroup => exact (describes.group.1 isGroup).1
    · next isNothing =>
      rw [describes.nothing.1 isNothing] at isPort
      cases isPort

/-- An operator whose units are as its class requires is settled. -/
theorem settled_fixed : (becomes operator).Settled limit estimator result := by
  intro definition isUser
  have describes := describes_fixed renamed member isClass isUser
  rw [isShuffled_fixed sums renamed wellFormed acyclic member isClass units isUser]
  refine ⟨fun shuffled input isInput => ?_, fun notShuffled isJoin input first => ?_⟩
  · have listed : input.unit ∈ (becomes operator).inputs.map fun port => port.unit :=
      List.mem_map_of_mem isInput
    rw [units] at listed
    obtain ⟨port, isPort, required⟩ := List.mem_map.1 listed
    rw [← required, OperatorClass.requiredUnit]
    split
    · exact .inr rfl
    · rw [describes.group.2 ⟨shuffled, List.ne_nil_of_mem isPort⟩]
      exact .inl rfl
  · have heads := congrArg List.head? units
    rw [List.head?_map, first, OperatorClass.requiredUnits, List.head?_map] at heads
    obtain ⟨old, isOld, required⟩ := Option.map_eq_some_iff.1 heads.symm
    exact required.symm.trans (if_pos (describes.master notShuffled isJoin old isOld))

end

/-! ### Fixing units -/

/-- A port without its unit. -/
def PortShape.unitless (shape : PortShape) : PortShape := { shape with unit := none }

/-- The second operator has the ports of the first one in the same order, up to their identifiers and
the units of inputs, and there is no other difference between the two than their identifiers. -/
structure Operator.SameButUnits (left right : Operator) : Prop where
  serial : right.serial = left.serial
  kind : right.kind = left.kind
  arguments : right.arguments = left.arguments
  traits : right.traits = left.traits
  inputs : right.inputs.map (fun port => port.toPortShape.unitless) =
    left.inputs.map fun port => port.toPortShape.unitless
  outputs : right.outputs.map (fun port => port.toPortShape) =
    left.outputs.map fun port => port.toPortShape

namespace Operator.SameButUnits

theorem refl (operator : Operator) : operator.SameButUnits operator := ⟨rfl, rfl, rfl, rfl, rfl, rfl⟩

theorem trans {left middle right : Operator} (first : left.SameButUnits middle)
    (second : middle.SameButUnits right) : left.SameButUnits right where
  serial := second.serial.trans first.serial
  kind := second.kind.trans first.kind
  arguments := second.arguments.trans first.arguments
  traits := second.traits.trans first.traits
  inputs := second.inputs.trans first.inputs
  outputs := second.outputs.trans first.outputs

theorem alike {left right : Operator} (same : left.SameButUnits right) : left.Alike right := by
  have groups := congrArg (List.map fun shape : PortShape => shape.group) same.inputs
  have types := congrArg (List.map fun shape : PortShape => shape.dataType) same.outputs
  rw [List.map_map, List.map_map] at groups types
  exact .same same.kind groups types

end Operator.SameButUnits

theorem zipWith_units (shapes : List PortShape) {units : List (Option InputUnit)}
    (same : units.length = shapes.length) :
    (List.zipWith (fun (port : PortShape) unit => { port with unit }) shapes units).map
        (fun shape => shape.unit) = units ∧
      (List.zipWith (fun (port : PortShape) unit => { port with unit }) shapes units).map
        PortShape.unitless = shapes.map PortShape.unitless := by
  induction shapes generalizing units with
  | nil =>
    rw [List.length_nil, List.length_eq_zero_iff] at same
    rw [same]
    exact ⟨rfl, rfl⟩
  | cons shape rest ih =>
    cases units with
    | nil => cases same
    | cons unit others =>
      obtain ⟨units, unitless⟩ := ih (Nat.succ.inj same)
      exact ⟨congrArg (List.cons unit) units, congrArg (List.cons shape.unitless) unitless⟩

namespace Edit

variable {graph result : Graph}

/-- Nothing but the units is new in an operator with other units. -/
theorem sameButUnits_withUnits (graph : Graph) (operator : Operator)
    (units : List (Option InputUnit)) (same : units.length = operator.inputs.length) :
    operator.SameButUnits (graph.added (operator.blueprint.withUnits units)) ∧
      (graph.added (operator.blueprint.withUnits units)).inputs.map (fun port => port.unit) =
        units := by
  have shapes : (operator.blueprint.withUnits units).inputs =
      List.zipWith (fun (port : PortShape) unit => { port with unit }) operator.blueprint.inputs
        units := by
    rw [Blueprint.withUnits, same, ← List.length_map (fun port : Port => port.toPortShape)]
    exact (congrArg _ List.drop_length).trans (List.append_nil _)
  have inputs : (graph.added (operator.blueprint.withUnits units)).inputs.map
      (fun port => port.toPortShape) = (operator.blueprint.withUnits units).inputs :=
    Graph.map_toPortShape_assignPorts
  obtain ⟨asked, unitless⟩ :=
    zipWith_units operator.blueprint.inputs (same.trans (List.length_map _).symm)
  rw [← shapes, ← inputs, List.map_map] at asked unitless
  exact ⟨⟨rfl, rfl, rfl, rfl, unitless.trans (List.map_map ..), Graph.map_toPortShape_assignPorts⟩,
    asked⟩

/-- Operators and ports get other identifiers such that the operators of some classes have the units
that these require; they stay where these are the units that they have, and others stay. -/
structure FixesBy (graph result : Graph) (becomes : Operator → Operator) (rename : PortId → PortId)
    (classes : List OperatorClass) : Prop where
  renamed : graph.Renamed result becomes rename
  same : ∀ operator ∈ graph.operators, operator.SameButUnits (becomes operator)
  idle : ∀ operator ∈ graph.operators, (becomes operator).inputs.map (fun port => port.unit) =
    operator.inputs.map (fun port => port.unit) → Graph.Untouched becomes rename operator
  others : ∀ operator ∈ graph.operators,
    (∀ operatorClass ∈ classes, operatorClass.operator ≠ operator.id) →
      Graph.Untouched becomes rename operator
  required : ∀ operatorClass ∈ classes, ∀ operator ∈ graph.operators,
    operator.id = operatorClass.operator → (becomes operator).inputs.map (fun port => port.unit) =
      operatorClass.requiredUnits operator

/-- The operators of some classes get the units that their classes require. -/
def Fixes (graph result : Graph) (classes : List OperatorClass) : Prop :=
  ∃ becomes rename, FixesBy graph result becomes rename classes

/-- Where no operator is to be fixed all of them stay. -/
theorem Fixes.nil (wellFormed : graph.WellFormed) : Fixes graph graph [] :=
  ⟨id, id, .refl wellFormed, fun operator _ => .refl operator, fun operator _ _ => .refl operator,
    fun operator _ _ => .refl operator, by simp⟩

theorem fixes_fixUnits (wellFormed : graph.WellFormed) {operatorClass : OperatorClass}
    {changed : Bool} (yields : (fixUnits operatorClass).Yields graph changed result) :
    Fixes graph result [operatorClass] := by
  obtain ⟨operator, _, looked, rest⟩ := yields_bind.1 yields
  obtain ⟨found, rfl⟩ := yields_look.1 looked
  obtain ⟨member, sameId⟩ := Graph.mem_of_operator found
  have isOperator : ∀ other ∈ graph.operators, other.id = operatorClass.operator →
      other = operator := fun other isThere same =>
    wellFormed.operator_unique isThere member (same.trans sameId.symm)
  dsimp only at rest
  split at rest
  · next asRequired =>
    obtain ⟨-, rfl⟩ := yields_pure.1 rest
    refine ⟨id, id, .refl wellFormed, fun other _ => .refl other, fun other _ _ => .refl other,
      fun other _ _ => .refl other, fun other listed found isFound same => ?_⟩
    rw [List.mem_singleton.1 listed] at same ⊢
    rw [isOperator found isFound same]
    exact asRequired.symm
  · next differ =>
    obtain ⟨_, _, rebuilt, returned⟩ := yields_bind.1 rest
    obtain ⟨-, rfl⟩ := yields_pure.1 returned
    obtain ⟨old, oldId, resultWellFormed, replaced⟩ := replaced_of_rebuild wellFormed rebuilt
    obtain rfl := wellFormed.operator_unique replaced.member member oldId
    obtain ⟨sameOld, units⟩ :=
      sameButUnits_withUnits graph old (operatorClass.requiredUnits old) (List.length_map _)
    refine ⟨_, _, replaced.renamed wellFormed resultWellFormed sameOld.alike, fun other _ => ?_,
      fun other isThere kept => replaced.untouched wellFormed isThere ?_, fun other isThere differs =>
        replaced.untouched wellFormed isThere ?_, fun other listed found isFound same => ?_⟩
    · split
      · next same => exact same ▸ sameOld
      · exact .refl other
    · rintro rfl
      rw [if_pos rfl, units] at kept
      exact differ kept
    · rintro rfl
      exact differs operatorClass List.mem_cons_self sameId.symm
    · rw [List.mem_singleton.1 listed] at same ⊢
      rw [isOperator found isFound same, if_pos rfl]
      exact units

theorem Fixes.cons {middle : Graph} {operatorClass : OperatorClass} {rest : List OperatorClass}
    (first : Fixes graph middle [operatorClass]) (second : Fixes middle result rest)
    (distinct : ∀ other ∈ rest, other.operator ≠ operatorClass.operator)
    (known : ∀ other ∈ rest, ∃ operator ∈ graph.operators, operator.id = other.operator) :
    Fixes graph result (operatorClass :: rest) := by
  obtain ⟨becomes, rename, first⟩ := first
  obtain ⟨later, again, second⟩ := second
  have renamed := first.renamed
  have stays : ∀ operator ∈ graph.operators, operatorClass.operator ≠ operator.id →
      Graph.Untouched becomes rename operator := fun operator member differs =>
    first.others operator member fun other listed => List.mem_singleton.1 listed ▸ differs
  -- The other classes are about other operators, which have kept their identifiers.
  have staysLater : ∀ operator ∈ graph.operators, operatorClass.operator = operator.id →
      Graph.Untouched later again (becomes operator) := by
    intro operator member isFirst
    refine second.others (becomes operator) (renamed.mem_becomes member) fun other listed sameId => ?_
    obtain ⟨another, isAnother, anotherId⟩ := known other listed
    have kept := stays another isAnother (anotherId ▸ (distinct other listed).symm)
    have equal := renamed.injective operator member another isAnother
      (renamed.wellFormed.operator_unique (renamed.mem_becomes member)
        (renamed.mem_becomes isAnother) (by rw [kept.1, anotherId, sameId]))
    exact distinct other listed (by rw [← anotherId, ← equal, isFirst])
  have isThere : ∀ {operator}, operator ∈ graph.operators → Graph.Untouched becomes rename operator →
      operator ∈ middle.operators := fun member kept => kept.1 ▸ renamed.mem_becomes member
  refine ⟨_, _, renamed.trans second.renamed, fun operator member => (first.same operator member).trans
    (second.same _ (renamed.mem_becomes member)), fun operator member sameUnits => ?_,
    fun operator member differs => ?_, List.forall_mem_cons.2
      ⟨fun operator member isFirst => ?_, fun other listed operator member sameId => ?_⟩⟩
  · by_cases isFirst : operatorClass.operator = operator.id
    · have stayed := staysLater operator member isFirst
      rw [Function.comp_apply, stayed.1] at sameUnits
      have kept := first.idle operator member sameUnits
      exact kept.trans (kept.1 ▸ stayed)
    · have kept := stays operator member isFirst
      rw [Function.comp_apply, kept.1] at sameUnits
      exact kept.trans (second.idle operator (isThere member kept) sameUnits)
  · obtain ⟨notFirst, notLater⟩ := List.forall_mem_cons.1 differs
    have kept := stays operator member notFirst
    exact kept.trans (second.others operator (isThere member kept) notLater)
  · rw [Function.comp_apply, (staysLater operator member isFirst.symm).1]
    exact first.required operatorClass List.mem_cons_self operator member isFirst
  · have kept := stays operator member (sameId ▸ (distinct other listed).symm)
    rw [Function.comp_apply, kept.1]
    exact second.required other listed operator (isThere member kept) sameId

/-- Fixing the units for classes of different operators, one after the other. -/
theorem fixes_countChanges {classes : List OperatorClass} (wellFormed : graph.WellFormed)
    (distinct : classes.Pairwise fun left right => left.operator ≠ right.operator)
    (known : ∀ operatorClass ∈ classes,
      ∃ operator ∈ graph.operators, operator.id = operatorClass.operator)
    {count : Nat} (yields : (countChanges fixUnits classes).Yields graph count result) :
    Fixes graph result classes := by
  induction classes generalizing graph count with
  | nil =>
    obtain ⟨-, rfl⟩ := yields_pure.1 yields
    exact .nil wellFormed
  | cons operatorClass rest ih =>
    obtain ⟨changed, middle, first, others⟩ := yields_bind.1 yields
    obtain ⟨more, _, later, returned⟩ := yields_bind.1 others
    obtain ⟨-, rfl⟩ := yields_pure.1 returned
    obtain ⟨apart, distinctRest⟩ := List.pairwise_cons.1 distinct
    have fixesFirst := fixes_fixUnits wellFormed first
    have knownRest := fun other listed => known other (List.mem_cons_of_mem _ listed)
    refine fixesFirst.cons (ih ?_ distinctRest (fun other listed => ?_) later)
      (fun other listed => (apart other listed).symm) knownRest
    · obtain ⟨_, _, fixes⟩ := fixesFirst
      exact fixes.renamed.wellFormed
    · obtain ⟨_, _, fixes⟩ := fixesFirst
      obtain ⟨operator, member, same⟩ := knownRest other listed
      have kept := fixes.others operator member fun another isAnother => by
        rw [List.mem_singleton.1 isAnother, same]
        exact apart other listed
      exact ⟨operator, kept.1 ▸ fixes.renamed.mem_becomes member, same⟩

variable {ν : Type} [Volume ν] {limit : Option ν} {estimator : Estimator}

theorem operator_of_classOf? {estimates : Estimates ν} {operator : Operator}
    {operatorClass : OperatorClass}
    (isClass : classOf? limit graph estimates operator = some operatorClass) :
    operatorClass.operator = operator.id := by
  rw [classOf?] at isClass
  split at isClass
  · cases isClass
  · split at isClass
    · split at isClass <;> cases isClass <;> rfl
    · split at isClass <;> cases isClass <;> rfl
  · cases isClass
    rfl

theorem mem_classesOf {operatorClass : OperatorClass} :
    operatorClass ∈ classesOf estimator limit graph ↔ ∃ operator ∈ graph.operators,
      classOf? limit graph (estimator.estimate graph) operator = some operatorClass :=
  List.mem_filterMap

/-- The class that is found for an operator is its class. -/
theorem find?_classesOf (wellFormed : graph.WellFormed) {operator : Operator}
    (member : operator ∈ graph.operators) {operatorClass : OperatorClass} :
    (classesOf estimator limit graph).find?
        (fun operatorClass => operatorClass.operator = operator.id) = some operatorClass ↔
      classOf? limit graph (estimator.estimate graph) operator = some operatorClass := by
  have isClass : ∀ found ∈ classesOf estimator limit graph, found.operator = operator.id →
      classOf? limit graph (estimator.estimate graph) operator = some found := by
    intro found listed same
    obtain ⟨other, isOther, isFound⟩ := mem_classesOf.1 listed
    rwa [wellFormed.operator_unique member isOther (same.symm.trans (operator_of_classOf? isFound))]
  constructor
  · intro found
    exact isClass _ (List.mem_of_find?_eq_some found) (by simpa using List.find?_some found)
  · intro found
    cases search : (classesOf estimator limit graph).find?
        (fun operatorClass => operatorClass.operator = operator.id) with
    | none =>
      have absent := List.find?_eq_none.1 search operatorClass (mem_classesOf.2 ⟨operator, member, found⟩)
      exact absurd (decide_eq_true (operator_of_classOf? found)) absent
    | some other =>
      have isOther := isClass other (List.mem_of_find?_eq_some search)
        (by simpa using List.find?_some search)
      exact isOther.symm.trans found

/-- Units are fixed in the order into which the operators of users are inserted one by one. Unlike
sorting by merging this can be evaluated. -/
theorem fixAllUnits_eq (estimator : Estimator) (limit : Option ν) :
    fixAllUnits estimator limit = get >>= fun graph => countChanges fixUnits
      (((graph.operators.filter fun operator => operator.kind.user?.isSome).insertionSort
        fun left right => decide (left.serial.index ≤ right.serial.index) = true).filterMap
          fun operator => (classesOf estimator limit graph).find? fun operatorClass =>
            operatorClass.operator = operator.id) := by
  have inserted : ∀ operators : List Operator,
      (operators.mergeSort fun left right => decide (left.serial.index ≤ right.serial.index)) =
        operators.insertionSort
          fun left right => decide (left.serial.index ≤ right.serial.index) = true := fun operators =>
    mergeSort_eq_insertionSort (fun _ _ _ => by simpa using Nat.le_trans)
      (fun _ _ => by simpa using Nat.le_total _ _) operators
  simp only [fixAllUnits, inserted]

section Fixed

variable (estimator limit graph)

/-- The classes by which units are fixed, in the order in which this is done. -/
def fixedClasses : List OperatorClass :=
  ((graph.operators.filter fun operator => operator.kind.user?.isSome).mergeSort
    fun left right => left.serial.index ≤ right.serial.index).filterMap fun operator =>
      (classesOf estimator limit graph).find? fun operatorClass => operatorClass.operator = operator.id

variable {estimator limit graph} (wellFormed : graph.WellFormed)

include wellFormed

/-- They are those of the operators of users. -/
theorem mem_fixedClasses {operatorClass : OperatorClass} :
    operatorClass ∈ fixedClasses graph limit estimator ↔
      ∃ operator ∈ graph.operators, operator.kind.user?.isSome = true ∧
        classOf? limit graph (estimator.estimate graph) operator = some operatorClass := by
  rw [fixedClasses, List.mem_filterMap]
  simp only [(List.mergeSort_perm _ _).mem_iff, List.mem_filter, and_assoc]
  exact exists_congr fun operator => and_congr_right fun member =>
    and_congr_right fun _ => find?_classesOf wellFormed member

theorem distinct_fixedClasses : (fixedClasses graph limit estimator).Pairwise
    fun left right => left.operator ≠ right.operator := by
  refine List.pairwise_filterMap.2 (List.Pairwise.imp_of_mem (fun {left right} isLeft isRight differ => ?_)
    (List.pairwise_map.1 (((List.mergeSort_perm _ _).map Operator.id).nodup_iff.2
      (wellFormed.nodup_operatorIds.sublist (List.filter_sublist.map Operator.id)))))
  rw [(List.mergeSort_perm _ _).mem_iff, List.mem_filter] at isLeft isRight
  intro first foundFirst second foundSecond same
  have ofFirst := (find?_classesOf wellFormed isLeft.1).1 foundFirst
  have ofSecond := (find?_classesOf wellFormed isRight.1).1 foundSecond
  exact differ ((operator_of_classOf? ofFirst).symm.trans (same.trans (operator_of_classOf? ofSecond)))

theorem known_fixedClasses : ∀ operatorClass ∈ fixedClasses graph limit estimator,
    ∃ operator ∈ graph.operators, operator.id = operatorClass.operator := by
  intro operatorClass listed
  obtain ⟨operator, member, -, isClass⟩ := (mem_fixedClasses wellFormed).1 listed
  exact ⟨operator, member, (operator_of_classOf? isClass).symm⟩

end Fixed

/-- Operators that are not of users have no class by which units are fixed. -/
theorem FixesBy.untouched {becomes : Operator → Operator} {rename : PortId → PortId}
    (fixes : FixesBy graph result becomes rename (fixedClasses graph limit estimator))
    (wellFormed : graph.WellFormed) {operator : Operator} (member : operator ∈ graph.operators)
    (notUser : operator.kind.user? = none) : Graph.Untouched becomes rename operator := by
  refine fixes.others operator member fun operatorClass listed same => ?_
  obtain ⟨user, isThere, isUser, isClass⟩ := (mem_fixedClasses wellFormed).1 listed
  obtain rfl := wellFormed.operator_unique isThere member
    ((operator_of_classOf? isClass).symm.trans same)
  rw [notUser] at isUser
  cases isUser

/-- Operators of users get the units that their classes require. -/
theorem FixesBy.exists_class {becomes : Operator → Operator} {rename : PortId → PortId}
    (fixes : FixesBy graph result becomes rename (fixedClasses graph limit estimator))
    (wellFormed : graph.WellFormed) {operator : Operator} (member : operator ∈ graph.operators)
    (isUser : operator.kind.user?.isSome = true) : ∃ operatorClass,
      classOf? limit graph (estimator.estimate graph) operator = some operatorClass ∧
        (becomes operator).inputs.map (fun port => port.unit) =
          operatorClass.requiredUnits operator := by
  obtain ⟨definition, kind⟩ := OperatorKind.exists_definition isUser
  obtain ⟨operatorClass, isClass, describes⟩ :=
    exists_classOf? limit graph (estimator.estimate graph) kind
  exact ⟨operatorClass, isClass, fixes.required operatorClass
    ((mem_fixedClasses wellFormed).2 ⟨operator, member, isUser, isClass⟩) operator member
    describes.sameId.symm⟩

/-- Fixing all units gives the operators of users the units that their classes require. -/
theorem fixes_fixAllUnits (wellFormed : graph.WellFormed) {count : Nat}
    (yields : (fixAllUnits estimator limit).Yields graph count result) :
    Fixes graph result (fixedClasses graph limit estimator) := by
  obtain ⟨_, _, seen, counted⟩ := yields_bind.1 yields
  obtain ⟨rfl, rfl⟩ := yields_get.1 seen
  exact fixes_countChanges wellFormed (distinct_fixedClasses wellFormed)
    (known_fixedClasses wellFormed) counted

section

variable (closed : graph.Closed) (acyclic : graph.Acyclic) (sums : limit = none ∨ Volume.Exact ν)
  {count : Nat} (yields : (fixAllUnits estimator limit).Yields graph count result)

include closed acyclic sums yields

/-- After all units are fixed the graph is still closed and free of circuits, and every operator is
aligned. -/
theorem aligned_fixAllUnits : result.Closed ∧ result.Acyclic ∧
    ∀ operator ∈ result.operators, operator.Aligned limit estimator result := by
  have wellFormed := closed.wellFormed
  obtain ⟨becomes, rename, fixes⟩ := fixes_fixAllUnits wellFormed yields
  have renamed := fixes.renamed
  refine ⟨closed.renamed renamed, renamed.acyclic wellFormed acyclic, fun operator isThere => ?_⟩
  obtain ⟨old, member, rfl⟩ := (renamed.operators operator).1 isThere
  intro definition isUser
  have kind := (renamed.alike old member).user (by rw [isUser]; rfl)
  obtain ⟨operatorClass, isClass, required⟩ :=
    fixes.exists_class wellFormed member (by rw [← kind, isUser]; rfl)
  exact aligned_fixed sums renamed wellFormed acyclic member isClass required definition isUser

/-- After all units are fixed every operator is settled. -/
theorem settled_fixAllUnits :
    ∀ operator ∈ result.operators, operator.Settled limit estimator result := by
  have wellFormed := closed.wellFormed
  obtain ⟨becomes, rename, fixes⟩ := fixes_fixAllUnits wellFormed yields
  have renamed := fixes.renamed
  intro operator isThere definition isUser
  obtain ⟨old, member, rfl⟩ := (renamed.operators operator).1 isThere
  have kind := (renamed.alike old member).user (by rw [isUser]; rfl)
  obtain ⟨operatorClass, isClass, required⟩ :=
    fixes.exists_class wellFormed member (by rw [← kind, isUser]; rfl)
  exact settled_fixed sums renamed wellFormed acyclic member isClass required definition isUser

end

end Edit

end StagePlanner
