import Mathlib.Data.List.TakeWhile
import StagePlanner.Proofs.Document.Building

/-!
# What endpoints mean

An endpoint is read at its last point: if the part before it is an operator of the document, the part
behind it names a port (`NamedGraph.endpoint_of_hidden`), else the whole text is an operator
(`NamedGraph.endpoint_of_not_hidden`). So a port whose name has no point is always reached through the
name of its operator, and a port whose name has one never is; and the name of an operator stands for
its first port unless the name of another operator hides it (`Document.endpoint_addresses`).
-/

namespace StagePlanner

/-! ### The last point -/

/-- A text without points. -/
def Undotted (text : String) : Prop := '.' ∉ text.toList

instance (text : String) : Decidable (Undotted text) := inferInstanceAs (Decidable (_ ∉ _))

namespace NamedGraph

theorem splitLastPoint_append {front name : String} (undotted : Undotted name) :
    splitLastPoint (front ++ "." ++ name) = some (front, name) := by
  have passed : ∀ character ∈ name.toList.reverse, decide (character ≠ '.') = true := by
    intro character member
    have other : character ≠ '.' := fun point => undotted (point ▸ List.mem_reverse.1 member)
    simpa using other
  have text : (front ++ "." ++ name).toList.reverse = name.toList.reverse ++ '.' :: front.toList.reverse := by
    simp
  simp only [splitLastPoint, text, List.dropWhile_append_of_pos passed, List.takeWhile_append_of_pos passed]
  simp

theorem splitLastPoint_of_undotted {text : String} (undotted : Undotted text) :
    splitLastPoint text = none := by
  have passed : text.toList.reverse.dropWhile (fun character => decide (character ≠ '.')) = [] := by
    refine List.dropWhile_eq_nil_iff.2 fun character member => ?_
    have other : character ≠ '.' := fun point => undotted (point ▸ List.mem_reverse.1 member)
    simpa using other
  simp only [splitLastPoint, passed]

/-- A text with a point has a last one. -/
theorem exists_last_point {text : String} (dotted : ¬ Undotted text) :
    ∃ front name, text = front ++ "." ++ name ∧ Undotted name := by
  obtain ⟨name, front, split, undotted⟩ :=
    List.eq_append_cons_of_mem (List.mem_reverse.2 (Classical.not_not.1 dotted))
  refine ⟨String.ofList front.reverse, String.ofList name.reverse, String.toList_inj.1 ?_, ?_⟩
  · rw [← List.reverse_inj, split]
    simp
  · simpa [Undotted] using undotted

/-- A text is split in one way. -/
theorem append_point_inj {front other name last : String} (undotted : Undotted name)
    (alsoUndotted : Undotted last) (same : front ++ "." ++ name = other ++ "." ++ last) :
    front = other ∧ name = last := by
  have split : splitLastPoint (front ++ "." ++ name) = some (front, name) := splitLastPoint_append undotted
  rw [same, splitLastPoint_append alsoUndotted] at split
  exact Prod.mk.inj (Option.some.inj split.symm)

end NamedGraph

theorem append_point_ne (front name : String) : front ++ "." ++ name ≠ front := by
  intro same
  have lengths := congrArg String.length same
  simp only [String.length_append] at lengths
  have point : ".".length = 1 := rfl
  omega

/-! ### Readings -/

/-- The port of an operator that an endpoint means on one side: the first one of a name, or the first
one. -/
def Operator.meantPort? (operator : Operator) (side : PortSide) : Option String → Option Port
  | some name => (operator.portsOn side).find? fun port => port.name == name
  | none => (operator.portsOn side).head?

/-- Why there is no such port. -/
def Operator.noSuchPort (operator : Operator) : PortSide → Option String → GraphFault
  | .input, some name => .noInputNamed operator.label name
  | .output, some name => .noOutputNamed operator.label name
  | .input, none => .noInputAt operator.id 0
  | .output, none => .noOutputAt operator.id 0

/-- What an endpoint gives that means an operator. -/
def Operator.portMeant (operator : Operator) (side : PortSide)
    (name? : Option String) : Except GraphFault PortId :=
  match operator.meantPort? side name? with
  | some port => .ok port.id
  | none => .error (operator.noSuchPort side name?)

theorem Operator.mem_of_portMeant {operator : Operator} {side : PortSide} {name? : Option String}
    {port : PortId} (found : operator.portMeant side name? = .ok port) :
    port ∈ operator.ports.map Port.id := by
  rw [portMeant] at found
  split at found
  · next meant isMeant =>
    obtain rfl := Except.ok.inj found
    refine mem_ports_of_mem_portsOn side (List.mem_map_of_mem ?_)
    cases name? with
    | none => exact List.mem_of_head? isMeant
    | some name => exact List.mem_of_find?_eq_some isMeant
  · cases found

namespace NamedGraph

variable {named result : NamedGraph}

/-- The port that an endpoint means on one side of an edge. -/
def portAt (named : NamedGraph) : PortSide → String → Except GraphFault PortId
  | .input => named.inputAt
  | .output => named.outputAt

/-- A name hides a text that consists of it, a point and a text without points. -/
def Hides (front text : String) : Prop := ∃ name, Undotted name ∧ text = front ++ "." ++ name

theorem endpoint_of_hidden {front name : String} (undotted : Undotted name) {id : OperatorId}
    (declared : named.operator? front = some id) :
    named.endpoint (front ++ "." ++ name) = .ok (id, some name) := by
  simp only [endpoint, splitLastPoint_append undotted, declared]

theorem endpoint_of_not_hidden {text : String}
    (visible : ∀ front, Hides front text → named.operator? front = none) :
    named.endpoint text =
      (named.operator? text).elim (.error (.unknownEndpoint text)) fun id => .ok (id, none) := by
  by_cases undotted : Undotted text
  · simp only [endpoint, splitLastPoint_of_undotted undotted]
    cases named.operator? text <;> rfl
  · obtain ⟨front, name, rfl, nameUndotted⟩ := exists_last_point undotted
    simp only [endpoint, splitLastPoint_append nameUndotted, visible front ⟨name, nameUndotted, rfl⟩]
    cases named.operator? (front ++ "." ++ name) <;> rfl

/-- An endpoint that can be read is a name with a port behind it, or a name that no other one hides. -/
theorem endpoint_eq_ok {text : String} {id : OperatorId} {name? : Option String}
    (reads : named.endpoint text = .ok (id, name?)) :
    (∃ front name, Undotted name ∧ text = front ++ "." ++ name ∧ named.operator? front = some id) ∨
      named.operator? text = some id ∧ ∀ front, Hides front text → named.operator? front = none := by
  by_cases visible : ∀ front, Hides front text → named.operator? front = none
  · rw [endpoint_of_not_hidden visible] at reads
    cases declared : named.operator? text with
    | none => rw [declared] at reads; cases reads
    | some other =>
      rw [declared] at reads
      cases reads
      exact .inr ⟨rfl, visible⟩
  · obtain ⟨front, hidden⟩ := not_forall.1 visible
    obtain ⟨⟨name, undotted, rfl⟩, declared⟩ := Classical.not_imp.1 hidden
    obtain ⟨other, isOther⟩ := Option.ne_none_iff_exists'.1 declared
    rw [endpoint_of_hidden undotted isOther] at reads
    cases reads
    exact .inl ⟨front, name, undotted, rfl, isOther⟩

/-- What an endpoint means is a port of the operator that it is read as. -/
theorem portAt_eq (side : PortSide) (text : String) :
    named.portAt side text = named.endpoint text >>= fun reading =>
      named.graph.operator reading.1 >>= fun operator => operator.portMeant side reading.2 := by
  cases side with
  | input =>
    refine bind_congr fun (id, name?) => ?_
    cases name? with
    | none =>
      refine bind_congr_of_ok fun operator isOperator => ?_
      obtain ⟨-, rfl⟩ := Graph.mem_of_operator isOperator
      simp only [Operator.portMeant, Operator.meantPort?, Operator.portsOn, List.head?_eq_getElem?]
      rfl
    | some name => rfl
  | output =>
    refine bind_congr fun (id, name?) => ?_
    cases name? with
    | none =>
      refine bind_congr_of_ok fun operator isOperator => ?_
      obtain ⟨-, rfl⟩ := Graph.mem_of_operator isOperator
      simp only [Operator.portMeant, Operator.meantPort?, Operator.portsOn, List.head?_eq_getElem?]
      rfl
    | some name => rfl

/-! ### Declared names -/

/-- The ports of an operator are those that a definition describes. -/
def Realizes (operator : Operator) (definition : OperatorDefinition) : Prop :=
  ∃ blueprint, definition.blueprint = .ok blueprint ∧
    operator.inputs.map (·.toPortShape) = blueprint.inputs ∧
    operator.outputs.map (·.toPortShape) = blueprint.outputs

/-- The names of some definitions, and no others, stand for operators of the graph, and different names
for different ones. -/
structure Declares (named : NamedGraph) (definitions : List OperatorDefinition) : Prop where
  wellFormed : named.graph.WellFormed
  declared : ∀ definition ∈ definitions, ∃ operator ∈ named.graph.operators,
    named.operator? definition.id = some operator.id ∧ Realizes operator definition
  only : ∀ name id, named.operator? name = some id → ∃ definition ∈ definitions, definition.id = name
  distinct : ∀ name other id, named.operator? name = some id → named.operator? other = some id →
    name = other

variable {definitions : List OperatorDefinition}

theorem declares_empty : Declares {} [] where
  wellFormed := Graph.regular_empty.wellFormed
  declared := nofun
  only := nofun
  distinct := nofun

namespace Declares

theorem exists_operator (declares : named.Declares definitions) {name : String} {id : OperatorId}
    (declared : named.operator? name = some id) : ∃ operator ∈ named.graph.operators, operator.id = id := by
  obtain ⟨definition, isDefinition, rfl⟩ := declares.only name id declared
  obtain ⟨operator, member, isDeclared, -⟩ := declares.declared definition isDefinition
  exact ⟨operator, member, Option.some.inj (isDeclared.symm.trans declared)⟩

theorem addOperator (declares : named.Declares definitions) {definition : OperatorDefinition}
    (succeeds : named.addOperator definition = .ok result) :
    result.Declares (definitions ++ [definition]) := by
  obtain ⟨blueprint, isBlueprint, isNew, same, lookup⟩ := of_addOperator succeeds
  have old : ∀ {name id}, named.operator? name = some id → id ≠ named.graph.nextOperator := by
    rintro name _ declared rfl
    obtain ⟨operator, member, isNext⟩ := declares.exists_operator declared
    exact absurd (isNext ▸ declares.wellFormed.operatorsBelow operator member) (Nat.lt_irrefl _)
  refine ⟨same ▸ declares.wellFormed.add blueprint, ?_, ?_, ?_⟩
  · rw [same, Graph.operators_add]
    refine List.forall_mem_append.2 ⟨fun earlier isEarlier => ?_, List.forall_mem_singleton.2 ?_⟩
    · obtain ⟨operator, member, isDeclared, realizes⟩ := declares.declared earlier isEarlier
      refine ⟨operator, List.mem_append_left _ member, ?_, realizes⟩
      rw [lookup, if_neg, isDeclared]
      intro again
      rw [again, isNew] at isDeclared
      cases isDeclared
    · exact ⟨named.graph.added blueprint, List.mem_append_right _ (List.mem_singleton_self _),
        (lookup _).trans (if_pos rfl), blueprint, isBlueprint,
        Graph.map_toPortShape_assignPorts, Graph.map_toPortShape_assignPorts⟩
  · intro name id declared
    rw [lookup] at declared
    split at declared
    · next new => exact ⟨definition, List.mem_append_right _ (List.mem_singleton_self _), new.symm⟩
    · obtain ⟨earlier, isEarlier, names⟩ := declares.only name id declared
      exact ⟨earlier, List.mem_append_left _ isEarlier, names⟩
  · intro name other id declared alsoDeclared
    rw [lookup] at declared alsoDeclared
    split at declared <;> split at alsoDeclared
    · next new alsoNew => exact new.trans alsoNew.symm
    · exact absurd (Option.some.inj declared).symm (old alsoDeclared)
    · exact absurd (Option.some.inj alsoDeclared).symm (old declared)
    · exact declares.distinct name other id declared alsoDeclared

theorem addEdge (declares : named.Declares definitions) {definition : EdgeDefinition}
    (succeeds : named.addEdge definition = .ok result) : result.Declares definitions := by
  obtain ⟨graph, names⟩ := result
  obtain ⟨source, target, -, -, connected, same⟩ := of_addEdge succeeds
  obtain rfl : names = named.names := same
  obtain ⟨starts, ends, rfl⟩ := Edit.yields_connect connected
  exact ⟨declares.wellFormed.link starts ends, declares.declared, declares.only, declares.distinct⟩

/-- Adding operators one after the other declares all of their names. -/
theorem addOperators (declares : named.Declares definitions) {more : List OperatorDefinition}
    (succeeds : more.foldlM NamedGraph.addOperator named = .ok result) :
    result.Declares (definitions ++ more) := by
  induction more generalizing named definitions with
  | nil =>
    cases succeeds
    rwa [List.append_nil]
  | cons definition rest ih =>
    obtain ⟨next, first, others⟩ := bind_eq_ok_iff.1 succeeds
    have both := ih (declares.addOperator first) others
    rwa [List.append_assoc, List.singleton_append] at both

/-! ### What declared names mean -/

/-- An endpoint that is read as an operator gives a port of it, or says that it has no such port. -/
theorem portAt_of_endpoint (declares : named.Declares definitions) {operator : Operator}
    (member : operator ∈ named.graph.operators) {text : String} {name? : Option String}
    (reads : named.endpoint text = .ok (operator.id, name?)) (side : PortSide) :
    named.portAt side text = operator.portMeant side name? := by
  rw [portAt_eq, reads]
  change (named.graph.operator operator.id >>= fun operator => operator.portMeant side name?) = _
  rw [declares.wellFormed.operator_eq_ok member]
  rfl

/-- An endpoint that gives a port of an operator is the name of the operator, alone or with the name of a
port behind it. -/
theorem reading_of_portAt (declares : named.Declares definitions) {operator : Operator}
    (member : operator ∈ named.graph.operators) {front text : String}
    (declared : named.operator? front = some operator.id) {side : PortSide} {port : Port}
    (isPort : port ∈ operator.portsOn side) (found : named.portAt side text = .ok port.id) :
    Hides front text ∨ text = front ∧ ∀ other, Hides other text → named.operator? other = none := by
  rw [portAt_eq] at found
  obtain ⟨⟨id, name?⟩, reads, rest⟩ := bind_eq_ok_iff.1 found
  obtain ⟨owner, isOwner, meant⟩ := bind_eq_ok_iff.1 rest
  obtain ⟨ownerMember, rfl⟩ := Graph.mem_of_operator isOwner
  have owns := Operator.mem_ports_of_mem_portsOn side (List.mem_map_of_mem isPort)
  obtain rfl := declares.wellFormed.owner_unique ownerMember member (Operator.mem_of_portMeant meant) owns
  rcases endpoint_eq_ok reads with ⟨other, name, undotted, rfl, isOther⟩ | ⟨isText, visible⟩
  · obtain rfl := declares.distinct _ _ _ isOther declared
    exact .inl ⟨name, undotted, rfl⟩
  · exact .inr ⟨declares.distinct _ _ _ isText declared, visible⟩

end Declares

end NamedGraph

namespace Document

/-- The name of an operator of the document hides a text. -/
def Hides (document : Document) (text : String) : Prop :=
  ∃ definition ∈ document.operators, NamedGraph.Hides definition.id text

/-- Endpoints address the operators of a document and their ports, whatever edges there are already. The
name of an operator means its first port, exactly if the name of no other one hides it; with a point
and the name of a port behind it, it means the first port of that name, exactly if that name has no
point. A text that consists of the name of an operator, a point and a text without points is always
read as a port of that operator, also where it is itself the name of another one. -/
theorem endpoint_addresses {document : Document} {start named : NamedGraph}
    {edges : List EdgeDefinition}
    (built : document.operators.foldlM NamedGraph.addOperator {} = .ok start)
    (connected : edges.foldlM NamedGraph.addEdge start = .ok named)
    {definition : OperatorDefinition} (isDefinition : definition ∈ document.operators) :
    ∃ operator ∈ named.graph.operators, named.operator? definition.id = some operator.id ∧
      NamedGraph.Realizes operator definition ∧ ∀ side,
        (∀ first, (operator.portsOn side).head? = some first →
          (named.portAt side definition.id = .ok first.id ↔ ¬ document.Hides definition.id)) ∧
        (∀ name first, ((operator.portsOn side).find? fun port => port.name == name) = some first →
          (named.portAt side (definition.id ++ "." ++ name) = .ok first.id ↔ Undotted name)) ∧
        ∀ name, Undotted name →
          named.portAt side (definition.id ++ "." ++ name) = operator.portMeant side (some name) := by
  have keeps : ∀ (state : NamedGraph) edge next, state.addEdge edge = .ok next →
      state.Declares document.operators → next.Declares document.operators :=
    fun _ _ _ added declares => declares.addEdge added
  have declares : named.Declares document.operators :=
    of_foldlM keeps connected (NamedGraph.declares_empty.addOperators built)
  obtain ⟨operator, member, isDeclared, realizes⟩ := declares.declared definition isDefinition
  have named? : ∀ side name, Undotted name →
      named.portAt side (definition.id ++ "." ++ name) = operator.portMeant side (some name) :=
    fun side name undotted => declares.portAt_of_endpoint member
      (NamedGraph.endpoint_of_hidden undotted isDeclared) side
  refine ⟨operator, member, isDeclared, realizes, fun side => ⟨fun first isFirst => ⟨fun found => ?_,
    fun visible => ?_⟩, fun name first isFirst => ⟨fun found => ?_, fun undotted => ?_⟩, named? side⟩⟩
  · rintro ⟨other, isOther, hides⟩
    rcases declares.reading_of_portAt member isDeclared (List.mem_of_head? isFirst) found with
      ⟨name, -, same⟩ | ⟨-, visible⟩
    · exact append_point_ne _ _ same.symm
    · obtain ⟨_, -, alsoDeclared, -⟩ := declares.declared other isOther
      exact nomatch alsoDeclared.symm.trans (visible _ hides)
  · have alone : ∀ front, NamedGraph.Hides front definition.id → named.operator? front = none := by
      intro front hides
      by_contra declared
      obtain ⟨id, isDeclared⟩ := Option.ne_none_iff_exists'.1 declared
      obtain ⟨other, isOther, rfl⟩ := declares.only front id isDeclared
      exact visible ⟨other, isOther, hides⟩
    have reads := NamedGraph.endpoint_of_not_hidden alone
    rw [isDeclared] at reads
    rw [declares.portAt_of_endpoint member reads, Operator.portMeant, Operator.meantPort?, isFirst]
  · rcases declares.reading_of_portAt member isDeclared (List.mem_of_find?_eq_some isFirst) found with
      ⟨last, undotted, same⟩ | ⟨same, -⟩
    · have names : name = last := String.toList_inj.1 (by simpa using congrArg String.toList same)
      exact names ▸ undotted
    · exact absurd same (append_point_ne _ _)
  · rw [named? side name undotted, Operator.portMeant, Operator.meantPort?, isFirst]

/-- Operators whose names have points: the second one is hidden by the first one, the third one is not. -/
def pointSample : Document where
  operators := [
    { id := "a", kind := "input", type := some (.named "t") },
    { id := "a.b", kind := "input", type := some (.named "t") },
    { id := "c.d", kind := "extract", inputs := [{ name := "in", type := .named "t" }]
      outputs := [{ name := "o", type := .named "t" }, { name := "o.o", type := .named "t" }] }]
  edges := [{ source := "a.port", target := "c.d" }]

theorem endpoint_addresses_pointSample : ∃ named, pointSample.build = .ok named ∧
    ∃ operator ∈ named.graph.operators, named.operator? "c.d" = some operator.id ∧
      ∃ first ∈ operator.outputs, named.portAt .output "c.d" = .ok first.id ∧
        named.portAt .output "c.d.o" = .ok first.id := by
  let start := (pointSample.operators.foldlM NamedGraph.addOperator {}).toOption.getD {}
  let named := (pointSample.edges.foldlM NamedGraph.addEdge start).toOption.getD {}
  have built : pointSample.operators.foldlM NamedGraph.addOperator {} = .ok start := by rfl
  have connected : pointSample.edges.foldlM NamedGraph.addEdge start = .ok named := by rfl
  obtain ⟨operator, member, isDeclared, ⟨_, isBlueprint, -, shapes⟩, means⟩ :=
    @endpoint_addresses pointSample start named pointSample.edges built connected
      pointSample.operators[2] (by decide)
  cases isBlueprint
  obtain ⟨first, rest, outputs, shape, -⟩ := List.map_eq_cons_iff.1 shapes
  have isNamed : first.name = "o" := congrArg PortShape.name shape
  have visible : ¬ pointSample.Hides "c.d" := by
    rintro ⟨other, isOther, name, undotted, same⟩
    obtain ⟨isC, -⟩ := @NamedGraph.append_point_inj "c" other.id "d" name (by decide) undotted same
    have noC : ∀ other ∈ pointSample.operators, "c" ≠ other.id := by decide
    exact noC other isOther isC
  obtain ⟨whole, port, -⟩ := means .output
  refine ⟨named, by rfl, operator, member, isDeclared, first, outputs ▸ List.mem_cons_self, ?_, ?_⟩
  · exact (whole first (by rw [Operator.portsOn, outputs]; rfl)).2 visible
  · exact (port "o" first (by rw [Operator.portsOn, outputs, List.find?_cons_of_pos]; simp [isNamed])).2
      (by decide)

/-- The name of an operator that is hidden does not mean its first port. -/
theorem not_endpoint_addresses :
    ¬ ∀ (document : Document) (named : NamedGraph),
      document.operators.foldlM NamedGraph.addOperator {} = .ok named →
      ∀ definition ∈ document.operators, ∀ operator ∈ named.graph.operators,
        named.operator? definition.id = some operator.id → ∀ side first,
          (operator.portsOn side).head? = some first → named.portAt side definition.id = .ok first.id := by
  intro addresses
  let named := (pointSample.operators.foldlM NamedGraph.addOperator {}).toOption.getD {}
  have present : ∃ operator ∈ named.graph.operators, named.operator? "a.b" = some operator.id ∧
      operator.outputs.head?.isSome = true := by decide +kernel
  obtain ⟨operator, member, isDeclared, hasOutput⟩ := present
  obtain ⟨first, isFirst⟩ := Option.isSome_iff_exists.1 hasOutput
  have found := addresses pointSample named (by rfl) pointSample.operators[1] (by decide) operator member
    isDeclared .output first isFirst
  have refused : (named.portAt .output "a.b").toOption = none := by rfl
  rw [show named.portAt .output "a.b" = _ from found] at refused
  cases refused

end Document

end StagePlanner
