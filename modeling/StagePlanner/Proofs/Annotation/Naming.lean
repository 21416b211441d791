import Mathlib.Data.List.Basic
import StagePlanner.Description
import StagePlanner.Proofs.Annotation.Decoration

/-!
# Names

The name of a stage tells its place in the order of the plan, the name of a port its side and its
number there, and the full name of a port tells all three (`fullName_inj`). So when the names of a
plan are attached (`Notes.Names`), ports are told apart by their full names
(`Notes.Names.address_unique`).
-/

namespace StagePlanner

/-! ### Texts -/

theorem digits_injective {left right : Nat}
    (same : (toString left).toList = (toString right).toList) : left = right := by
  simpa [Nat.toString_eq_ofList_toDigits] using
    congrArg (fun digits => Nat.ofDigitChars 10 digits 0) same

theorem dot_not_mem_digits (number : Nat) : '.' ∉ (toString number).toList := by
  intro member
  rw [Nat.toString_eq_repr, Nat.toList_repr] at member
  exact absurd (Nat.isDigit_of_mem_toDigits (by decide) (by decide) member) (by decide)

theorem positionName_injective (letter : String) : Function.Injective (positionName letter) := by
  intro left right same
  refine digits_injective ?_
  simpa [positionName] using congrArg String.toList same

/-- A full name tells the place of the stage, the side of the port and its number there. -/
theorem fullName_inj {stage other port twin : Nat} {letter side : String}
    (isLetter : letter = "i" ∨ letter = "o") (isSide : side = "i" ∨ side = "o")
    (same : positionName "v" stage ++ "." ++ positionName letter port =
      positionName "v" other ++ "." ++ positionName side twin) :
    stage = other ∧ letter = side ∧ port = twin := by
  have split : ('v' :: (toString stage).toList) ++ '.' :: (positionName letter port).toList =
      ('v' :: (toString other).toList) ++ '.' :: (positionName side twin).toList := by
    simpa [positionName] using congrArg String.toList same
  -- The dot in the middle is the only one, so the texts before it and behind it agree.
  have before : '.' ∉ 'v' :: (toString stage).toList := by
    simpa using dot_not_mem_digits stage
  have behind : '.' ∉ (positionName letter port).toList := by
    rcases isLetter with rfl | rfl <;> simpa [positionName] using dot_not_mem_digits port
  obtain ⟨stages, -, ports⟩ := (List.append_cons_inj_of_notMem before behind).1 split
  have places : stage = other := digits_injective (List.cons.inj stages).2
  rcases isLetter with rfl | rfl <;> rcases isSide with rfl | rfl
  · exact ⟨places, rfl, positionName_injective "i" (String.toList_inj.1 ports)⟩
  · simp [positionName] at ports
  · simp [positionName] at ports
  · exact ⟨places, rfl, positionName_injective "o" (String.toList_inj.1 ports)⟩

theorem mem_namedByPosition {α : Type} {letter : String} {items : List α} {item : α} {name : String} :
    (item, name) ∈ namedByPosition letter items ↔
      ∃ position, items[position]? = some item ∧ positionName letter position = name := by
  simp [namedByPosition, List.mem_zipIdx_iff_getElem?, and_comm]

/-- An item that is listed once has one position. -/
theorem position_unique {α : Type} {items : List α} (distinct : items.Nodup) {item : α}
    {left right : Nat} (isLeft : items[left]? = some item) (isRight : items[right]? = some item) :
    left = right :=
  (List.getElem?_inj (List.getElem?_eq_some_iff.1 isLeft).1 distinct).1 (isLeft.trans isRight.symm)

/-! ### Numbers of ports -/

namespace Stage

variable {stage : Stage} {letter side : String} {number other : Nat} {port twin : StagePort}

/-- A port has a number among the inputs or among the outputs of its stage. -/
def Numbers (stage : Stage) (letter : String) (number : Nat) (port : StagePort) : Prop :=
  letter = "i" ∧ (stage.numbered stage.inputs)[number]? = some port ∨
    letter = "o" ∧ (stage.numbered stage.outputs)[number]? = some port

theorem perm_numbered (stage : Stage) (ports : List StagePort) : (stage.numbered ports).Perm ports :=
  List.mergeSort_perm _ _

theorem Numbers.isSide (numbers : stage.Numbers letter number port) : letter = "i" ∨ letter = "o" :=
  numbers.imp And.left And.left

theorem Numbers.mem (numbers : stage.Numbers letter number port) : port ∈ stage.ports := by
  rcases numbers with ⟨-, isInput⟩ | ⟨-, isOutput⟩
  · exact List.mem_append_left _ ((perm_numbered _ _).mem_iff.1 (List.mem_of_getElem? isInput))
  · exact List.mem_append_right _ ((perm_numbered _ _).mem_iff.1 (List.mem_of_getElem? isOutput))

theorem exists_numbers (isPort : port ∈ stage.ports) : ∃ letter number, stage.Numbers letter number port := by
  rcases List.mem_append.1 isPort with isInput | isOutput
  · obtain ⟨number, found⟩ := List.mem_iff_getElem?.1 ((perm_numbered stage _).mem_iff.2 isInput)
    exact ⟨"i", number, .inl ⟨rfl, found⟩⟩
  · obtain ⟨number, found⟩ := List.mem_iff_getElem?.1 ((perm_numbered stage _).mem_iff.2 isOutput)
    exact ⟨"o", number, .inr ⟨rfl, found⟩⟩

/-- A side and a number there belong to one port. -/
theorem Numbers.port_unique (numbers : stage.Numbers letter number port)
    (others : stage.Numbers letter number twin) : port = twin := by
  rcases numbers with ⟨rfl, isInput⟩ | ⟨rfl, isOutput⟩
  · rcases others with ⟨-, alsoInput⟩ | ⟨impossible, -⟩
    · exact Option.some.inj (isInput.symm.trans alsoInput)
    · exact absurd impossible (by decide)
  · rcases others with ⟨impossible, -⟩ | ⟨-, alsoOutput⟩
    · exact absurd impossible (by decide)
    · exact Option.some.inj (isOutput.symm.trans alsoOutput)

/-- Under distinct identifiers a port has one side and one number there. -/
theorem Numbers.unique (distinct : (stage.ports.map StagePort.id).Nodup)
    (numbers : stage.Numbers letter number port) (others : stage.Numbers side other twin)
    (same : port.id = twin.id) : letter = side ∧ number = other := by
  obtain rfl : port = twin := List.inj_on_of_nodup_map distinct numbers.mem others.mem same
  have ports := List.nodup_append.1 distinct.of_map
  have onOneSide : port ∈ stage.inputs → port ∉ stage.outputs :=
    fun isInput isOutput => ports.2.2 port isInput port isOutput rfl
  have input : ∀ {number : Nat}, (stage.numbered stage.inputs)[number]? = some port →
      port ∈ stage.inputs := fun found => (perm_numbered _ _).mem_iff.1 (List.mem_of_getElem? found)
  have output : ∀ {number : Nat}, (stage.numbered stage.outputs)[number]? = some port →
      port ∈ stage.outputs := fun found => (perm_numbered _ _).mem_iff.1 (List.mem_of_getElem? found)
  rcases numbers with ⟨rfl, first⟩ | ⟨rfl, first⟩ <;> rcases others with ⟨rfl, second⟩ | ⟨rfl, second⟩
  · exact ⟨rfl, position_unique ((perm_numbered _ _).nodup_iff.2 ports.1) first second⟩
  · exact absurd (output second) (onOneSide (input first))
  · exact absurd (output first) (onOneSide (input second))
  · exact ⟨rfl, position_unique ((perm_numbered _ _).nodup_iff.2 ports.2.1) first second⟩

theorem mem_portNames {id : StagePortId} {name : String} :
    (id, name) ∈ stage.portNames ↔ ∃ letter number port, stage.Numbers letter number port ∧
      port.id = id ∧ positionName letter number = name := by
  simp only [portNames, List.mem_append, mem_namedByPosition, List.getElem?_map, Option.map_eq_some_iff,
    Numbers]
  constructor
  · rintro (⟨number, ⟨port, found, rfl⟩, rfl⟩ | ⟨number, ⟨port, found, rfl⟩, rfl⟩)
    · exact ⟨"i", number, port, .inl ⟨rfl, found⟩, rfl, rfl⟩
    · exact ⟨"o", number, port, .inr ⟨rfl, found⟩, rfl, rfl⟩
  · rintro ⟨letter, number, port, ⟨rfl, found⟩ | ⟨rfl, found⟩, rfl, rfl⟩
    · exact .inl ⟨number, ⟨port, found, rfl⟩, rfl⟩
    · exact .inr ⟨number, ⟨port, found, rfl⟩, rfl⟩

end Stage

/-! ### Names that are attached -/

/-- The notes name every stage by its place in an order and every port by its side and number. -/
structure Notes.Names {ν : Type} (notes : Notes ν) (plan : Plan) (order : List StageId) : Prop where
  stages : ∀ place id, order[place]? = some id → (notes.stage id).name = some (positionName "v" place)
  ports : ∀ stage ∈ plan.stages, ∀ letter number port, stage.Numbers letter number port →
    (notes.port port.id).name = some (positionName letter number)

namespace Plan

open Notes

variable {ν : Type} {plan : Plan} {notes named : Notes ν} {order : List StageId}

theorem stageNames_eq_ok (isOrder : plan.order = .ok order) :
    plan.stageNames = .ok (namedByPosition "v" order) := by
  rw [stageNames, isOrder]
  rfl

/-- Names are attached when the plan has an order. -/
theorem exists_order_of_attachNames (succeeds : plan.attachNames.apply notes = (.ok (), named)) :
    ∃ order, plan.order = .ok order := by
  cases isOrder : plan.order with
  | ok order => exact ⟨order, rfl⟩
  | error fault =>
    have failed : plan.attachNames.apply notes = (.error fault, notes) := by
      rw [attachNames, stageNames, isOrder]
      rfl
    rw [failed] at succeeds
    cases succeeds

theorem apply_attachNames (isOrder : plan.order = .ok order) (notes : Notes ν) :
    plan.attachNames.apply notes = (.ok (),
      (notes.attachStages (fun name notes => { notes with name := some name })
        (namedByPosition "v" order)).attachPorts
          (fun name notes => { notes with name := some name }) plan.portNames) := by
  rw [attachNames, stageNames_eq_ok isOrder]
  rfl

/-- The name of a stage is its place in the order. -/
theorem stage_name_of_attachNames (distinct : order.Nodup) (isOrder : plan.order = .ok order)
    (succeeds : plan.attachNames.apply notes = (.ok (), named)) {place : Nat} {id : StageId}
    (isPlace : order[place]? = some id) : (named.stage id).name = some (positionName "v" place) := by
  obtain rfl := congrArg Prod.snd ((apply_attachNames isOrder notes).symm.trans succeeds)
  rw [stage_attachPorts]
  refine attachStages_attaches StageNotes.name (by exact fun _ _ => rfl) (fun other member => ?_)
    (.inl (mem_namedByPosition.2 ⟨place, isPlace, rfl⟩))
  obtain ⟨elsewhere, alsoPlace, rfl⟩ := mem_namedByPosition.1 member
  rw [position_unique distinct isPlace alsoPlace]

theorem mem_portNames {id : StagePortId} {name : String} :
    (id, name) ∈ plan.portNames ↔ ∃ stage ∈ plan.stages, ∃ letter number port,
      stage.Numbers letter number port ∧ port.id = id ∧ positionName letter number = name := by
  simp only [portNames, List.mem_flatMap, Stage.mem_portNames]

namespace Addressable

variable (addressable : plan.Addressable)

include addressable

theorem distinctPorts {stage : Stage} (isStage : stage ∈ plan.stages) :
    (stage.ports.map StagePort.id).Nodup :=
  (List.nodup_flatMap.1 addressable.ports).1 stage isStage

/-- Ports with one identifier are one port. -/
theorem port_unique {left right : Stage} (isLeft : left ∈ plan.stages) (isRight : right ∈ plan.stages)
    {first second : StagePort} (isFirst : first ∈ left.ports) (isSecond : second ∈ right.ports)
    (same : first.id = second.id) : left = right ∧ first = second := by
  have stages : left = right :=
    distinctPorts_of_nodup addressable.ports left isLeft first isFirst right isRight second isSecond same
  subst stages
  exact ⟨rfl, List.inj_on_of_nodup_map (addressable.distinctPorts isLeft) isFirst isSecond same⟩

/-- No input has the identifier of an output. -/
theorem input_ne_output {left right : Stage} (isLeft : left ∈ plan.stages) (isRight : right ∈ plan.stages)
    {input output : StagePort} (isInput : input ∈ left.inputs) (isOutput : output ∈ right.outputs) :
    input.id ≠ output.id := by
  intro same
  obtain ⟨rfl, rfl⟩ := addressable.port_unique isLeft isRight (List.mem_append_left _ isInput)
    (List.mem_append_right _ isOutput) same
  have distinct := addressable.distinctPorts isLeft
  rw [Stage.ports, List.map_append] at distinct
  exact (List.nodup_append.1 distinct).2.2 _ (List.mem_map_of_mem isInput) _
    (List.mem_map_of_mem isOutput) rfl

/-- Attaching names gives every stage and every port the name that it should have. -/
theorem names_of_attachNames (isOrder : plan.order = .ok order)
    (succeeds : plan.attachNames.apply notes = (.ok (), named)) : named.Names plan order where
  stages place id isPlace := stage_name_of_attachNames
    ((perm_of_order addressable.stages isOrder).nodup_iff.2 addressable.stages) isOrder succeeds isPlace
  ports stage isStage letter number port numbers := by
    obtain rfl := congrArg Prod.snd ((apply_attachNames isOrder notes).symm.trans succeeds)
    refine attachPorts_attaches PortNotes.name (by exact fun _ _ => rfl)
      (fun name member => ?_) (.inl (mem_portNames.2 ⟨stage, isStage, letter, number, port, numbers, rfl, rfl⟩))
    obtain ⟨other, isOther, side, place, twin, others, same, rfl⟩ := mem_portNames.1 member
    obtain ⟨rfl, -⟩ := addressable.port_unique isOther isStage others.mem numbers.mem same
    obtain ⟨rfl, rfl⟩ := others.unique (addressable.distinctPorts isOther) numbers same
    rfl

end Addressable

end Plan

namespace Notes.Names

variable {ν : Type} {plan : Plan} {notes later : Notes ν} {order : List StageId}

theorem mono (names : notes.Names plan order) (same : notes.SameNames later) : later.Names plan order where
  stages place id isPlace := (same.stages id).trans (names.stages place id isPlace)
  ports stage isStage letter number port numbers :=
    (same.ports port.id).trans (names.ports stage isStage letter number port numbers)

variable (names : notes.Names plan order)

include names

/-- The full name of a port tells where it is. -/
theorem portName?_eq_some {stage : Stage} (isStage : stage ∈ plan.stages) {place : Nat}
    (isPlace : order[place]? = some stage.id) {letter : String} {number : Nat} {port : StagePort}
    (numbers : stage.Numbers letter number port) :
    ({ plan, notes } : AnnotatedPlan ν).portName? stage.id port.id =
      some (positionName "v" place ++ "." ++ positionName letter number) := by
  simp only [AnnotatedPlan.portName?, names.stages place stage.id isPlace,
    names.ports stage isStage letter number port numbers]
  rfl

end Notes.Names

end StagePlanner
