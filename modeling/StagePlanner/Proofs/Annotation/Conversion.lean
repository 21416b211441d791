import Mathlib.Data.List.TakeWhile
import StagePlanner.Proofs.Annotation.Description
import StagePlanner.Proofs.Fallible

/-!
# Conversions that fail

A plan is converted to its description in two sweeps. The first one enters the names of all stages and
ports into a table and fails at the first name that is missing (`AnnotatedPlan.missingName?`); the
second one describes the stages. So nothing is described yet when a name turns out to be missing, and
when the stages are described nothing can fail anymore: a conversion gives all or nothing
(`AnnotatedPlan.convert_all_or_nothing`).
-/

namespace StagePlanner

open Std (ExtTreeMap)

/-- A result, unless there is a fault. -/
def unlessFault {ε α : Type} (fault? : Option ε) (result : α) : Except ε α :=
  match fault? with
  | some cause => .error cause
  | none => .ok result

/-- A loop whose steps check their items before they change the state fails at the first item that does
not pass. -/
theorem foldlM_eq_unlessFault {ε α β : Type} {step : α → β → Except ε α} {fault? : β → Option ε}
    {update : α → β → α}
    (checked : ∀ state item, step state item = unlessFault (fault? item) (update state item))
    (items : List β) (start : α) :
    items.foldlM step start = unlessFault (items.findSome? fault?) (items.foldl update start) := by
  induction items generalizing start with
  | nil => rfl
  | cons head tail ih =>
    rw [List.foldlM_cons, checked, List.findSome?_cons]
    cases fault? head with
    | some cause => rfl
    | none => exact ih (update start head)

/-- The addresses of the ports of a stage. -/
def Stage.addresses (stage : Stage) : List PortAddress :=
  stage.ports.map fun port => ⟨stage.id, port.id⟩

namespace AnnotatedPlan

variable {ν : Type} (annotated : AnnotatedPlan ν)

/-! ### Missing names -/

/-- What is reported of a port without a name. -/
def missingPort? (stage : Stage) (port : StagePort) : Option Fault :=
  if (annotated.notes.port port.id).name.isSome then none
  else some (.plan (.unnamedPort stage.id port.id))

/-- What is reported of the first name that a stage lacks: its own one, else that of a port. -/
def missingIn? (stage : Stage) : Option Fault :=
  if (annotated.notes.stage stage.id).name.isSome then stage.ports.findSome? (annotated.missingPort? stage)
  else some (.plan (.unnamedStage stage.id))

/-- What is reported of the first name that the plan lacks. -/
def missingName? : Option Fault := annotated.plan.stages.findSome? annotated.missingIn?

variable {annotated}

theorem missingIn?_eq_none_iff {stage : Stage} :
    annotated.missingIn? stage = none ↔ annotated.isNamed stage = true := by
  rw [missingIn?, isNamed]
  cases (annotated.notes.stage stage.id).name with
  | none => simp
  | some name => simp [missingPort?, Option.isSome_iff_ne_none]

theorem missingName?_eq_none_iff :
    annotated.missingName? = none ↔ ∀ stage ∈ annotated.plan.stages, annotated.isNamed stage = true := by
  simp only [missingName?, List.findSome?_eq_none_iff, missingIn?_eq_none_iff]

/-! ### The table of names -/

/-- Enters full names into a table. -/
def enterAll (annotated : AnnotatedPlan ν) (table : ExtTreeMap PortAddress String)
    (addresses : List PortAddress) : ExtTreeMap PortAddress String :=
  addresses.foldl (fun table address => table.insert address (annotated.fullName address)) table

theorem enterStage_eq (table : ExtTreeMap PortAddress String) (stage : Stage) :
    annotated.enterStage table stage =
      unlessFault (annotated.missingIn? stage) (annotated.enterAll table stage.addresses) := by
  cases isVertex : (annotated.notes.stage stage.id).name with
  | none => simp only [enterStage, nameOf, missingIn?, isVertex]; rfl
  | some vertex =>
    have ports : ∀ table port, annotated.enterPort stage vertex table port =
        unlessFault (annotated.missingPort? stage port)
          (table.insert ⟨stage.id, port.id⟩ (annotated.fullName ⟨stage.id, port.id⟩)) := by
      intro table port
      cases isName : (annotated.notes.port port.id).name with
      | none => simp [enterPort, missingPort?, unlessFault, isName]
      | some name => simp [enterPort, missingPort?, unlessFault, fullName, portName?, isVertex, isName]
    simp only [enterStage, nameOf, missingIn?, isVertex, enterAll, Stage.addresses, List.foldl_map]
    exact foldlM_eq_unlessFault ports stage.ports table

theorem enterNames_eq : annotated.enterNames = unlessFault annotated.missingName?
    (annotated.enterAll ∅ (annotated.plan.stages.flatMap Stage.addresses)) := by
  rw [enterNames, foldlM_eq_unlessFault enterStage_eq, enterAll, List.foldl_flatMap]
  rfl

theorem getElem?_enterAll {table : ExtTreeMap PortAddress String} {entered : List PortAddress}
    {address : PortAddress} (known : address ∈ entered ∨ table[address]? = some (annotated.fullName address)) :
    (annotated.enterAll table entered)[address]? = some (annotated.fullName address) := by
  induction entered generalizing table with
  | nil => exact known.resolve_left List.not_mem_nil
  | cons first rest ih =>
    refine ih ?_
    rw [ExtTreeMap.getElem?_insert]
    split
    case isTrue same => exact .inr (by rw [Std.LawfulEqCmp.eq_of_compare same])
    case isFalse other =>
      rcases known with member | found
      · exact .inl ((List.mem_cons.1 member).resolve_left fun same => other (same ▸ Std.ReflCmp.compare_self))
      · exact .inr found

/-- Where nothing lacks a name the table has all full names. -/
theorem getElem?_enterAll_eq (allNamed : ∀ stage ∈ annotated.plan.stages, annotated.isNamed stage = true)
    {address : PortAddress} (hasPort : annotated.plan.HasPort address) :
    (annotated.enterAll ∅ (annotated.plan.stages.flatMap Stage.addresses))[address]? =
      annotated.portName? address.stage address.port := by
  obtain ⟨stage, isStage, port, isPort, rfl⟩ := hasPort
  have named := allNamed stage isStage
  rw [isNamed, Bool.and_eq_true, List.all_eq_true] at named
  obtain ⟨vertex, isVertex⟩ := Option.isSome_iff_exists.1 named.1
  obtain ⟨name, isName⟩ := Option.isSome_iff_exists.1 (named.2 port isPort)
  have full : annotated.portName? stage.id port.id = some (vertex ++ "." ++ name) := by
    simp [portName?, isVertex, isName]
  rw [getElem?_enterAll (.inl (List.mem_flatMap.2 ⟨stage, isStage, List.mem_map_of_mem isPort⟩)),
    fullName, full, Option.getD_some]

/-! ### The descriptions of the stages -/

/-- Describing a stage that has a name adds its description. -/
theorem apply_pushVertex {table : ExtTreeMap PortAddress String} {stage : Stage}
    (named : annotated.isNamed stage = true) (description : PlanDescription ν) :
    (annotated.pushVertex table stage).apply description =
      (.ok (), ⟨description.vertices ++ [annotated.tabledStage table stage]⟩) := by
  rw [isNamed, Bool.and_eq_true] at named
  obtain ⟨name, isName⟩ := Option.isSome_iff_exists.1 named.1
  simp only [pushVertex, nameOf, isName]
  rfl

theorem apply_forM_pushVertex {table : ExtTreeMap PortAddress String} {stages : List Stage}
    (named : ∀ stage ∈ stages, annotated.isNamed stage = true) (description : PlanDescription ν) :
    (stages.forM (annotated.pushVertex table)).apply description =
      (.ok (), ⟨description.vertices ++ stages.map (annotated.tabledStage table)⟩) := by
  induction stages generalizing description with
  | nil => simp [Describing.apply]; rfl
  | cons stage rest ih =>
    obtain ⟨first, others⟩ := List.forall_mem_cons.1 named
    refine (run_run_bind_of_ok (apply_pushVertex first description)).trans ((ih others _).trans ?_)
    rw [List.append_assoc, List.singleton_append, List.map_cons]

/-! ### Whole conversions -/

theorem describe_of_missing {cause : Fault} (missing : annotated.missingName? = some cause) :
    annotated.describe = {} := by
  refine if_neg fun allNamed => ?_
  rw [missingName?_eq_none_iff.2 (List.all_eq_true.1 allNamed)] at missing
  cases missing

theorem describe_of_named (allNamed : annotated.missingName? = none) :
    annotated.describe = ⟨annotated.plan.stages.map annotated.describeStage⟩ :=
  if_pos (List.all_eq_true.2 (missingName?_eq_none_iff.1 allNamed))

/-- A conversion fails at the first missing name, and leaves the description of the plan. -/
theorem apply_convert (addressable : annotated.plan.Addressable) :
    annotated.convert.apply {} = (unlessFault annotated.missingName? (), annotated.describe) := by
  have entered := annotated.enterNames_eq
  cases missing : annotated.missingName? with
  | some cause =>
    rw [missing] at entered
    simp only [convert, entered, unlessFault, describe_of_missing missing]
    rfl
  | none =>
    rw [missing] at entered
    have allNamed := missingName?_eq_none_iff.1 missing
    have described := List.map_congr_left fun stage isStage =>
      tabledStage_eq addressable (fun _ => getElem?_enterAll_eq allNamed) isStage
    simp only [convert, entered, unlessFault, describe_of_named missing]
    exact (apply_forM_pushVertex allNamed {}).trans (by rw [described]; rfl)

/-- A conversion gives all or nothing. If no name is missing it succeeds and describes every stage. If
one is missing it fails with the first one, and nothing is described, however many stages before could
have been. So the stages up to the failure are described only if there are none of them. -/
theorem convert_all_or_nothing (addressable : annotated.plan.Addressable) :
    annotated.convert.apply {} = (unlessFault annotated.missingName? (), annotated.describe) ∧
    ((∀ stage ∈ annotated.plan.stages, annotated.isNamed stage = true) →
      annotated.missingName? = none ∧
        annotated.describe.vertices = annotated.plan.stages.map annotated.describeStage) ∧
    (∀ before stage after, annotated.plan.stages = before ++ stage :: after →
      (∀ earlier ∈ before, annotated.isNamed earlier = true) → annotated.isNamed stage = false →
      ∃ cause, annotated.missingIn? stage = some cause ∧ annotated.missingName? = some cause ∧
        annotated.describe.vertices = []) ∧
    (annotated.describe.vertices =
        (annotated.plan.stages.takeWhile annotated.isNamed).map annotated.describeStage ↔
      (∀ stage ∈ annotated.plan.stages, annotated.isNamed stage = true) ∨
        ∀ stage ∈ annotated.plan.stages.head?, annotated.isNamed stage = false) := by
  refine ⟨apply_convert addressable, fun allNamed => ?_, fun before stage after split named unnamed => ?_, ?_⟩
  · have complete := missingName?_eq_none_iff.2 allNamed
    exact ⟨complete, congrArg PlanDescription.vertices (describe_of_named complete)⟩
  · obtain ⟨cause, found⟩ := Option.ne_none_iff_exists'.1 fun complete =>
      Bool.false_ne_true (unnamed.symm.trans (missingIn?_eq_none_iff.1 complete))
    have first : annotated.missingName? = some cause := List.findSome?_eq_some_iff.2
      ⟨before, stage, after, split, found, fun earlier isEarlier =>
        missingIn?_eq_none_iff.2 (named earlier isEarlier)⟩
    exact ⟨cause, found, first, congrArg PlanDescription.vertices (describe_of_missing first)⟩
  · cases missing : annotated.missingName? with
    | none =>
      have allNamed := missingName?_eq_none_iff.1 missing
      rw [describe_of_named missing, List.takeWhile_eq_self_iff.2 allNamed]
      exact iff_of_true rfl (.inl allNamed)
    | some cause =>
      have incomplete : ¬ ∀ stage ∈ annotated.plan.stages, annotated.isNamed stage = true := fun allNamed =>
        nomatch missing.symm.trans (missingName?_eq_none_iff.2 allNamed)
      rw [describe_of_missing missing, or_iff_right incomplete]
      cases annotated.plan.stages with
      | nil => simp
      | cons first rest => cases isFirst : annotated.isNamed first <;> simp [isFirst]

/-- A plan whose first stage and its port have names, and nothing else. -/
def halfNamed : AnnotatedPlan Nat where
  plan := Plan.sharedSample
  notes :=
    { stages := [(⟨0⟩, { name := some "v0" })]
      ports := [(⟨0⟩, { name := some "o0" })] }

theorem convert_all_or_nothing_halfNamed : halfNamed.plan.Addressable ∧
    (∃ first ∈ halfNamed.plan.stages.head?, halfNamed.isNamed first = true) ∧
    (halfNamed.convert.apply {}).1 = .error (.plan (.unnamedStage ⟨1⟩)) ∧
    (halfNamed.convert.apply {}).2.vertices = [] := by
  have addressable : halfNamed.plan.Addressable := ⟨by decide, by decide⟩
  obtain ⟨outcome, -, stops, -⟩ := convert_all_or_nothing addressable
  obtain ⟨cause, isCause, isFirst, nothing⟩ := stops [halfNamed.plan.stages[0]] halfNamed.plan.stages[1]
    [halfNamed.plan.stages[2]] rfl (by decide) (by decide)
  obtain rfl : Fault.plan (.unnamedStage ⟨1⟩) = cause := Option.some.inj isCause
  rw [outcome, isFirst]
  exact ⟨addressable, ⟨_, rfl, by decide⟩, rfl, nothing⟩

/-- A stage that could be described before the failure is not. -/
theorem not_describe_prefix :
    ¬ ∀ annotated : AnnotatedPlan Nat, annotated.plan.Addressable → annotated.describe.vertices =
      (annotated.plan.stages.takeWhile annotated.isNamed).map annotated.describeStage := by
  intro promised
  have lengths := congrArg List.length (promised halfNamed ⟨by decide, by decide⟩)
  revert lengths
  decide

end AnnotatedPlan

end StagePlanner
