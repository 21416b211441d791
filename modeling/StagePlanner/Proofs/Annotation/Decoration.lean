import StagePlanner.Annotation.Decoration
import StagePlanner.Proofs.Assembly.Descent
import StagePlanner.Proofs.Keyed

/-!
# What decoration attaches

A plan that has an order is decorated exactly when all of its stages and ports have roles
(`Planner.decorate_succeeds_iff`): no other pass of decoration can fail. The notes that are left
then tell the role of every port (`Notes.TellsRoles`) and have the names that were attached
(`Planner.exists_named_of_decorate`), since the later passes attach notes of other kinds only.
-/

namespace StagePlanner

/-! ### Passes that succeed -/

namespace Annotating

variable {ν : Type}

theorem apply_bind {α β : Type} {annotating : Annotating ν α} {next : α → Annotating ν β}
    {notes : Notes ν} :
    (annotating >>= next).apply notes =
      match annotating.apply notes with
      | (.ok value, changed) => (next value).apply changed
      | (.error fault, changed) => (.error fault, changed) := by
  rcases ends : annotating.apply notes with ⟨_ | _, _⟩
  · exact run_run_bind_of_error ends
  · exact run_run_bind_of_ok ends

/-- Whatever the notes are, the addition succeeds, and the notes before are related to those after. -/
def Completes (relates : Notes ν → Notes ν → Prop) (annotating : Annotating ν Unit) : Prop :=
  ∀ notes, ∃ result, annotating.apply notes = (.ok (), result) ∧ relates notes result

section

variable {relates : Notes ν → Notes ν → Prop}

theorem Completes.modify {change : Notes ν → Notes ν} (related : ∀ notes, relates notes (change notes)) :
    Completes relates (modify change) := fun notes => ⟨change notes, rfl, related notes⟩

theorem Completes.ofExcept {α : Type} {outcome : Except Fault α} {value : α}
    {next : α → Annotating ν Unit} (isOk : outcome = .ok value) (later : Completes relates (next value)) :
    Completes relates (Annotating.ofExcept outcome >>= next) := by
  subst isOk
  exact later

variable [IsPreorder (Notes ν) relates]

theorem Completes.pure : Completes relates (Pure.pure () : Annotating ν Unit) :=
  fun notes => ⟨notes, rfl, refl_of relates notes⟩

theorem Completes.bind {annotating next : Annotating ν Unit} (first : Completes relates annotating)
    (later : Completes relates next) : Completes relates (do annotating; next) := by
  intro notes
  obtain ⟨changed, isChanged, before⟩ := first notes
  obtain ⟨result, isResult, after⟩ := later changed
  refine ⟨result, ?_, trans_of relates before after⟩
  rw [apply_bind, isChanged]
  exact isResult

omit [IsPreorder (Notes ν) relates] in
theorem Completes.either {condition : Prop} [Decidable condition] {left right : Annotating ν Unit}
    (first : Completes relates left) (second : Completes relates right) :
    Completes relates (if condition then left else right) := by
  split
  · exact first
  · exact second

/-- A pass that may be left out before another one. -/
theorem Completes.optional {condition : Prop} [Decidable condition] {annotating next : Annotating ν Unit}
    (completes : Completes relates annotating) (later : Completes relates next) :
    Completes relates (if condition then (do annotating; next) else next) :=
  .either (completes.bind later) later

end

end Annotating

/-! ### Notes under identifiers -/

section Attaching

variable {σ ι η β : Type} [DecidableEq ι] {note : σ → ι → η} {edit : σ → ι → (η → η) → σ}
  (edits : ∀ state id change other, note (edit state id change) other =
    if other = id then change (note state id) else note state other)

include edits

/-- What attaching leaves alone stays. -/
theorem note_attached_keeps {γ : Type} (read : η → γ) {attach : β → η → η}
    (keeps : ∀ value noted, read (attach value noted) = read noted) (entries : List (ι × β))
    (state : σ) (id : ι) :
    read (note (entries.foldl (fun state entry => edit state entry.1 (attach entry.2)) state) id) =
      read (note state id) := by
  induction entries generalizing state with
  | nil => rfl
  | cons entry rest ih =>
    rw [List.foldl_cons, ih, edits]
    split
    · next same => rw [keeps, same]
    · rfl

/-- A value is attached under an identifier when no other one is attached there. -/
theorem note_attached (read : η → Option β) {attach : β → η → η}
    (reads : ∀ value noted, read (attach value noted) = some value) {entries : List (ι × β)}
    {state : σ} {id : ι} {value : β} (unique : ∀ other, (id, other) ∈ entries → other = value)
    (attached : (id, value) ∈ entries ∨ read (note state id) = some value) :
    read (note (entries.foldl (fun state entry => edit state entry.1 (attach entry.2)) state) id) =
      some value := by
  induction entries generalizing state with
  | nil => exact attached.resolve_left List.not_mem_nil
  | cons entry rest ih =>
    rw [List.foldl_cons]
    refine ih (fun other member => unique other (List.mem_cons_of_mem _ member)) ?_
    rw [edits]
    by_cases same : id = entry.1
    · have isValue : entry.2 = value := unique entry.2 (same ▸ List.mem_cons_self)
      right
      rw [if_pos same, reads, isValue]
    · rw [if_neg same]
      refine attached.imp_left fun member => ?_
      exact (List.mem_cons.1 member).resolve_left fun isEntry => same (congrArg Prod.fst isEntry)

end Attaching

namespace Notes

variable {ν β : Type} {notes : Notes ν}

theorem stage_editStage (notes : Notes ν) (id : StageId) (change : StageNotes → StageNotes)
    (other : StageId) :
    (notes.editStage id change).stage other =
      if other = id then change (notes.stage id) else notes.stage other := by
  rw [stage, editStage, lookup_replaced]
  split <;> rfl

theorem port_editPort (notes : Notes ν) (id : StagePortId) (change : PortNotes ν → PortNotes ν)
    (other : StagePortId) :
    (notes.editPort id change).port other =
      if other = id then change (notes.port id) else notes.port other := by
  rw [port, editPort, lookup_replaced]
  split <;> rfl

theorem port_attachStages {attach : β → StageNotes → StageNotes} {entries : List (StageId × β)}
    {id : StagePortId} : (notes.attachStages attach entries).port id = notes.port id := by
  induction entries generalizing notes with
  | nil => rfl
  | cons entry rest ih => exact ih

theorem stage_attachPorts {attach : β → PortNotes ν → PortNotes ν}
    {entries : List (StagePortId × β)} {id : StageId} :
    (notes.attachPorts attach entries).stage id = notes.stage id := by
  induction entries generalizing notes with
  | nil => rfl
  | cons entry rest ih => exact ih

theorem attachPorts_keeps {γ : Type} (read : PortNotes ν → γ) {attach : β → PortNotes ν → PortNotes ν}
    (keeps : ∀ value noted, read (attach value noted) = read noted)
    (entries : List (StagePortId × β)) (id : StagePortId) :
    read ((notes.attachPorts attach entries).port id) = read (notes.port id) :=
  note_attached_keeps port_editPort read keeps entries notes id

theorem attachPorts_attaches (read : PortNotes ν → Option β) {attach : β → PortNotes ν → PortNotes ν}
    (reads : ∀ value noted, read (attach value noted) = some value)
    {entries : List (StagePortId × β)} {id : StagePortId} {value : β}
    (unique : ∀ other, (id, other) ∈ entries → other = value)
    (attached : (id, value) ∈ entries ∨ read (notes.port id) = some value) :
    read ((notes.attachPorts attach entries).port id) = some value :=
  note_attached port_editPort read reads unique attached

theorem attachStages_keeps {γ : Type} (read : StageNotes → γ) {attach : β → StageNotes → StageNotes}
    (keeps : ∀ value noted, read (attach value noted) = read noted)
    (entries : List (StageId × β)) (id : StageId) :
    read ((notes.attachStages attach entries).stage id) = read (notes.stage id) :=
  note_attached_keeps stage_editStage read keeps entries notes id

theorem attachStages_attaches (read : StageNotes → Option β) {attach : β → StageNotes → StageNotes}
    (reads : ∀ value noted, read (attach value noted) = some value)
    {entries : List (StageId × β)} {id : StageId} {value : β}
    (unique : ∀ other, (id, other) ∈ entries → other = value)
    (attached : (id, value) ∈ entries ∨ read (notes.stage id) = some value) :
    read ((notes.attachStages attach entries).stage id) = some value :=
  note_attached stage_editStage read reads unique attached

/-- The roles of all ports stay. -/
def SameRoles (notes result : Notes ν) : Prop :=
  ∀ id, (result.port id).inputRole = (notes.port id).inputRole ∧
    (result.port id).outputRole = (notes.port id).outputRole

instance : IsPreorder (Notes ν) SameRoles where
  refl _ _ := ⟨rfl, rfl⟩
  trans _ _ _ first second id :=
    ⟨(second id).1.trans (first id).1, (second id).2.trans (first id).2⟩

theorem sameRoles_attachPorts {attach : β → PortNotes ν → PortNotes ν}
    (keeps : ∀ value noted, (attach value noted).inputRole = noted.inputRole ∧
      (attach value noted).outputRole = noted.outputRole)
    (entries : List (StagePortId × β)) : notes.SameRoles (notes.attachPorts attach entries) :=
  fun id => ⟨attachPorts_keeps PortNotes.inputRole (fun value noted => (keeps value noted).1) entries id,
    attachPorts_keeps PortNotes.outputRole (fun value noted => (keeps value noted).2) entries id⟩

theorem sameRoles_attachStages {attach : β → StageNotes → StageNotes}
    (entries : List (StageId × β)) : notes.SameRoles (notes.attachStages attach entries) :=
  fun id => by rw [port_attachStages]; exact ⟨rfl, rfl⟩

/-- The names of all stages and ports stay. -/
structure SameNames (notes result : Notes ν) : Prop where
  stages : ∀ id, (result.stage id).name = (notes.stage id).name
  ports : ∀ id, (result.port id).name = (notes.port id).name

instance : IsPreorder (Notes ν) SameNames where
  refl _ := ⟨fun _ => rfl, fun _ => rfl⟩
  trans _ _ _ first second := ⟨fun id => (second.stages id).trans (first.stages id),
    fun id => (second.ports id).trans (first.ports id)⟩

/-- The roles of all ports and the names of all stages and ports stay. -/
structure SameLabels (notes result : Notes ν) : Prop where
  roles : notes.SameRoles result
  names : notes.SameNames result

instance : IsPreorder (Notes ν) SameLabels where
  refl notes := ⟨refl_of SameRoles notes, refl_of SameNames notes⟩
  trans _ _ _ first second :=
    ⟨trans_of SameRoles first.roles second.roles, trans_of SameNames first.names second.names⟩

theorem sameLabels_attachPorts {attach : β → PortNotes ν → PortNotes ν}
    (keeps : ∀ value noted, (attach value noted).inputRole = noted.inputRole ∧
      (attach value noted).outputRole = noted.outputRole ∧ (attach value noted).name = noted.name)
    (entries : List (StagePortId × β)) : notes.SameLabels (notes.attachPorts attach entries) where
  roles := sameRoles_attachPorts (fun value noted => (keeps value noted).imp_right And.left) entries
  names := {
    stages id := by rw [stage_attachPorts]
    ports := attachPorts_keeps PortNotes.name (fun value noted => (keeps value noted).2.2) entries }

theorem sameLabels_attachStages {attach : β → StageNotes → StageNotes}
    (keeps : ∀ value noted, (attach value noted).name = noted.name)
    (entries : List (StageId × β)) : notes.SameLabels (notes.attachStages attach entries) where
  roles := sameRoles_attachStages entries
  names := {
    stages := attachStages_keeps StageNotes.name keeps entries
    ports id := by rw [port_attachStages] }

/-- The volumes of all ports stay. -/
def SameSizes (notes result : Notes ν) : Prop :=
  ∀ id, (result.port id).size = (notes.port id).size

instance : IsPreorder (Notes ν) SameSizes where
  refl _ _ := rfl
  trans _ _ _ first second id := (second id).trans (first id)

theorem sameSizes_attachStages {attach : β → StageNotes → StageNotes}
    (entries : List (StageId × β)) : notes.SameSizes (notes.attachStages attach entries) :=
  fun id => by rw [port_attachStages]

/-- The notes tell the role of every port of a plan. -/
structure TellsRoles (notes : Notes ν) (plan : Plan) : Prop where
  inputs : ∀ stage ∈ plan.stages, ∀ port ∈ stage.inputs, ∃ role,
    stage.inputRole port = .ok role ∧ (notes.port port.id).inputRole = some role
  outputs : ∀ stage ∈ plan.stages, ∀ port ∈ stage.outputs, ∃ role,
    stage.outputRole port = .ok role ∧ (notes.port port.id).outputRole = some role

theorem TellsRoles.mono {plan : Plan} {result : Notes ν} (tells : notes.TellsRoles plan)
    (same : notes.SameRoles result) : result.TellsRoles plan where
  inputs stage isStage port isInput := by
    rw [(same port.id).1]
    exact tells.inputs stage isStage port isInput
  outputs stage isStage port isOutput := by
    rw [(same port.id).2]
    exact tells.outputs stage isStage port isOutput

end Notes

/-! ### Roles -/

theorem labelled_eq_ok {ι α β : Type} {key : α → ι} {compute : α → Except Fault β} {item : α}
    {entry : ι × β} :
    labelled key compute item = .ok entry ↔ compute item = .ok entry.2 ∧ key item = entry.1 := by
  rw [labelled, bind_eq_ok_iff]
  constructor
  · rintro ⟨value, computed, same⟩
    obtain rfl := Except.ok.inj same
    exact ⟨computed, rfl⟩
  · rintro ⟨computed, same⟩
    exact ⟨entry.2, computed, congrArg Except.ok (Prod.ext same rfl)⟩

/-- What a computation gives for the items of a list, with their keys. -/
theorem mem_of_mapM_labelled {ι α β : Type} {key : α → ι} {compute : α → Except Fault β}
    {items : List α} {entries : List (ι × β)} (succeeds : items.mapM (labelled key compute) = .ok entries)
    {id : ι} {value : β} :
    (id, value) ∈ entries ↔ ∃ item ∈ items, compute item = .ok value ∧ key item = id := by
  have paired := mapM_eq_ok_iff.1 succeeds
  constructor
  · intro member
    obtain ⟨item, isItem, computed⟩ := exists_partner paired member
    exact ⟨item, isItem, labelled_eq_ok.1 computed⟩
  · rintro ⟨item, isItem, computed, rfl⟩
    obtain ⟨entry, isEntry, alsoComputed⟩ := exists_partner_of_mem paired isItem
    obtain ⟨sameValue, sameKey⟩ := labelled_eq_ok.1 alsoComputed
    obtain rfl : value = entry.2 := Except.ok.inj (computed.symm.trans sameValue)
    exact sameKey ▸ isEntry

namespace Stage

variable {stage : Stage} {prepared : Graph}

/-- A stage has roles when each of its ports has one. -/
theorem exists_roles (inputs : ∀ port ∈ stage.inputs, ∃ role, stage.inputRole port = .ok role)
    (outputs : ∀ port ∈ stage.outputs, ∃ role, stage.outputRole port = .ok role) :
    ∃ roles, stage.roles prepared = .ok roles := by
  have markers : ∀ port ∈ stage.inputs, ∃ marker, stage.requireMarker port = .ok marker ∧ True := by
    intro port isInput
    obtain ⟨role, isRole⟩ := inputs port isInput
    obtain ⟨marker, isMarker, -⟩ := bind_eq_ok_iff.1 isRole
    exact ⟨marker, isMarker, trivial⟩
  obtain ⟨required, isRequired, -⟩ := exists_mapM markers
  have labels : ∀ {β : Type} (compute : StagePort → Except Fault β) {ports : List StagePort},
      (∀ port ∈ ports, ∃ role, compute port = .ok role) →
        ∃ entries, ports.mapM (labelled StagePort.id compute) = .ok entries := by
    intro β compute ports each
    have labelled : ∀ port ∈ ports, ∃ entry,
        labelled StagePort.id compute port = .ok entry ∧ True := by
      intro port isPort
      obtain ⟨role, isRole⟩ := each port isPort
      exact ⟨(port.id, role), labelled_eq_ok.2 ⟨isRole, rfl⟩, trivial⟩
    obtain ⟨entries, isEntries, -⟩ := exists_mapM labelled
    exact ⟨entries, isEntries⟩
  obtain ⟨inputRoles, areInputs⟩ := labels _ inputs
  obtain ⟨outputRoles, areOutputs⟩ := labels _ outputs
  rw [roles, role, isRequired, areInputs, areOutputs]
  exact ⟨_, rfl⟩

theorem roles_eq_ok {roles : StageRoles} (succeeds : stage.roles prepared = .ok roles) :
    stage.inputs.mapM (labelled StagePort.id stage.inputRole) = .ok roles.inputs ∧
      stage.outputs.mapM (labelled StagePort.id stage.outputRole) = .ok roles.outputs := by
  obtain ⟨role, -, succeeds⟩ := bind_eq_ok_iff.1 succeeds
  obtain ⟨inputs, areInputs, succeeds⟩ := bind_eq_ok_iff.1 succeeds
  obtain ⟨outputs, areOutputs, succeeds⟩ := bind_eq_ok_iff.1 succeeds
  cases succeeds
  exact ⟨areInputs, areOutputs⟩

end Stage

namespace Plan

open Annotating Notes

variable {ν : Type} {plan : Plan} {prepared : Graph}

/-- What is computed for the ports on one side of the stages is attached to these ports. -/
theorem attaches_computed {β : Type} (sound : plan.Sound) (distinct : plan.DistinctPorts)
    {side : Stage → List StagePort} (arePorts : ∀ stage, ∀ port ∈ side stage, port ∈ stage.ports)
    {compute : Stage → StagePort → Except Fault β} {entries : List (StagePortId × β)}
    (listed : ∀ id value, (id, value) ∈ entries ↔ ∃ stage ∈ plan.stages, ∃ port ∈ side stage,
      compute stage port = .ok value ∧ port.id = id)
    {read : PortNotes ν → Option β} {attach : β → PortNotes ν → PortNotes ν}
    (reads : ∀ value noted, read (attach value noted) = some value) (notes : Notes ν) {stage : Stage}
    (isStage : stage ∈ plan.stages) {port : StagePort} (isPort : port ∈ side stage) {value : β}
    (computed : compute stage port = .ok value) :
    read ((notes.attachPorts attach entries).port port.id) = some value := by
  refine attachPorts_attaches read reads (fun other member => ?_)
    (.inl ((listed port.id value).2 ⟨stage, isStage, port, isPort, computed, rfl⟩))
  obtain ⟨another, isAnother, twin, isTwin, alsoComputed, same⟩ := (listed port.id other).1 member
  obtain rfl := distinct another isAnother twin (arePorts another twin isTwin) stage isStage port
    (arePorts stage port isPort) same
  obtain rfl := (sound.stages another isStage).proper.port_unique_of_id (arePorts another twin isTwin)
    (arePorts another port isPort) same
  exact Except.ok.inj (alsoComputed.symm.trans computed)

/-- The entries for one side of the stages of a plan, from the roles of these stages. -/
theorem mem_flatMap_roles {β : Type} {roles : List StageRoles}
    (isRoles : (plan.stages.mapM fun stage => stage.roles prepared) = .ok roles)
    {side : Stage → List StagePort} {entries : StageRoles → List (StagePortId × β)}
    {compute : Stage → StagePort → Except Fault β}
    (computed : ∀ stage found, stage.roles prepared = .ok found →
      (side stage).mapM (labelled StagePort.id (compute stage)) = .ok (entries found))
    (id : StagePortId) (value : β) :
    (id, value) ∈ roles.flatMap entries ↔ ∃ stage ∈ plan.stages, ∃ port ∈ side stage,
      compute stage port = .ok value ∧ port.id = id := by
  have paired := mapM_eq_ok_iff.1 isRoles
  rw [List.mem_flatMap]
  constructor
  · rintro ⟨found, isFound, member⟩
    obtain ⟨stage, isStage, same⟩ := exists_partner paired isFound
    exact ⟨stage, isStage, (mem_of_mapM_labelled (computed stage found same)).1 member⟩
  · rintro ⟨stage, isStage, has⟩
    obtain ⟨found, isFound, same⟩ := exists_partner_of_mem paired isStage
    exact ⟨found, isFound, (mem_of_mapM_labelled (computed stage found same)).2 has⟩

/-- Where stages have roles their ports have. -/
theorem exists_role {β : Type} {roles : List StageRoles}
    (isRoles : (plan.stages.mapM fun stage => stage.roles prepared) = .ok roles)
    {side : Stage → List StagePort} {entries : StageRoles → List (StagePortId × β)}
    {compute : Stage → StagePort → Except Fault β}
    (computed : ∀ stage found, stage.roles prepared = .ok found →
      (side stage).mapM (labelled StagePort.id (compute stage)) = .ok (entries found))
    {stage : Stage} (isStage : stage ∈ plan.stages) {port : StagePort} (isPort : port ∈ side stage) :
    ∃ role, compute stage port = .ok role := by
  obtain ⟨found, -, same⟩ := exists_partner_of_mem (mapM_eq_ok_iff.1 isRoles) isStage
  obtain ⟨entry, -, isEntry⟩ :=
    exists_partner_of_mem (mapM_eq_ok_iff.1 (computed stage found same)) isPort
  exact ⟨entry.2, (labelled_eq_ok.1 isEntry).1⟩

/-- The roles that are attached to the ports of a sound plan are those that they have. -/
theorem tellsRoles_attachRoles (sound : plan.Sound) (distinct : plan.DistinctPorts)
    {roles : List StageRoles} (isRoles : (plan.stages.mapM fun stage => stage.roles prepared) = .ok roles)
    (notes : Notes ν) : ∃ result, (plan.attachRoles prepared).apply notes = (.ok (), result) ∧
      result.TellsRoles plan := by
  have inputs : ∀ (stage : Stage) found, stage.roles prepared = .ok found →
      stage.inputs.mapM (labelled StagePort.id stage.inputRole) = .ok found.inputs :=
    fun _ _ same => (Stage.roles_eq_ok same).1
  have outputs : ∀ (stage : Stage) found, stage.roles prepared = .ok found →
      stage.outputs.mapM (labelled StagePort.id stage.outputRole) = .ok found.outputs :=
    fun _ _ same => (Stage.roles_eq_ok same).2
  refine ⟨_, by rw [attachRoles, isRoles]; rfl, fun stage isStage port isInput => ?_,
    fun stage isStage port isOutput => ?_⟩
  · obtain ⟨role, isRole⟩ := exists_role isRoles inputs isStage isInput
    refine ⟨role, isRole, ?_⟩
    -- The roles of outputs are attached after those of inputs.
    exact (attachPorts_keeps PortNotes.inputRole (by exact fun _ _ => rfl) _ _).trans
      (attaches_computed sound distinct (fun _ _ => List.mem_append_left _)
        (mem_flatMap_roles isRoles inputs) (by exact fun _ _ => rfl) _ isStage isInput isRole)
  · obtain ⟨role, isRole⟩ := exists_role isRoles outputs isStage isOutput
    exact ⟨role, isRole, attaches_computed sound distinct (fun _ _ => List.mem_append_right _)
      (mem_flatMap_roles isRoles outputs) (by exact fun _ _ => rfl) _ isStage isOutput isRole⟩

/-! ### Further passes -/

theorem completes_attachNames {order : List StageId} (isOrder : plan.order = .ok order) :
    Completes (ν := ν) SameRoles plan.attachNames := by
  have names : plan.stageNames = .ok (namedByPosition "v" order) := by
    rw [Plan.stageNames, isOrder]
    rfl
  refine .ofExcept names (.bind (.modify fun notes => sameRoles_attachStages _) (.modify fun notes => ?_))
  exact sameRoles_attachPorts (by exact fun _ _ => ⟨rfl, rfl⟩) _

theorem completes_attachBroadcasts : Completes (ν := ν) SameLabels plan.attachBroadcasts :=
  .modify fun _ => sameLabels_attachPorts (by exact fun _ _ => ⟨rfl, rfl, rfl⟩) _

theorem exists_iterations {order : List StageId} (isOrder : plan.order = .ok order) :
    ∃ table, plan.iterations = .ok table := by
  have ordered := order_eq_ok.1 isOrder
  obtain ⟨table, swept, -⟩ := exists_foldlM plan.iterationStep order [] {} (fun _ _ => True) trivial
    fun before id after table split _ => by
      have listed : id ∈ order := split ▸ List.mem_append_right _ List.mem_cons_self
      obtain ⟨stage, isStage, same⟩ := mem_stageIds.1
        (mem_vertices_dependencies.1 ((DependencyGraph.mem_of_orderBy ordered).1 listed))
      rw [iterationStep, Plan.stage]
      cases found : plan.stage? id with
      | some stage => exact ⟨_, rfl, trivial⟩
      | none => exact absurd same (by simpa using List.find?_eq_none.1 found stage isStage)
  refine ⟨table, ?_⟩
  rw [iterations, isOrder]
  exact swept

theorem completes_attachIteration {order : List StageId} (isOrder : plan.order = .ok order) :
    Completes (ν := ν) SameLabels plan.attachIteration := by
  obtain ⟨table, isTable⟩ := exists_iterations isOrder
  refine .ofExcept isTable (.bind (.modify fun notes => ?_) (.bind (.modify fun notes => ?_)
    (.modify fun notes => ⟨fun _ => ⟨rfl, rfl⟩, fun _ => rfl, fun _ => rfl⟩)))
  · exact sameLabels_attachPorts (by exact fun _ _ => ⟨rfl, rfl, rfl⟩) _
  · exact sameLabels_attachStages (by exact fun _ _ => rfl) _

theorem keepsSizes_attachIteration {order : List StageId} (isOrder : plan.order = .ok order) :
    Completes (ν := ν) SameSizes plan.attachIteration := by
  obtain ⟨table, isTable⟩ := exists_iterations isOrder
  refine .ofExcept isTable (.bind (.modify fun notes => ?_) (.bind (.modify fun notes => ?_)
    (.modify fun notes => fun _ => rfl)))
  · exact fun id => attachPorts_keeps PortNotes.size (by exact fun _ _ => rfl) _ id
  · exact sameSizes_attachStages _

theorem completes_attachParameters : Completes (ν := ν) SameLabels plan.attachParameters :=
  .modify fun _ => ⟨fun _ => ⟨rfl, rfl⟩, fun _ => rfl, fun _ => rfl⟩

theorem completes_attachGraphStatistics :
    Completes (ν := ν) SameLabels plan.attachGraphStatistics :=
  .bind (.modify fun _ => sameLabels_attachStages (by exact fun _ _ => rfl) _)
    (.modify fun _ => ⟨fun _ => ⟨rfl, rfl⟩, fun _ => rfl, fun _ => rfl⟩)

theorem completes_attachPlanStatistics :
    Completes (ν := ν) SameLabels plan.attachPlanStatistics :=
  .modify fun _ => ⟨fun _ => ⟨rfl, rfl⟩, fun _ => rfl, fun _ => rfl⟩

end Plan

namespace Planner

open Annotating Notes

variable {ν : Type} [Volume ν] (planner : Planner ν) {plan : Plan} {prepared : Graph}

theorem completes_attachSizes : Completes SameLabels (planner.attachSizes plan prepared) :=
  .modify fun _ => sameLabels_attachPorts (by exact fun _ _ => ⟨rfl, rfl, rfl⟩) _

theorem completes_attachPartitionSizes :
    Completes SameLabels (planner.attachPartitionSizes plan) :=
  .modify fun _ => sameLabels_attachPorts (by exact fun _ _ => ⟨rfl, rfl, rfl⟩) _

theorem keepsSizes_attachPartitionSizes :
    Completes SameSizes (planner.attachPartitionSizes plan) :=
  .modify fun _ id => attachPorts_keeps PortNotes.size (by exact fun _ _ => rfl) _ id

/-- Decoration attaches the roles, then the names, and then nothing that would change either. -/
theorem exists_decorate (sound : plan.Sound) (distinct : plan.DistinctPorts) {order : List StageId}
    (isOrder : plan.order = .ok order) {roles : List StageRoles}
    (isRoles : (plan.stages.mapM fun stage => stage.roles prepared) = .ok roles) (notes : Notes ν) :
    ∃ roled named result, roled.TellsRoles plan ∧ plan.attachNames.apply roled = (.ok (), named) ∧
      roled.SameRoles named ∧ named.SameLabels result ∧
      (planner.decorate plan prepared).apply notes = (.ok (), result) := by
  obtain ⟨roled, attached, tells⟩ := Plan.tellsRoles_attachRoles sound distinct isRoles notes
  obtain ⟨named, isNamed, sameRoles⟩ := Plan.completes_attachNames isOrder roled
  have further : ∃ result, (planner.decorate plan prepared).apply notes = (.ok (), result) ∧
      named.SameLabels result := by
    rw [decorate, apply_bind, attached]
    dsimp only
    rw [apply_bind, isNamed]
    dsimp only
    refine Completes.bind Plan.completes_attachBroadcasts ?_ named
    refine .either (.bind planner.completes_attachSizes
      (.bind planner.completes_attachPartitionSizes ?_)) ?_
    all_goals
      refine .optional (Plan.completes_attachIteration isOrder) ?_
      refine .optional Plan.completes_attachParameters ?_
      refine .optional Plan.completes_attachGraphStatistics ?_
      exact .either Plan.completes_attachPlanStatistics .pure
  obtain ⟨result, isResult, sameLabels⟩ := further
  exact ⟨roled, named, result, tells, isNamed, sameRoles, sameLabels, isResult⟩

/-- A sound plan that has an order is decorated when all its stages have roles, and then the notes
tell them. -/
theorem decorate_succeeds (sound : plan.Sound) (distinct : plan.DistinctPorts) {order : List StageId}
    (isOrder : plan.order = .ok order) {roles : List StageRoles}
    (isRoles : (plan.stages.mapM fun stage => stage.roles prepared) = .ok roles) (notes : Notes ν) :
    ∃ result, (planner.decorate plan prepared).apply notes = (.ok (), result) ∧
      result.TellsRoles plan := by
  obtain ⟨_, _, result, tells, -, sameRoles, sameLabels, isResult⟩ :=
    planner.exists_decorate sound distinct isOrder isRoles notes
  exact ⟨result, isResult, (tells.mono sameRoles).mono sameLabels.roles⟩

/-- A plan is only decorated when all its stages have roles. -/
theorem exists_roles_of_decorate {notes result : Notes ν}
    (succeeds : (planner.decorate plan prepared).apply notes = (.ok (), result)) :
    ∃ roles, (plan.stages.mapM fun stage => stage.roles prepared) = .ok roles := by
  cases isRoles : plan.stages.mapM fun stage => stage.roles prepared with
  | ok roles => exact ⟨roles, rfl⟩
  | error fault =>
    have failed : (plan.attachRoles prepared).apply notes = (.error fault, notes) := by
      rw [Plan.attachRoles, isRoles]
      rfl
    rw [decorate, apply_bind, failed] at succeeds
    cases succeeds

/-- The volumes that a decorated plan has for its ports, if it has any, are sums over their origins. -/
theorem size_of_decorate (sound : plan.Sound) (distinct : plan.DistinctPorts) {order : List StageId}
    (isOrder : plan.order = .ok order) (estimates : planner.isEnabled .sizeEstimation = true)
    {notes result : Notes ν}
    (succeeds : (planner.decorate plan prepared).apply notes = (.ok (), result)) {stage : Stage}
    (isStage : stage ∈ plan.stages) {port : StagePort} (isPort : port ∈ stage.ports) :
    (result.port port.id).size =
      some (port.volume? prepared (planner.estimator.estimate prepared)) := by
  obtain ⟨roles, isRoles⟩ := planner.exists_roles_of_decorate succeeds
  obtain ⟨roled, attached, -⟩ := Plan.tellsRoles_attachRoles sound distinct isRoles notes
  obtain ⟨named, isNamed, -⟩ := Plan.completes_attachNames isOrder roled
  obtain ⟨told, isTold, -⟩ := Plan.completes_attachBroadcasts named
  -- Nothing that is attached later is a volume.
  have later : Completes SameSizes (do
      planner.attachPartitionSizes plan
      if planner.isEnabled .iterativeExtension then plan.attachIteration
      if planner.isEnabled .parameterDetection then plan.attachParameters
      if planner.isEnabled .graphStatistics then plan.attachGraphStatistics
      if planner.isEnabled .planStatistics then plan.attachPlanStatistics) := by
    refine .bind planner.keepsSizes_attachPartitionSizes ?_
    refine .optional (Plan.keepsSizes_attachIteration isOrder) ?_
    refine .optional (.modify fun _ _ => rfl) ?_
    refine .optional (.bind (.modify fun _ => sameSizes_attachStages _) (.modify fun _ _ => rfl)) ?_
    exact .either (.modify fun _ _ => rfl) .pure
  let sized := told.attachPorts (fun volume noted => { noted with size := some volume })
    (plan.volumes prepared (planner.estimator.estimate prepared))
  obtain ⟨final, isFinal, same⟩ := later sized
  have ends : (planner.decorate plan prepared).apply notes = (.ok (), final) := by
    rw [decorate, apply_bind, attached]
    dsimp only
    rw [apply_bind, isNamed]
    dsimp only
    rw [apply_bind, isTold, if_pos estimates]
    exact isFinal
  obtain rfl : final = result := congrArg Prod.snd (ends.symm.trans succeeds)
  rw [same]
  refine attachPorts_attaches PortNotes.size (by exact fun _ _ => rfl) (fun other listed => ?_) (.inl ?_)
  · obtain ⟨twin, isTwin, entry⟩ := List.mem_map.1 listed
    obtain ⟨another, isAnother, isTwin⟩ := List.mem_flatMap.1 isTwin
    obtain ⟨sameId, rfl⟩ := Prod.mk.inj entry
    obtain rfl := distinct another isAnother twin isTwin stage isStage port isPort sameId
    obtain rfl := (sound.stages another isStage).proper.port_unique_of_id isTwin isPort sameId
    rfl
  · exact List.mem_map.2 ⟨port, List.mem_flatMap.2 ⟨stage, isStage, isPort⟩, rfl⟩

/-- The names of a decorated plan are those that were attached. -/
theorem exists_named_of_decorate (sound : plan.Sound) (distinct : plan.DistinctPorts)
    {order : List StageId} (isOrder : plan.order = .ok order) {notes result : Notes ν}
    (succeeds : (planner.decorate plan prepared).apply notes = (.ok (), result)) :
    ∃ roled named, plan.attachNames.apply roled = (.ok (), named) ∧ named.SameNames result := by
  obtain ⟨roles, isRoles⟩ := planner.exists_roles_of_decorate succeeds
  obtain ⟨roled, named, other, -, isNamed, -, sameLabels, isOther⟩ :=
    planner.exists_decorate sound distinct isOrder isRoles notes
  obtain rfl : other = result := congrArg Prod.snd (isOther.symm.trans succeeds)
  exact ⟨roled, named, isNamed, sameLabels.names⟩

end Planner

end StagePlanner
