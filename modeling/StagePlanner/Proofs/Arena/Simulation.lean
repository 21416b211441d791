import StagePlanner.Proofs.Arena.Representation

/-!
# Edits of arenas

An edit of the tables and the edit of the graph in them go together step by step: both give the same
result or fail for the same cause, and the tables that the one leaves hold the graph that the other
leaves (`ArenaEdit.Tracks`). So it is for every call (`EditCall.tracks`), also for those that fail
half way.
-/

namespace StagePlanner

namespace ArenaEdit

variable {α β γ δ : Type} {arena : Arena} {graph : Graph}

/-- At an arena that holds a graph, an edit gives what is made of the result of its counterpart, and
the arena that it leaves holds what the counterpart leaves. -/
def Tracks (view : β → α) (edit : ArenaEdit α) (counterpart : Edit β) (arena : Arena)
    (graph : Graph) : Prop :=
  (edit.apply arena).1 = (counterpart.apply graph).1.map view ∧
    (edit.apply arena).2.Represents (counterpart.apply graph).2

theorem apply_bind {edit : ArenaEdit α} {next : α → ArenaEdit γ} :
    (edit >>= next).apply arena =
      match edit.apply arena with
      | (.ok value, changed) => (next value).apply changed
      | (.error fault, changed) => (.error fault, changed) := by
  rcases ends : edit.apply arena with ⟨_ | _, _⟩
  · exact run_run_bind_of_error ends
  · exact run_run_bind_of_ok ends

theorem apply_look {question : Arena → Except GraphFault α} :
    (look question).apply arena =
      match question arena with
      | .ok answer => (.ok answer, arena)
      | .error cause => (.error (.graph cause), arena) := by
  rw [look, apply_bind]
  change (match question arena with
    | .ok answer => (Pure.pure answer : ArenaEdit α)
    | .error cause => refuse cause).apply arena = _
  cases question arena <;> rfl

namespace Tracks

variable {view : β → α} {edit : ArenaEdit α} {counterpart : Edit β} {later : δ → γ}
  {next : α → ArenaEdit γ} {nextCounterpart : β → Edit δ}

theorem pure (represents : arena.Represents graph) (value : β) :
    Tracks view (Pure.pure (view value)) (Pure.pure value) arena graph := ⟨rfl, represents⟩

theorem refuse (represents : arena.Represents graph) (cause : GraphFault) :
    Tracks view (ArenaEdit.refuse cause) (Edit.refuse cause) arena graph := ⟨rfl, represents⟩

theorem bind (first : Tracks view edit counterpart arena graph)
    (rest : ∀ value result changed, result.Represents changed →
      Tracks later (next (view value)) (nextCounterpart value) result changed) :
    Tracks later (edit >>= next) (counterpart >>= nextCounterpart) arena graph := by
  obtain ⟨same, represents⟩ := first
  rw [Tracks, apply_bind, Edit.apply_bind]
  generalize edit.apply arena = ended at same represents ⊢
  generalize counterpart.apply graph = alsoEnded at same represents ⊢
  obtain ⟨outcome, result⟩ := ended
  obtain ⟨_ | value, changed⟩ := alsoEnded
  · obtain rfl : outcome = .error _ := same
    exact ⟨rfl, represents⟩
  · obtain rfl : outcome = .ok (view value) := same
    exact rest value result changed represents

/-- An answer is made of the result. -/
theorem answer {answer : α → γ} (tracks : Tracks view edit counterpart arena graph) :
    Tracks id (edit >>= fun value => Pure.pure (answer value))
      (counterpart >>= fun value => Pure.pure (answer (view value))) arena graph :=
  tracks.bind fun _ _ _ represents => pure represents _

theorem look_bind {question : Arena → Except GraphFault α} {counterquestion : Graph → Except GraphFault β}
    (represents : arena.Represents graph) (same : question arena = (counterquestion graph).map view)
    (rest : ∀ value, counterquestion graph = .ok value →
      Tracks later (next (view value)) (nextCounterpart value) arena graph) :
    Tracks later (look question >>= next) (Edit.look counterquestion >>= nextCounterpart) arena graph := by
  rw [Tracks, apply_bind, Edit.apply_bind, apply_look, Edit.apply_look, same]
  cases answered : counterquestion graph with
  | error cause => exact ⟨rfl, represents⟩
  | ok value => exact rest value answered

theorem look_bind_same {question : Arena → Except GraphFault α}
    {counterquestion : Graph → Except GraphFault α} {nextCounterpart : α → Edit δ}
    (represents : arena.Represents graph) (same : question arena = counterquestion graph)
    (rest : ∀ value, counterquestion graph = .ok value →
      Tracks later (next value) (nextCounterpart value) arena graph) :
    Tracks later (look question >>= next) (Edit.look counterquestion >>= nextCounterpart) arena graph := by
  refine look_bind represents (same.trans ?_) rest
  cases counterquestion graph <;> rfl

/-- The arena may be asked for what the graph is not. -/
theorem look_left {question : Arena → Except GraphFault α} {answer : α} {counterpart : Edit δ}
    (answered : question arena = .ok answer)
    (rest : Tracks later (next answer) counterpart arena graph) :
    Tracks later (look question >>= next) counterpart arena graph := by
  rwa [Tracks, apply_bind, apply_look, answered]

theorem get_bind {next : Arena → ArenaEdit γ} {nextCounterpart : Graph → Edit δ}
    (rest : Tracks later (next arena) (nextCounterpart graph) arena graph) :
    Tracks later (get >>= next) (get >>= nextCounterpart) arena graph := rest

/-- A check that may fail stands before the rest of both edits. -/
theorem check {condition other : Prop} [Decidable condition] [Decidable other] {cause : GraphFault}
    {next : PUnit → ArenaEdit γ} {nextCounterpart : PUnit → Edit δ} (represents : arena.Represents graph)
    (same : condition ↔ other) (rest : Tracks later (next ⟨⟩) (nextCounterpart ⟨⟩) arena graph) :
    Tracks later (if condition then ArenaEdit.refuse cause >>= next else next ⟨⟩)
      (if other then Edit.refuse cause >>= nextCounterpart else nextCounterpart ⟨⟩) arena graph := by
  by_cases holds : other
  · rw [if_pos holds, if_pos (same.2 holds)]
    exact ⟨rfl, represents⟩
  · rw [if_neg holds, if_neg (mt same.1 holds)]
    exact rest

theorem forM_map {ι κ : Type} {items : List ι} {key : ι → κ} {edit : κ → ArenaEdit PUnit}
    {counterpart : ι → Edit PUnit} (represents : arena.Represents graph)
    (each : ∀ item result changed, result.Represents changed →
      Tracks id (edit (key item)) (counterpart item) result changed) :
    Tracks id ((items.map key).forM edit) (items.forM counterpart) arena graph := by
  induction items generalizing arena graph with
  | nil => exact Tracks.pure represents _
  | cons item rest ih =>
    exact (each item arena graph represents).bind fun _ _ _ represents => ih represents

theorem forM {ι : Type} {items : List ι} {edit : ι → ArenaEdit PUnit} {counterpart : ι → Edit PUnit}
    (represents : arena.Represents graph)
    (each : ∀ item result changed, result.Represents changed →
      Tracks id (edit item) (counterpart item) result changed) :
    Tracks id (items.forM edit) (items.forM counterpart) arena graph := by
  have mapped : Tracks id ((items.map fun item => item).forM edit) (items.forM counterpart) arena graph :=
    forM_map represents each
  rwa [List.map_id'] at mapped

end Tracks

/-! ### The edits -/

section Edits

variable (represents : arena.Represents graph)

include represents

theorem tracks_add (blueprint : Blueprint) :
    Tracks id (add blueprint) (Edit.add blueprint) arena graph :=
  ⟨congrArg Except.ok (represents.add_fst blueprint), represents.add blueprint⟩

theorem tracks_remove (id : OperatorId) :
    Tracks Operator.record (remove id) (Edit.remove id) arena graph := by
  refine Tracks.look_bind represents (represents.operator_eq id) fun operator found => ?_
  exact ⟨rfl, represents.without (Graph.mem_of_operator found).1⟩

theorem tracks_connect (source target : PortId) :
    Tracks id (connect source target) (Edit.connect source target) arena graph := by
  rw [Tracks, connect, apply_bind, apply_look, Arena.connected, represents.port_eq, represents.port_eq,
    Edit.connect, Edit.apply_bind, Edit.apply_look]
  cases starts : graph.place source with
  | error cause => exact ⟨rfl, represents⟩
  | ok start =>
    dsimp only
    rw [Edit.apply_bind, Edit.apply_look]
    cases finishes : graph.place target with
    | error cause => exact ⟨rfl, represents⟩
    | ok finish =>
      obtain ⟨isStart, startOwned⟩ := Graph.mem_portsOn_of_place? (Graph.place_eq_ok.1 starts)
      obtain ⟨isFinish, finishOwned⟩ := Graph.mem_portsOn_of_place? (Graph.place_eq_ok.1 finishes)
      obtain ⟨output, startOwner, startSide⟩ := start
      obtain ⟨input, finishOwner, finishSide⟩ := finish
      cases startSide with
      | input => exact ⟨rfl, represents⟩
      | output =>
        cases finishSide with
        | output => exact ⟨rfl, represents⟩
        | input =>
          exact ⟨rfl, represents.link ⟨_, isStart, startOwned⟩ ⟨_, isFinish, finishOwned⟩⟩

theorem tracks_disconnect (source target : PortId) :
    Tracks id (disconnect source target) (Edit.disconnect source target) arena graph := by
  refine ⟨congrArg Except.ok ?_, represents.unlink source target⟩
  exact decide_eq_decide.2 (represents.indexes.targets source target)

theorem tracks_requirePassThrough (blueprint : Blueprint) :
    Tracks id (requirePassThrough blueprint) (Edit.requirePassThrough blueprint) arena graph := by
  rw [requirePassThrough, Edit.requirePassThrough]
  split
  · exact Tracks.pure represents _
  · exact Tracks.refuse represents _

/-- A new operator is put on the edges of a port. -/
theorem tracks_placed {blueprint : Blueprint} {port : PortId}
    {move : PortId → PortId → PortId → ArenaEdit PUnit} {finish : OperatorId → PortId → PortId → ArenaEdit γ}
    {moveOther : PortId → PortId → PortId → Edit PUnit} {finishOther : OperatorId → PortId → PortId → Edit γ}
    (moves : ∀ newInput newOutput other result changed, result.Represents changed →
      Tracks id (move newInput newOutput other) (moveOther newInput newOutput other) result changed)
    (finishes : ∀ created newInput newOutput result changed, result.Represents changed →
      Tracks id (finish created newInput newOutput) (finishOther created newInput newOutput)
        result changed) :
    Tracks id
      (do
        let created ← add blueprint
        let newInput ← look fun arena => arena.inputAt created 0
        let newOutput ← look fun arena => arena.outputAt created 0
        ((← get).opposites port).forM (move newInput newOutput)
        finish created newInput newOutput)
      (do
        let created ← Edit.add blueprint
        let newInput ← Edit.look fun graph => graph.inputAt created 0
        let newOutput ← Edit.look fun graph => graph.outputAt created 0
        ((← get).opposites port).forM (moveOther newInput newOutput)
        finishOther created newInput newOutput) arena graph := by
  refine (tracks_add represents blueprint).bind fun created _ _ represents => ?_
  refine Tracks.look_bind_same represents (represents.inputAt_eq created 0) fun newInput _ => ?_
  refine Tracks.look_bind_same represents (represents.outputAt_eq created 0) fun newOutput _ => ?_
  refine Tracks.get_bind ?_
  rw [represents.opposites_eq]
  exact (Tracks.forM represents (moves newInput newOutput)).bind fun _ _ _ represents =>
    finishes created newInput newOutput _ _ represents

theorem tracks_insertBefore (input : PortId) (blueprint : Blueprint) :
    Tracks id (insertBefore input blueprint) (Edit.insertBefore input blueprint) arena graph := by
  refine (tracks_requirePassThrough represents blueprint).bind fun _ _ _ represents => ?_
  refine Tracks.look_bind represents (represents.port_eq input) fun place _ => ?_
  refine Tracks.check represents Iff.rfl (tracks_placed represents ?_ ?_)
  · exact fun newInput _ producer _ _ represents =>
      (tracks_disconnect represents producer input).bind fun _ _ _ represents =>
        tracks_connect represents producer newInput
  · exact fun created _ newOutput _ _ represents => (tracks_connect represents newOutput input).answer

theorem tracks_insertAfter (output : PortId) (blueprint : Blueprint) :
    Tracks id (insertAfter output blueprint) (Edit.insertAfter output blueprint) arena graph := by
  refine (tracks_requirePassThrough represents blueprint).bind fun _ _ _ represents => ?_
  refine Tracks.look_bind represents (represents.port_eq output) fun place _ => ?_
  refine Tracks.check represents Iff.rfl (tracks_placed represents ?_ ?_)
  · exact fun _ newOutput consumer _ _ represents =>
      (tracks_disconnect represents output consumer).bind fun _ _ _ represents =>
        tracks_connect represents newOutput consumer
  · exact fun created newInput _ _ _ represents => (tracks_connect represents output newInput).answer

theorem tracks_bypass (bypassed : OperatorId) :
    Tracks id (bypass bypassed) (Edit.bypass bypassed) arena graph := by
  refine Tracks.look_bind represents (represents.operator_eq bypassed) fun operator _ => ?_
  have inputs : operator.record.inputs = operator.inputs.map Port.id := rfl
  have outputs : operator.record.outputs = operator.outputs.map Port.id := rfl
  rw [inputs, outputs]
  match operator.inputs, operator.outputs with
  | [input], [output] =>
    refine Tracks.get_bind (Tracks.get_bind ?_)
    rw [represents.opposites_eq, represents.opposites_eq]
    refine (tracks_remove represents bypassed).bind fun _ _ _ represents => ?_
    exact Tracks.forM represents fun producer _ _ represents =>
      Tracks.forM represents fun consumer _ _ represents => tracks_connect represents producer consumer
  | [], _ => exact Tracks.refuse represents _
  | _ :: _ :: _, _ => exact Tracks.refuse represents _
  | [_], [] => exact Tracks.refuse represents _
  | [_], _ :: _ :: _ => exact Tracks.refuse represents _

/-- Edges are carried over from old ports to new ones, pair by pair. -/
theorem tracks_carry {pairs : List (Port × Port)} {edit : PortId → PortId → ArenaEdit PUnit}
    {counterpart : PortId → PortId → Edit PUnit}
    (each : ∀ new other result changed, result.Represents changed →
      Tracks id (edit new other) (counterpart new other) result changed) :
    Tracks id
      ((pairs.map (Prod.map Port.id Port.id)).forM fun (old, new) => do
        ((← get).opposites old).forM (edit new))
      (pairs.forM fun (old, new) => do
        ((← get).opposites old.id).forM (counterpart new.id)) arena graph := by
  refine Tracks.forM_map represents fun pair _ _ represents => Tracks.get_bind ?_
  rw [represents.opposites_eq]
  exact Tracks.forM represents fun other _ _ represents => each _ other _ _ represents

theorem tracks_rebuild (rebuilt : OperatorId) (change : Blueprint → Blueprint) :
    Tracks id (rebuild rebuilt change) (Edit.rebuild rebuilt change) arena graph := by
  refine Tracks.look_bind represents (represents.blueprint_eq rebuilt) fun old found => ?_
  have alsoFound : arena.operator rebuilt = .ok old.record := by
    rw [represents.operator_eq, found]
    rfl
  refine Tracks.look_left alsoFound ?_
  refine Tracks.check represents ?_ ?_
  · simp [Operator.record]
  refine (tracks_add represents (change old.blueprint)).bind fun copy _ _ represents => ?_
  refine Tracks.look_bind represents (represents.operator_eq copy) fun new _ => ?_
  rw [Operator.record, Operator.record, List.zip_map, List.zip_map]
  refine (tracks_carry represents fun input producer _ _ represents =>
    tracks_connect represents producer input).bind fun _ _ _ represents => ?_
  refine (tracks_carry represents fun output consumer _ _ represents =>
    tracks_connect represents output consumer).bind fun _ _ _ represents => ?_
  exact (tracks_remove represents rebuilt).answer

end Edits

end ArenaEdit

/-- What a call does to an arena it does to the graph in it, with the same answer. -/
theorem EditCall.tracks {arena : Arena} {graph : Graph} (represents : arena.Represents graph)
    (call : EditCall) : ArenaEdit.Tracks id call.onArena call.edit arena graph := by
  cases call with
  | add blueprint => exact (ArenaEdit.tracks_add represents blueprint).answer
  | remove subject => exact (ArenaEdit.tracks_remove represents subject).answer
  | connect source target => exact (ArenaEdit.tracks_connect represents source target).answer
  | disconnect source target => exact (ArenaEdit.tracks_disconnect represents source target).answer
  | disconnectAll port => exact ⟨rfl, represents.detach port⟩
  | insertBefore input blueprint => exact (ArenaEdit.tracks_insertBefore represents input blueprint).answer
  | insertAfter output blueprint => exact (ArenaEdit.tracks_insertAfter represents output blueprint).answer
  | bypass subject => exact (ArenaEdit.tracks_bypass represents subject).answer
  | rebuild subject change => exact (ArenaEdit.tracks_rebuild represents subject change).answer

end StagePlanner
