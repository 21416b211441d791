import Mathlib.Order.Defs.Unbundled
import StagePlanner.Preparation.Terminator
import StagePlanner.Proofs.Graph.Editing

/-!
# What an edit leaves when it gives a result

`Edit.Yields` relates the graph before an edit that gives a result with the graph after it. One
lemma for each building block of edits takes a sequence apart. A relation between graphs that may
be chained and that every building block ensures is ensured by the sequence (`Edit.Ensures`).
-/

namespace StagePlanner.Edit

variable {α β : Type} {graph result : Graph}

/-- The edit gives a result and leaves another graph. -/
def Yields (edit : Edit α) (graph : Graph) (value : α) (result : Graph) : Prop :=
  edit.apply graph = (.ok value, result)

theorem Keeps.wellFormed {edit : Edit α} (keeps : Keeps edit) (wellFormed : graph.WellFormed)
    {value : α} (yields : edit.Yields graph value result) : result.WellFormed := by
  have kept := keeps graph wellFormed
  rwa [yields] at kept

theorem yields_pure {given value : α} :
    (pure given : Edit α).Yields graph value result ↔ given = value ∧ graph = result := by
  change ((Except.ok given, graph) : Except Fault α × Graph) = _ ↔ _
  rw [Prod.mk.injEq, Except.ok.injEq]

theorem yields_bind {edit : Edit α} {next : α → Edit β} {value : β} :
    (edit >>= next).Yields graph value result ↔
      ∃ middle changed, edit.Yields graph middle changed ∧
        (next middle).Yields changed value result := by
  rw [Yields, apply_bind]
  constructor
  · intro both
    split at both
    · next middle changed first => exact ⟨middle, changed, first, both⟩
    · cases both
  · rintro ⟨middle, changed, first, second⟩
    rw [first]
    exact second

theorem yields_look {question : Graph → Except GraphFault α} {value : α} :
    (look question).Yields graph value result ↔ question graph = .ok value ∧ graph = result := by
  rw [Yields, apply_look]
  cases question graph with
  | ok answer => simp
  | error cause => simp

theorem yields_get {seen : Graph} :
    (get : Edit Graph).Yields graph seen result ↔ graph = seen ∧ graph = result := by
  change ((Except.ok graph, graph) : Except Fault Graph × Graph) = _ ↔ _
  rw [Prod.mk.injEq, Except.ok.injEq]

theorem yields_modify {change : Graph → Graph} {done : PUnit} :
    (modify change : Edit PUnit).Yields graph done result ↔ change graph = result := by
  change ((Except.ok (), change graph) : Except Fault Unit × Graph) = _ ↔ _
  simp

theorem not_yields_refuse {cause : GraphFault} {value : α} :
    ¬ (refuse cause : Edit α).Yields graph value result := nofun

/-- A check that may refuse stands before the rest of an edit. -/
theorem yields_check {condition : Prop} [Decidable condition] {cause : GraphFault}
    {next : PUnit → Edit α} {value : α} :
    (if condition then refuse cause >>= next else next ()).Yields graph value result ↔
      ¬ condition ∧ (next ()).Yields graph value result := by
  split
  · next refused =>
    simp only [yields_bind, not_yields_refuse, false_and, exists_false, refused, not_true_eq_false]
  · next passed => simp only [passed, not_false_eq_true, true_and]

theorem yields_requirePassThrough {blueprint : Blueprint} {done : Unit} :
    (requirePassThrough blueprint).Yields graph done result ↔
      blueprint.isPassThrough = true ∧ graph = result := by
  rw [requirePassThrough]
  split
  · next passes => simp only [yields_pure, passes, true_and]
  · next refused =>
    simp only [not_yields_refuse, refused, Bool.false_eq_true, false_and]

theorem yields_add {blueprint : Blueprint} {id : OperatorId} :
    (add blueprint).Yields graph id result ↔
      graph.nextOperator = id ∧ (graph.add blueprint).2 = result := by
  change ((Except.ok graph.nextOperator, (graph.add blueprint).2) : Except Fault OperatorId × Graph) =
    _ ↔ _
  rw [Prod.mk.injEq, Except.ok.injEq]

theorem yields_remove {id : OperatorId} {removed : Operator} :
    (remove id).Yields graph removed result ↔
      graph.operator id = .ok removed ∧ graph.without removed = result := by
  simp only [remove, yields_bind, yields_look, yields_modify, yields_pure]
  constructor
  · rintro ⟨operator, _, ⟨found, rfl⟩, _, _, changed, rfl, rfl⟩
    exact ⟨found, changed⟩
  · rintro ⟨found, changed⟩
    exact ⟨removed, graph, ⟨found, rfl⟩, (), _, changed, rfl, rfl⟩

/-- An edge that is added leads from an output to an input. -/
theorem yields_connect {source target : PortId} {done : Unit} :
    (connect source target).Yields graph done result →
      (∃ operator ∈ graph.operators, source ∈ operator.outputs.map Port.id) ∧
        (∃ operator ∈ graph.operators, target ∈ operator.inputs.map Port.id) ∧
        graph.link source target = result := by
  intro yields
  simp only [connect, yields_bind, yields_look, yields_check] at yields
  obtain ⟨start, _, ⟨startFound, rfl⟩, finish, _, ⟨finishFound, rfl⟩, sides, linked⟩ := yields
  simp only [Bool.or_eq_true, decide_eq_true_eq, not_or, not_not, ne_eq] at sides
  obtain ⟨startMember, startOwns⟩ := Graph.mem_portsOn_of_place? (Graph.place_eq_ok.1 startFound)
  obtain ⟨finishMember, finishOwns⟩ := Graph.mem_portsOn_of_place? (Graph.place_eq_ok.1 finishFound)
  rw [sides.1] at startOwns
  rw [sides.2] at finishOwns
  exact ⟨⟨_, startMember, startOwns⟩, ⟨_, finishMember, finishOwns⟩, yields_modify.1 linked⟩

theorem yields_disconnect {source target : PortId} {wasThere : Bool} :
    (disconnect source target).Yields graph wasThere result →
      graph.unlink source target = result := by
  intro yields
  exact congrArg Prod.snd yields

/-! ### Relations along edits -/

/-- Whenever the edit gives a result, the graph that it leaves is related to the one before. -/
def Ensures (relates : Graph → Graph → Prop) (edit : Edit α) : Prop :=
  ∀ graph value result, edit.Yields graph value result → relates graph result

section

variable {relates : Graph → Graph → Prop} [IsPreorder Graph relates]

theorem Ensures.pure (value : α) : Ensures relates (Pure.pure value : Edit α) := by
  intro graph given result yields
  obtain ⟨-, rfl⟩ := yields_pure.1 yields
  exact refl_of relates graph

theorem Ensures.look (question : Graph → Except GraphFault α) :
    Ensures relates (Edit.look question) := by
  intro graph value result yields
  obtain ⟨-, rfl⟩ := yields_look.1 yields
  exact refl_of relates graph

theorem Ensures.get : Ensures relates (MonadState.get : Edit Graph) := by
  intro graph value result yields
  obtain ⟨-, rfl⟩ := yields_get.1 yields
  exact refl_of relates graph

omit [IsPreorder Graph relates] in
theorem Ensures.fail (fault : Fault) : Ensures relates (throw fault : Edit α) := nofun

theorem Ensures.bind {edit : Edit α} {next : α → Edit β} (first : Ensures relates edit)
    (later : ∀ value, Ensures relates (next value)) : Ensures relates (edit >>= next) := by
  intro graph value result yields
  obtain ⟨seen, middle, before, after⟩ := yields_bind.1 yields
  exact trans_of relates (first graph seen middle before) (later seen middle value result after)

theorem Ensures.forM {items : List α} {edit : α → Edit PUnit}
    (each : ∀ item ∈ items, Ensures relates (edit item)) : Ensures relates (items.forM edit) := by
  induction items with
  | nil => exact Ensures.pure _
  | cons item rest ih =>
    exact (each item List.mem_cons_self).bind fun _ =>
      ih fun other member => each other (List.mem_cons_of_mem _ member)

/-- Edits that are counted. -/
theorem Ensures.countChanges {items : List α} {edit : α → Edit Bool}
    (each : ∀ item ∈ items, Ensures relates (edit item)) :
    Ensures relates (countChanges edit items) := by
  induction items with
  | nil => exact Ensures.pure _
  | cons item rest ih =>
    exact (each item List.mem_cons_self).bind fun _ =>
      (ih fun other member => each other (List.mem_cons_of_mem _ member)).bind fun _ =>
        Ensures.pure _

/-- An edit that may be left out. -/
theorem Ensures.unless {condition : Prop} [Decidable condition] {edit : Edit PUnit}
    (ensures : Ensures relates edit) :
    Ensures relates (if condition then edit else Pure.pure PUnit.unit) := by
  split
  · exact ensures
  · exact Ensures.pure _

/-- An edit that may be left out before another one. -/
theorem Ensures.optional {condition : Prop} [Decidable condition] {edit : Edit PUnit}
    {next : Edit α} (ensures : Ensures relates edit) (later : Ensures relates next) :
    Ensures relates (if condition then (do edit; next) else next) := by
  split
  · exact ensures.bind fun _ => later
  · exact later

end

/-- A property of graphs stays true. -/
abbrev Preserves (holds : Graph → Prop) (edit : Edit α) : Prop :=
  edit.Ensures fun graph result => holds graph → holds result

instance (holds : Graph → Prop) : IsPreorder Graph fun graph result => holds graph → holds result where
  refl _ := id
  trans _ _ _ first second before := second (first before)

end StagePlanner.Edit
