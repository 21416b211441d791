import Mathlib.Data.List.Forall2
import Mathlib.Data.List.Pairwise

/-!
# Sequences of steps that may fail

Loops over lists whose steps may fail succeed exactly when each step does. A loop that threads a
state is followed by an invariant over the items that it has passed.
-/

namespace StagePlanner

variable {ε α β : Type}

theorem exists_of_isOk {outcome : Except ε α} (succeeds : outcome.isOk = true) :
    ∃ result, outcome = .ok result := by
  cases outcome with
  | error cause => cases succeeds
  | ok result => exact ⟨result, rfl⟩

/-- What is measured of a result was measured of some result. -/
theorem exists_of_map_toOption {outcome : Except ε α} {measure : α → β} {value : β}
    (computed : (outcome.map measure).toOption = some value) :
    ∃ result, outcome = .ok result ∧ measure result = value := by
  cases outcome with
  | ok result => exact ⟨result, rfl, Option.some.inj computed⟩
  | error cause => nomatch computed

/-- Two steps after each other give a result when both do. -/
theorem bind_eq_ok_iff {first : Except ε α} {next : α → Except ε β} {result : β} :
    (first >>= next) = .ok result ↔ ∃ middle, first = .ok middle ∧ next middle = .ok result := by
  cases first with
  | error cause => exact ⟨nofun, fun ⟨_, wrong, _⟩ => nomatch wrong⟩
  | ok middle =>
    exact ⟨fun succeeds => ⟨middle, rfl, succeeds⟩, fun ⟨_, same, succeeds⟩ => Except.ok.inj same ▸ succeeds⟩

/-- They fail when the first one does, or the second one. -/
theorem bind_eq_error_iff {first : Except ε α} {next : α → Except ε β} {cause : ε} :
    (first >>= next) = .error cause ↔
      first = .error cause ∨ ∃ middle, first = .ok middle ∧ next middle = .error cause := by
  cases first with
  | error earlier =>
    exact ⟨fun failed => .inl (congrArg _ (Except.error.inj failed)),
      fun either => either.elim (fun same => congrArg _ (Except.error.inj same))
        fun ⟨_, wrong, _⟩ => nomatch wrong⟩
  | ok middle =>
    exact ⟨fun failed => .inr ⟨middle, rfl, failed⟩,
      fun either => either.elim nofun fun ⟨_, same, failed⟩ => Except.ok.inj same ▸ failed⟩

theorem map_eq_ok_iff {outcome : Except ε α} {change : α → β} {result : β} :
    outcome.map change = .ok result ↔ ∃ value, outcome = .ok value ∧ change value = result := by
  cases outcome with
  | error cause => exact ⟨nofun, fun ⟨_, wrong, _⟩ => nomatch wrong⟩
  | ok value => simp [Except.map]

section Changes

variable {σ : Type} {first : ExceptT ε (StateM σ) α} {next : α → ExceptT ε (StateM σ) β}
  {state changed : σ}

/-- After a step that changes a state and gives a result, the next one starts from what it leaves. -/
theorem run_run_bind_of_ok {value : α} (succeeds : first.run.run state = (.ok value, changed)) :
    (first >>= next).run.run state = (next value).run.run changed := by
  rw [ExceptT.run_bind, StateT.run_bind, succeeds]
  rfl

/-- After one that fails there is no next one, and the changes stay. -/
theorem run_run_bind_of_error {cause : ε} (fails : first.run.run state = (.error cause, changed)) :
    (first >>= next).run.run state = (.error cause, changed) := by
  rw [ExceptT.run_bind, StateT.run_bind, fails]
  rfl

end Changes

/-- Two continuations that agree on what the first step gives agree after it. -/
theorem bind_congr_of_ok {first : Except ε α} {next other : α → Except ε β}
    (agree : ∀ result, first = .ok result → next result = other result) :
    first >>= next = first >>= other := by
  cases first with
  | error cause => rfl
  | ok result => exact agree result rfl

/-- Every item of the second of two paired lists has a partner. -/
theorem exists_partner {related : α → β → Prop} {items : List α} {results : List β}
    (paired : List.Forall₂ related items results) {result : β} (member : result ∈ results) :
    ∃ item ∈ items, related item result := by
  induction paired with
  | nil => cases member
  | @cons item found _ _ first _ ih =>
    rcases List.mem_cons.1 member with rfl | later
    · exact ⟨item, List.mem_cons_self, first⟩
    · obtain ⟨partner, isItem, both⟩ := ih later
      exact ⟨partner, List.mem_cons_of_mem _ isItem, both⟩

/-- Every item of the first of two paired lists has a partner. -/
theorem exists_partner_of_mem {related : α → β → Prop} {items : List α} {results : List β}
    (paired : List.Forall₂ related items results) {item : α} (member : item ∈ items) :
    ∃ result ∈ results, related item result := by
  have flipped : List.Forall₂ (flip related) results items := paired.flip
  exact exists_partner flipped member

/-- Items of which each has a partner can be paired. -/
theorem exists_partners {related : α → β → Prop} {items : List α}
    (each : ∀ item ∈ items, ∃ result, related item result) :
    ∃ results, List.Forall₂ related items results := by
  induction items with
  | nil => exact ⟨[], .nil⟩
  | cons item rest ih =>
    obtain ⟨result, first⟩ := each item List.mem_cons_self
    obtain ⟨results, others⟩ := ih fun other member => each other (List.mem_cons_of_mem _ member)
    exact ⟨result :: results, .cons first others⟩

/-- A pairing through partners in between is the composition of two pairings. -/
theorem exists_between {γ : Type} {first : α → γ → Prop} {second : γ → β → Prop} {items : List α}
    {results : List β}
    (paired : List.Forall₂ (fun item result => ∃ middle, first item middle ∧ second middle result)
      items results) :
    ∃ middles, List.Forall₂ first items middles ∧ List.Forall₂ second middles results := by
  induction paired with
  | nil => exact ⟨[], .nil, .nil⟩
  | cons both _ ih =>
    obtain ⟨middle, isFirst, isSecond⟩ := both
    obtain ⟨middles, firsts, seconds⟩ := ih
    exact ⟨middle :: middles, .cons isFirst firsts, .cons isSecond seconds⟩

/-- What holds of any two items of a list holds of any two partners of them. -/
theorem pairwise_of_partners {related : α → β → Prop} {items : List α} {results : List β}
    {among : α → α → Prop} {between : β → β → Prop} (paired : List.Forall₂ related items results)
    (pairwise : results.Pairwise between)
    (carried : ∀ {left right : α} {first second : β}, related left first → related right second →
      between first second → among left right) : items.Pairwise among := by
  induction paired with
  | nil => exact .nil
  | cons first others ih =>
    obtain ⟨head, tail⟩ := List.pairwise_cons.1 pairwise
    refine List.pairwise_cons.2 ⟨fun other member => ?_, ih tail⟩
    obtain ⟨partner, isPartner, both⟩ := exists_partner_of_mem others member
    exact carried first both (head partner isPartner)

/-- Lists whose items are paired with the same items are paired with each other. -/
theorem paired_of_paired {γ : Type} {first : α → γ → Prop} {second : β → γ → Prop} {items : List α}
    {results : List β} {middles : List γ} (left : List.Forall₂ first items middles)
    (right : List.Forall₂ second results middles) :
    List.Forall₂ (fun item result => ∃ middle ∈ middles, first item middle ∧ second result middle)
      items results := by
  induction left generalizing results with
  | nil =>
    cases right
    exact .nil
  | cons isFirst _ ih =>
    cases right with
    | cons isSecond others =>
      refine .cons ⟨_, List.mem_cons_self, isFirst, isSecond⟩ ((ih others).imp fun _ _ both => ?_)
      obtain ⟨middle, member, linked⟩ := both
      exact ⟨middle, List.mem_cons_of_mem _ member, linked⟩

/-- If a property holds of one result only, it holds of one item only when items have it like their
results. -/
theorem existsUnique_of_partners {holds : α → Prop} {agrees : β → Prop} {items : List α}
    {results : List β}
    (paired : List.Forall₂ (fun item result => holds item ↔ agrees result) items results)
    (distinct : results.Nodup) (only : ∃! result, result ∈ results ∧ agrees result) :
    ∃! item, item ∈ items ∧ holds item := by
  obtain ⟨result, ⟨isResult, agreed⟩, unique⟩ := only
  have apart : results.Pairwise fun left right => agrees left → ¬ agrees right := by
    refine List.Pairwise.imp_of_mem (fun {left right} isLeft isRight differ leftAgrees rightAgrees => ?_)
      distinct
    exact differ ((unique left ⟨isLeft, leftAgrees⟩).trans (unique right ⟨isRight, rightAgrees⟩).symm)
  have itemsApart : items.Pairwise fun left right => holds left → ¬ holds right := by
    refine pairwise_of_partners paired apart fun isLeft isRight separate leftHolds rightHolds => ?_
    exact separate (isLeft.1 leftHolds) (isRight.1 rightHolds)
  have symmetric : Std.Symm fun left right : α => holds left → ¬ holds right :=
    ⟨fun _ _ separate left right => separate right left⟩
  obtain ⟨item, isItem, same⟩ := exists_partner paired isResult
  refine ⟨item, ⟨isItem, same.2 agreed⟩, fun other ⟨isOther, otherHolds⟩ => ?_⟩
  by_contra different
  exact itemsApart.forall isOther isItem different otherHolds (same.2 agreed)

/-- A list of results is the outcome of a loop exactly when each of them is that of its item. -/
theorem mapM_eq_ok_iff {step : α → Except ε β} {items : List α} {results : List β} :
    items.mapM step = .ok results ↔
      List.Forall₂ (fun item result => step item = .ok result) items results := by
  induction items generalizing results with
  | nil =>
    rw [List.mapM_nil, List.forall₂_nil_left_iff]
    exact ⟨fun same => (Except.ok.inj same).symm, fun same => congrArg _ same.symm⟩
  | cons item rest ih =>
    rw [List.mapM_cons]
    constructor
    · intro succeeds
      obtain ⟨result, first, succeeds⟩ := bind_eq_ok_iff.1 succeeds
      obtain ⟨more, others, succeeds⟩ := bind_eq_ok_iff.1 succeeds
      cases succeeds
      exact .cons first (ih.1 others)
    · intro paired
      cases paired with
      | cons first others => rw [first, ih.2 others]; rfl

/-- A loop in which every step succeeds pairs the items with results. -/
theorem exists_mapM {step : α → Except ε β} {related : α → β → Prop} {items : List α}
    (succeeds : ∀ item ∈ items, ∃ result, step item = .ok result ∧ related item result) :
    ∃ results, items.mapM step = .ok results ∧ List.Forall₂ related items results := by
  obtain ⟨results, both⟩ := exists_partners succeeds
  exact ⟨results, mapM_eq_ok_iff.2 (both.imp fun _ _ => And.left), both.imp fun _ _ => And.right⟩

/-- A loop fails as some step does. -/
theorem exists_of_mapM_error {step : α → Except ε β} {items : List α} {cause : ε}
    (failed : items.mapM step = .error cause) : ∃ item ∈ items, step item = .error cause := by
  induction items with
  | nil => cases failed
  | cons item rest ih =>
    rw [List.mapM_cons] at failed
    rcases bind_eq_error_iff.1 failed with first | ⟨result, -, later⟩
    · exact ⟨item, List.mem_cons_self, first⟩
    · rcases bind_eq_error_iff.1 later with others | ⟨results, -, wrong⟩
      · obtain ⟨other, listed, isOther⟩ := ih others
        exact ⟨other, List.mem_cons_of_mem _ listed, isOther⟩
      · cases wrong

/-- A loop without results succeeds exactly when each step does. -/
theorem forM_eq_ok_iff {step : α → Except ε Unit} {items : List α} :
    items.forM step = .ok () ↔ ∀ item ∈ items, step item = .ok () := by
  induction items with
  | nil => simp [List.forM]; rfl
  | cons item rest ih =>
    rw [List.forall_mem_cons, ← ih]
    change (step item >>= fun _ => rest.forM step) = _ ↔ _
    cases step item with
    | error cause =>
      constructor
      · intro succeeds; cases succeeds
      · intro both; cases both.1
    | ok result => exact ⟨fun succeeds => ⟨rfl, succeeds⟩, fun both => both.2⟩

/-- A loop over a state succeeds when every step does under an invariant over the items passed, and
then the invariant holds for all items. -/
theorem exists_foldlM (step : α → β → Except ε α) (items passed : List β) (start : α)
    (invariant : List β → α → Prop) (initially : invariant passed start)
    (next : ∀ before item after state, items = before ++ item :: after →
      invariant (passed ++ before) state →
      ∃ result, step state item = .ok result ∧ invariant (passed ++ before ++ [item]) result) :
    ∃ result, items.foldlM step start = .ok result ∧ invariant (passed ++ items) result := by
  induction items generalizing passed start with
  | nil => exact ⟨start, rfl, by rwa [List.append_nil]⟩
  | cons item rest ih =>
    obtain ⟨middle, first, holds⟩ :=
      next [] item rest start rfl (by rwa [List.append_nil])
    rw [List.append_nil] at holds
    obtain ⟨result, others, atEnd⟩ := ih (passed ++ [item]) middle holds fun before other after state split now => by
      have later := next (item :: before) other after state (by rw [split, List.cons_append])
      simp only [List.append_assoc, List.cons_append] at later now ⊢
      exact later now
    refine ⟨result, ?_, by rwa [List.append_assoc, List.singleton_append] at atEnd⟩
    rw [List.foldlM_cons, first]
    exact others

/-- What every step keeps that succeeds holds at the end of a loop that succeeds. -/
theorem of_foldlM {step : α → β → Except ε α} {holds : α → Prop}
    (keeps : ∀ state item next, step state item = .ok next → holds state → holds next)
    {items : List β} {start result : α} (succeeds : items.foldlM step start = .ok result)
    (initially : holds start) : holds result := by
  induction items generalizing start with
  | nil =>
    cases succeeds
    exact initially
  | cons item rest ih =>
    rw [List.foldlM_cons] at succeeds
    obtain ⟨next, first, others⟩ := bind_eq_ok_iff.1 succeeds
    exact ih others (keeps start item next first initially)

end StagePlanner
