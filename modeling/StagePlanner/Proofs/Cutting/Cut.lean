import StagePlanner.Proofs.Cutting.Level
import StagePlanner.Proofs.Stage.Realization

/-!
# The cuts of a graph

Two kinds of cuts make up a primitive plan. A region cut holds a region, all that lies before it
up to the next markers, and the markers at both ends; a bridge holds an edge between two markers.
For each kind this module says which wires of the graph its stage carries and on which level the
stage lies:

* into operators that are no markers, a cut carries all wires of the graph;
* a wire into a marker is carried by the region of its source, or by its own bridge;
* outputs lie on the level of a cut or above it, inputs below it.
-/

namespace StagePlanner

open Relation

/-- Everything that a cut reads lies below a level and everything that it writes does not. -/
structure StageCut.AtLevel (cut : StageCut) (level : OperatorId → Nat) (depth : Nat) : Prop where
  inputs : ∀ id ∈ cut.inputs, level id < depth
  outputs : ∀ id ∈ cut.outputs, depth ≤ level id

namespace Graph

variable {graph : Graph}

/-- A way from the first operator to the second one on which only the second may be a marker. -/
def Upstream (graph : Graph) : OperatorId → OperatorId → Prop :=
  ReflTransGen (graph.FeedsBy fun operator => !operator.isMarker)

theorem feedsBy_iff (wellFormed : graph.WellFormed) {source target : OperatorId} :
    graph.FeedsBy (fun operator => !operator.isMarker) source target ↔
      graph.isMarker source = false ∧ graph.Feeds source target := by
  refine and_congr_left fun feeds => ?_
  obtain ⟨⟨operator, member, rfl⟩, -⟩ := feeds.operators
  rw [isMarker, holds_id wellFormed member, holds_id wellFormed member, Bool.not_eq_true']

theorem mem_closure (wellFormed : graph.WellFormed) (acyclic : graph.Acyclic)
    {region : OrderedSet OperatorId} {id : OperatorId} :
    id ∈ graph.closure region ↔ ∃ target ∈ region, graph.Upstream id target := by
  have folded : ∀ (items : List OperatorId) (start : OrderedSet OperatorId),
      id ∈ items.foldl (fun members id =>
        members.union (graph.ancestors (fun operator => !operator.isMarker) id)) start ↔
      id ∈ start ∨ ∃ target ∈ items, id ∈ graph.ancestors (fun operator => !operator.isMarker) target := by
    intro items
    induction items with
    | nil => simp
    | cons item rest ih =>
      intro start
      rw [List.foldl_cons, ih, OrderedSet.mem_union, List.exists_mem_cons_iff, or_assoc]
  rw [closure, folded]
  simp only [mem_ancestors wellFormed (acyclic.feedsBy _ _), Upstream,
    reflTransGen_iff_eq_or_transGen, OrderedSet.mem_toList]
  constructor
  · rintro (member | ⟨target, member, way⟩)
    · exact ⟨id, member, .inl rfl⟩
    · exact ⟨target, member, .inr way⟩
  · rintro ⟨target, member, rfl | way⟩
    · exact .inl member
    · exact .inr ⟨target, member, way⟩

/-- A marker-free way leads from the operator to the region of another one. -/
def LeadsTo (graph : Graph) (level : OperatorId → Nat) (id seed : OperatorId) : Prop :=
  ∃ target, graph.SameRegion level target seed ∧ graph.Upstream id target

variable {level : OperatorId → Nat}

/-- What leads to a region without a marker in between lies in the graph, on its level or below it,
and is no marker. -/
theorem LeadsTo.properties (wellFormed : graph.WellFormed) (levelling : graph.Levelling level)
    {id seed : OperatorId} (member : seed ∈ graph.operatorIds)
    (noMarker : graph.isMarker seed = false) (leads : graph.LeadsTo level id seed) :
    id ∈ graph.operatorIds ∧ graph.isMarker id = false ∧ level id ≤ level seed := by
  obtain ⟨target, same, way⟩ := leads
  induction way using ReflTransGen.head_induction_on with
  | refl =>
    exact ⟨same.mem_operatorIds.2 member, same.isMarker_eq.trans noMarker, Nat.le_of_eq same.level_eq⟩
  | head first _ ih =>
    obtain ⟨sourceNoMarker, feeds⟩ := (feedsBy_iff wellFormed).1 first
    have rises := levelling.rises _ _ feeds
    exact ⟨mem_operatorIds.2 feeds.operators.1, sourceNoMarker, by omega⟩

theorem LeadsTo.head (wellFormed : graph.WellFormed) {source target seed : OperatorId}
    (leads : graph.LeadsTo level target seed) (noMarker : graph.isMarker source = false)
    (feeds : graph.Feeds source target) : graph.LeadsTo level source seed := by
  obtain ⟨last, same, way⟩ := leads
  exact ⟨last, same, .head ((feedsBy_iff wellFormed).2 ⟨noMarker, feeds⟩) way⟩

end Graph

namespace StageCut

/-! ### Cuts of regions -/

/-- The cut of the region of an operator. -/
structure IsRegion (cut : StageCut) (graph : Graph) (level : OperatorId → Nat) (seed : OperatorId) :
    Prop where
  members : ∀ id, id ∈ cut.members ↔
    graph.LeadsTo level id seed ∨ id ∈ cut.inputs ∨ id ∈ cut.outputs
  producers : ∀ id, id ∈ cut.producers ↔ graph.SameRegion level id seed
  inputs : ∀ id, id ∈ cut.inputs ↔
    graph.isMarker id = true ∧ ∃ target, graph.LeadsTo level target seed ∧ graph.Feeds id target
  outputs : ∀ id, id ∈ cut.outputs ↔
    graph.isMarker id = true ∧ ∃ source, graph.SameRegion level source seed ∧ graph.Feeds source id

variable {graph : Graph} {level : OperatorId → Nat} {seed : OperatorId}

theorem isRegion_regionCut (wellFormed : graph.WellFormed) (acyclic : graph.Acyclic)
    {region : OrderedSet OperatorId}
    (isRegion : ∀ other, other ∈ region ↔ graph.SameRegion level other seed) :
    (graph.regionCut region).IsRegion graph level seed := by
  have closure : ∀ id, id ∈ graph.closure region ↔ graph.LeadsTo level id seed := by
    intro id
    rw [Graph.mem_closure wellFormed acyclic]
    simp only [isRegion, Graph.LeadsTo]
  refine ⟨fun id => ?_, isRegion, fun id => ?_, fun id => ?_⟩
  · simp only [Graph.regionCut, OrderedSet.mem_union, closure, or_assoc]
  · simp only [Graph.regionCut, OrderedSet.mem_ofList, List.mem_filter, List.mem_flatMap,
      OrderedSet.mem_toList, closure, Graph.mem_predecessors wellFormed]
    exact and_comm
  · simp only [Graph.regionCut, OrderedSet.mem_ofList, List.mem_filter, List.mem_flatMap,
      OrderedSet.mem_toList, isRegion, Graph.mem_successors wellFormed]
    exact and_comm

section Region

variable {cut : StageCut} (isRegion : cut.IsRegion graph level seed)
  (wellFormed : graph.WellFormed) (levelling : graph.Levelling level)
  (member : seed ∈ graph.operatorIds) (noMarker : graph.isMarker seed = false)

include isRegion wellFormed levelling member noMarker

theorem IsRegion.atLevel : cut.AtLevel level (level seed) where
  inputs id isInput := by
    obtain ⟨isMarker, target, leads, feeds⟩ := (isRegion.inputs id).1 isInput
    have below := (leads.properties wellFormed levelling member noMarker).2.2
    have rises := levelling.rises _ _ feeds
    rw [Graph.crossings, if_pos isMarker] at rises
    omega
  outputs id isOutput := by
    obtain ⟨-, source, same, feeds⟩ := (isRegion.outputs id).1 isOutput
    have rises := levelling.rises _ _ feeds
    have equal := same.level_eq
    omega

theorem IsRegion.sound : cut.Sound graph where
  members id isMember := by
    rcases (isRegion.members id).1 isMember with leads | isInput | isOutput
    · exact (leads.properties wellFormed levelling member noMarker).1
    · obtain ⟨-, _, -, feeds⟩ := (isRegion.inputs id).1 isInput
      exact Graph.mem_operatorIds.2 feeds.operators.1
    · obtain ⟨-, _, -, feeds⟩ := (isRegion.outputs id).1 isOutput
      exact Graph.mem_operatorIds.2 feeds.operators.2
  inputs id isInput :=
    ⟨(isRegion.members id).2 (.inr (.inl isInput)), ((isRegion.inputs id).1 isInput).1⟩
  outputs id isOutput :=
    ⟨(isRegion.members id).2 (.inr (.inr isOutput)), ((isRegion.outputs id).1 isOutput).1⟩
  apart id isInput isOutput := by
    have atLevel := isRegion.atLevel wellFormed levelling member noMarker
    have below := atLevel.inputs id isInput
    have above := atLevel.outputs id isOutput
    omega

omit wellFormed levelling member noMarker in
/-- The members that are no markers are what leads to the region. -/
theorem IsRegion.leadsTo_iff {id : OperatorId} (idNoMarker : graph.isMarker id = false) :
    id ∈ cut.members ↔ graph.LeadsTo level id seed := by
  refine (isRegion.members id).trans ⟨?_, .inl⟩
  rintro (leads | isInput | isOutput)
  · exact leads
  · exact absurd ((isRegion.inputs id).1 isInput).1 (by simp [idNoMarker])
  · exact absurd ((isRegion.outputs id).1 isOutput).1 (by simp [idNoMarker])

/-- A wire into a marker is carried exactly by the cut of the region of its source. -/
theorem IsRegion.carries_marker_iff {source target : Terminal}
    (isMarker : graph.isMarker target.operator = true) :
    cut.Carries graph source target ↔
      graph.Wired source target ∧ graph.SameRegion level source.operator seed := by
  have sound := isRegion.sound wellFormed levelling member noMarker
  constructor
  · rintro ⟨wired, -, targetMember, kept⟩
    obtain ⟨notInput, -, fed⟩ := keeps_iff.1 kept
    rcases (isRegion.members _).1 targetMember with leads | isInput | isOutput
    · exact absurd (leads.properties wellFormed levelling member noMarker).2.1 (by simp [isMarker])
    · exact absurd isInput notInput
    · exact ⟨wired, (isRegion.producers _).1 (fed isOutput)⟩
  · rintro ⟨wired, same⟩
    have isOutput : target.operator ∈ cut.outputs :=
      (isRegion.outputs _).2 ⟨isMarker, _, same, wired.feeds⟩
    have sourceNoMarker := same.isMarker_eq.trans noMarker
    refine ⟨wired, (isRegion.members _).2 (.inl ⟨_, same, .refl⟩), (sound.outputs _ isOutput).1,
      keeps_iff.2 ⟨fun isInput => sound.apart _ isInput isOutput, fun sourceOutput => ?_,
        fun _ => (isRegion.producers _).2 same⟩⟩
    exact absurd (sound.outputs _ sourceOutput).2 (by simp [sourceNoMarker])

theorem IsRegion.complete : cut.Complete graph := by
  have sound := isRegion.sound wellFormed levelling member noMarker
  have producers : ∀ source target, graph.Wired source target → target.operator ∈ cut.members →
      graph.isMarker target.operator = false → cut.Carries graph source target := by
    intro source target wired targetMember targetNoMarker
    have leads := (isRegion.leadsTo_iff targetNoMarker).1
      targetMember
    have notInput : target.operator ∉ cut.inputs := fun isInput =>
      absurd (sound.inputs _ isInput).2 (by simp [targetNoMarker])
    have notOutput : target.operator ∉ cut.outputs := fun isOutput =>
      absurd (sound.outputs _ isOutput).2 (by simp [targetNoMarker])
    rcases graph.isMarker_eq_true_or source.operator with sourceMarker | sourceNoMarker
    · have isInput : source.operator ∈ cut.inputs :=
        (isRegion.inputs _).2 ⟨sourceMarker, _, leads, wired.feeds⟩
      exact ⟨wired, (sound.inputs _ isInput).1, targetMember,
        keeps_iff.2 ⟨notInput, sound.apart _ isInput, fun isOutput => absurd isOutput notOutput⟩⟩
    · refine ⟨wired, (isRegion.members _).2 (.inl (leads.head wellFormed sourceNoMarker wired.feeds)),
        targetMember, keeps_iff.2 ⟨notInput, fun isOutput => ?_,
          fun isOutput => absurd isOutput notOutput⟩⟩
      exact absurd (sound.outputs _ isOutput).2 (by simp [sourceNoMarker])
  refine ⟨producers, ?_, ?_, ?_⟩
  · intro id isMember isMarker
    rcases (isRegion.members id).1 isMember with leads | ends
    · exact absurd (leads.properties wellFormed levelling member noMarker).2.1 (by simp [isMarker])
    · exact ends
  · intro id isInput
    obtain ⟨-, target, leads, output, input, wired⟩ := (isRegion.inputs id).1 isInput
    have properties := leads.properties wellFormed levelling member noMarker
    exact ⟨output, ⟨target, input⟩,
      producers _ _ wired ((isRegion.members _).2 (.inl leads)) properties.2.1⟩
  · intro id isOutput
    obtain ⟨isMarker, source, same, output, input, wired⟩ := (isRegion.outputs id).1 isOutput
    exact ⟨⟨source, output⟩, input, (isRegion.carries_marker_iff wellFormed levelling member noMarker
      isMarker).2 ⟨wired, same⟩⟩

end Region

/-! ### Bridges -/

section Bridge

variable {source target : OperatorId} (wellFormed : graph.WellFormed) (acyclic : graph.Acyclic)
  (sourceMarker : graph.isMarker source = true) (targetMarker : graph.isMarker target = true)
  (feeds : graph.Feeds source target)

theorem mem_markerCut {id : OperatorId} :
    (id ∈ (Graph.markerCut source target).members ↔ id = source ∨ id = target) ∧
      (id ∈ (Graph.markerCut source target).producers ↔ id = source) ∧
      (id ∈ (Graph.markerCut source target).inputs ↔ id = source) ∧
      (id ∈ (Graph.markerCut source target).outputs ↔ id = target) := by
  simp [Graph.markerCut]

include acyclic feeds in
theorem bridge_ne : source ≠ target := by
  rintro rfl
  exact acyclic source (.single feeds)

include acyclic feeds in
/-- A bridge carries the wires between its two markers. -/
theorem carries_markerCut_iff {first second : Terminal} :
    (Graph.markerCut source target).Carries graph first second ↔
      graph.Wired first second ∧ first.operator = source ∧ second.operator = target := by
  have differ := bridge_ne acyclic feeds
  constructor
  · rintro ⟨wired, isSource, isTarget, kept⟩
    obtain ⟨notInput, notOutput, -⟩ := keeps_iff.1 kept
    rw [mem_markerCut.1] at isSource isTarget
    rw [mem_markerCut.2.2.1] at notInput
    rw [mem_markerCut.2.2.2] at notOutput
    exact ⟨wired, isSource.resolve_right notOutput, isTarget.resolve_left notInput⟩
  · rintro ⟨wired, rfl, rfl⟩
    refine ⟨wired, mem_markerCut.1.2 (.inl rfl), mem_markerCut.1.2 (.inr rfl), keeps_iff.2 ⟨?_, ?_, ?_⟩⟩
    · rw [mem_markerCut.2.2.1]
      exact differ.symm
    · rw [mem_markerCut.2.2.2]
      exact differ
    · exact fun _ => mem_markerCut.2.1.2 rfl

include acyclic sourceMarker targetMarker feeds in
theorem markerCut_sound : (Graph.markerCut source target).Sound graph where
  members id member := by
    rcases mem_markerCut.1.1 member with rfl | rfl
    · exact Graph.mem_operatorIds.2 feeds.operators.1
    · exact Graph.mem_operatorIds.2 feeds.operators.2
  inputs id isInput := by
    obtain rfl := mem_markerCut.2.2.1.1 isInput
    exact ⟨mem_markerCut.1.2 (.inl rfl), sourceMarker⟩
  outputs id isOutput := by
    obtain rfl := mem_markerCut.2.2.2.1 isOutput
    exact ⟨mem_markerCut.1.2 (.inr rfl), targetMarker⟩
  apart id isInput isOutput := by
    obtain rfl := mem_markerCut.2.2.1.1 isInput
    exact bridge_ne acyclic feeds (mem_markerCut.2.2.2.1 isOutput)

include sourceMarker feeds in
theorem markerCut_atLevel (levelling : graph.Levelling level) :
    (Graph.markerCut source target).AtLevel level (level source + 1) where
  inputs id isInput := by
    rw [mem_markerCut.2.2.1.1 isInput]
    exact Nat.lt_succ_self _
  outputs id isOutput := by
    rw [mem_markerCut.2.2.2.1 isOutput]
    have rises := levelling.rises _ _ feeds
    rwa [Graph.crossings, if_pos sourceMarker] at rises

include acyclic sourceMarker targetMarker feeds in
theorem markerCut_complete : (Graph.markerCut source target).Complete graph where
  producers := by
    intro _ second _ isTarget noMarker
    rcases mem_markerCut.1.1 isTarget with same | same <;> rw [same] at noMarker
    · exact absurd sourceMarker (by simp [noMarker])
    · exact absurd targetMarker (by simp [noMarker])
  markers id member _ := by
    rcases mem_markerCut.1.1 member with rfl | rfl
    · exact .inl (mem_markerCut.2.2.1.2 rfl)
    · exact .inr (mem_markerCut.2.2.2.2 rfl)
  read id isInput := by
    obtain rfl := mem_markerCut.2.2.1.1 isInput
    have ⟨output, input, wired⟩ := feeds
    exact ⟨output, ⟨target, input⟩, (carries_markerCut_iff acyclic feeds).2 ⟨wired, rfl, rfl⟩⟩
  written id isOutput := by
    obtain rfl := mem_markerCut.2.2.2.1 isOutput
    have ⟨output, input, wired⟩ := feeds
    exact ⟨⟨source, output⟩, input, (carries_markerCut_iff acyclic feeds).2 ⟨wired, rfl, rfl⟩⟩

end Bridge

/-! ### Primitive cuts -/

/-- A cut of one of the two kinds. -/
inductive IsPrimitive (graph : Graph) (level : OperatorId → Nat) (cut : StageCut) : Prop where
  | region (seed : OperatorId) (member : seed ∈ graph.operatorIds)
      (noMarker : graph.isMarker seed = false) (isRegion : cut.IsRegion graph level seed)
  | bridge (source target : OperatorId) (sourceMarker : graph.isMarker source = true)
      (targetMarker : graph.isMarker target = true) (feeds : graph.Feeds source target)
      (isBridge : cut = Graph.markerCut source target)

section Primitive

variable {cut : StageCut} (primitive : cut.IsPrimitive graph level) (wellFormed : graph.WellFormed)
  (acyclic : graph.Acyclic) (levelling : graph.Levelling level)

include primitive wellFormed acyclic levelling

theorem IsPrimitive.sound : cut.Sound graph := by
  cases primitive with
  | region seed member noMarker isRegion =>
    exact isRegion.sound wellFormed levelling member noMarker
  | bridge source target sourceMarker targetMarker feeds isBridge =>
    exact isBridge ▸ markerCut_sound acyclic sourceMarker targetMarker feeds

theorem IsPrimitive.complete : cut.Complete graph := by
  cases primitive with
  | region seed member noMarker isRegion =>
    exact isRegion.complete wellFormed levelling member noMarker
  | bridge source target sourceMarker targetMarker feeds isBridge =>
    exact isBridge ▸ markerCut_complete acyclic sourceMarker targetMarker feeds

omit acyclic in
theorem IsPrimitive.exists_atLevel : ∃ depth, cut.AtLevel level depth := by
  cases primitive with
  | region seed member noMarker isRegion =>
    exact ⟨_, isRegion.atLevel wellFormed levelling member noMarker⟩
  | bridge source target sourceMarker targetMarker feeds isBridge =>
    exact ⟨_, isBridge ▸ markerCut_atLevel sourceMarker feeds levelling⟩

end Primitive

end StageCut

namespace Graph

variable {graph : Graph} {order : List OperatorId} {level : OperatorId → Nat}
  (wellFormed : graph.WellFormed) (acyclic : graph.Acyclic)
  (isOrder : graph.dependencies.order = .ok order) (levelling : graph.Levelling level)
  (lookup : ∀ id ∈ graph.operatorIds, (graph.levels order).lookup id = some (level id))

include wellFormed isOrder

theorem mem_markerCuts {cut : StageCut} :
    cut ∈ graph.markerCuts order ↔ ∃ source target, graph.isMarker source = true ∧
      graph.isMarker target = true ∧ graph.Feeds source target ∧ cut = markerCut source target := by
  simp only [markerCuts, List.mem_flatMap, List.mem_map, List.mem_filter, OrderedSet.mem_toList,
    mem_successors wellFormed, mem_order_iff wellFormed isOrder]
  constructor
  · rintro ⟨source, ⟨-, sourceMarker⟩, target, ⟨feeds, targetMarker⟩, rfl⟩
    exact ⟨source, target, sourceMarker, targetMarker, feeds, rfl⟩
  · rintro ⟨source, target, sourceMarker, targetMarker, feeds, rfl⟩
    exact ⟨source, ⟨mem_operatorIds.2 feeds.operators.1, sourceMarker⟩, target,
      ⟨feeds, targetMarker⟩, rfl⟩

include acyclic lookup

/-- A class of regions is cut out as the region of one of its operators. -/
theorem exists_seed {region : OrderedSet OperatorId} (isClass : region ∈ (graph.regions order).classes) :
    ∃ seed ∈ graph.operatorIds, graph.isMarker seed = false ∧
      (graph.regionCut region).IsRegion graph level seed ∧
        ∀ other, other ∈ region ↔ graph.SameRegion level other seed := by
  obtain ⟨seed, member, noMarker, members⟩ := (mem_classes_regions wellFormed lookup isOrder).1 isClass
  exact ⟨seed, member, noMarker, StageCut.isRegion_regionCut wellFormed acyclic members, members⟩

theorem isPrimitive_of_mem_cuts {cut : StageCut} (member : cut ∈ graph.cuts order) :
    cut.IsPrimitive graph level := by
  rcases List.mem_append.1 member with ofRegion | bridge
  · obtain ⟨region, isClass, rfl⟩ := List.mem_map.1 ofRegion
    obtain ⟨seed, seedMember, noMarker, isRegion, -⟩ :=
      exists_seed wellFormed acyclic isOrder lookup isClass
    exact .region seed seedMember noMarker isRegion
  · obtain ⟨source, target, sourceMarker, targetMarker, feeds, rfl⟩ :=
      (mem_markerCuts wellFormed isOrder).1 bridge
    exact .bridge source target sourceMarker targetMarker feeds rfl

/-- Every operator that is no marker lies in a region that is cut out. -/
theorem exists_regionCut {seed : OperatorId} (member : seed ∈ graph.operatorIds)
    (noMarker : graph.isMarker seed = false) :
    ∃ cut ∈ graph.cuts order, cut.IsRegion graph level seed := by
  obtain ⟨generates, members⟩ := generates_regions wellFormed lookup isOrder
  have inClass : ∀ other, other ∈ (graph.regions order).classOf seed ↔
      graph.SameRegion level other seed := by
    intro other
    rw [Partition.mem_classOf, members, generates.root_eq_iff]
    refine ⟨And.right, fun same => ⟨⟨?_, ?_⟩, same⟩⟩
    · exact (SameRegion.mem_operatorIds same).2 member
    · exact (SameRegion.isMarker_eq same).trans noMarker
  have isClass := (mem_classes_regions wellFormed lookup isOrder).2 ⟨seed, member, noMarker, inClass⟩
  exact ⟨_, List.mem_append_left _ (List.mem_map_of_mem isClass),
    StageCut.isRegion_regionCut wellFormed acyclic inClass⟩

omit lookup in
/-- No two cuts between markers carry one wire. -/
theorem markerCuts_pairwise : (graph.markerCuts order).Pairwise fun left right =>
    ∀ source target, left.Carries graph source target → ¬ right.Carries graph source target := by
  refine List.pairwise_flatMap.2 ⟨fun source isSource => ?_, ?_⟩
  · refine List.pairwise_map.2 (((graph.successors source).nodup.filter _).imp_of_mem ?_)
    intro left right isLeft isRight differ first second leftCarries rightCarries
    have leftFeeds := (mem_successors wellFormed).1 (List.mem_filter.1 isLeft).1
    have rightFeeds := (mem_successors wellFormed).1 (List.mem_filter.1 isRight).1
    have toLeft := ((StageCut.carries_markerCut_iff acyclic leftFeeds).1 leftCarries).2.2
    have toRight := ((StageCut.carries_markerCut_iff acyclic rightFeeds).1 rightCarries).2.2
    exact differ (toLeft.symm.trans toRight)
  · refine ((DependencyGraph.nodup_of_orderBy isOrder).filter _).imp_of_mem ?_
    intro left right _ _ differ leftCut isLeft rightCut isRight first second leftCarries rightCarries
    obtain ⟨leftTarget, leftMember, rfl⟩ := List.mem_map.1 isLeft
    obtain ⟨rightTarget, rightMember, rfl⟩ := List.mem_map.1 isRight
    have leftFeeds := (mem_successors wellFormed).1 (List.mem_filter.1 leftMember).1
    have rightFeeds := (mem_successors wellFormed).1 (List.mem_filter.1 rightMember).1
    have fromLeft := ((StageCut.carries_markerCut_iff acyclic leftFeeds).1 leftCarries).2.1
    have fromRight := ((StageCut.carries_markerCut_iff acyclic rightFeeds).1 rightCarries).2.1
    exact differ (fromLeft.symm.trans fromRight)

include levelling

/-- No two regions carry one wire into a marker: its target lies in one of them at most. -/
theorem regionCuts_pairwise : ((graph.regions order).classes.map graph.regionCut).Pairwise
    fun left right => ∀ source target, graph.isMarker target.operator = true →
      left.Carries graph source target → ¬ right.Carries graph source target := by
  refine List.pairwise_map.2 ((Partition.classes_pairwise _).imp_of_mem ?_)
  intro left right isLeft isRight apart source target isMarker leftCarries rightCarries
  obtain ⟨first, firstMember, firstNoMarker, firstRegion, leftMembers⟩ :=
    exists_seed wellFormed acyclic isOrder lookup isLeft
  obtain ⟨second, secondMember, secondNoMarker, secondRegion, rightMembers⟩ :=
    exists_seed wellFormed acyclic isOrder lookup isRight
  have inLeft := ((firstRegion.carries_marker_iff wellFormed levelling firstMember firstNoMarker
    isMarker).1 leftCarries).2
  have inRight := ((secondRegion.carries_marker_iff wellFormed levelling secondMember secondNoMarker
    isMarker).1 rightCarries).2
  exact apart _ ((leftMembers _).2 inLeft) ((rightMembers _).2 inRight)

/-- No two cuts carry one wire into a marker. -/
theorem cuts_pairwise : (graph.cuts order).Pairwise fun left right => ∀ source target,
    graph.isMarker target.operator = true → left.Carries graph source target →
      ¬ right.Carries graph source target := by
  refine List.pairwise_append.2
    ⟨regionCuts_pairwise wellFormed acyclic isOrder levelling lookup, ?_, ?_⟩
  · exact (markerCuts_pairwise wellFormed acyclic isOrder).imp fun apart source target _ =>
      apart source target
  · intro left isLeft right isRight source target isMarker leftCarries rightCarries
    obtain ⟨region, isClass, rfl⟩ := List.mem_map.1 isLeft
    obtain ⟨seed, member, noMarker, isRegion, -⟩ :=
      exists_seed wellFormed acyclic isOrder lookup isClass
    obtain ⟨first, second, firstMarker, -, feeds, rfl⟩ := (mem_markerCuts wellFormed isOrder).1 isRight
    have same := ((isRegion.carries_marker_iff wellFormed levelling member noMarker isMarker).1
      leftCarries).2
    have isFirst := ((StageCut.carries_markerCut_iff acyclic feeds).1 rightCarries).2.1
    rw [isFirst] at same
    exact absurd firstMarker (by simp [same.isMarker_eq, noMarker])

end Graph

end StagePlanner
