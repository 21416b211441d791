import StagePlanner.Preparation.Liveness
import StagePlanner.Proofs.Graph.Restriction
import StagePlanner.Proofs.Preparation.Closure

/-!
# Circuits that lead out

A circuit of operators matters to a graph when data leave it for an external output
(`Graph.HasLiveCircuit`). Such circuits are neither made nor broken when terminators are attached,
when dead flow is removed, or when an operator that does not feed itself is bypassed
(`Graph.Contracts`). Only what they are made of may change.
-/

namespace StagePlanner

open Relation

/-- The operator stands at an end of the graph. -/
def Operator.IsTerminator (operator : Operator) : Prop :=
  operator.isMarkerOf .begin = true ∨ operator.isMarkerOf .finish = true

namespace Graph

variable {graph middle result : Graph}

/-- Data of the operator can reach an external output. -/
def LeadsOut (graph : Graph) (id : OperatorId) : Prop :=
  ∃ output ∈ graph.operators, output.kind.isOutput = true ∧
    ReflTransGen graph.Feeds id output.id

/-- Some operators that pass a test form a circuit from which data can reach an external output. -/
def HasLiveCircuit (graph : Graph) (pass : Operator → Bool) : Prop :=
  ∃ id, TransGen (graph.FeedsBy pass) id id ∧ graph.LeadsOut id

/-- Nothing but terminators is idle. -/
def Lively (graph : Graph) : Prop :=
  ∀ operator ∈ graph.operators, ¬ operator.IsTerminator → graph.LeadsOut operator.id

theorem LeadsOut.of_way {source target : OperatorId} (leadsOut : graph.LeadsOut target)
    (way : ReflTransGen graph.Feeds source target) : graph.LeadsOut source := by
  obtain ⟨output, member, isOutput, onward⟩ := leadsOut
  exact ⟨output, member, isOutput, way.trans onward⟩

variable {pass : Operator → Bool}

theorem reflTransGen_feeds {source target : OperatorId}
    (way : ReflTransGen (graph.FeedsBy pass) source target) :
    ReflTransGen graph.Feeds source target :=
  ReflTransGen.mono (fun _ _ => And.right) _ _ way

theorem feedsBy_iff_exists (wellFormed : graph.WellFormed) {source target : OperatorId} :
    graph.FeedsBy pass source target ↔ graph.Feeds source target ∧
      ∃ operator ∈ graph.operators, operator.id = source ∧ pass operator = true := by
  rw [FeedsBy, holds_iff wellFormed, and_comm]

/-- Circuits that lead out are kept when the steps between operators that lead out are. -/
theorem HasLiveCircuit.of_feeds (live : graph.HasLiveCircuit pass)
    (leads : ∀ id, graph.LeadsOut id → (∃ source, graph.Feeds source id) → result.LeadsOut id)
    (keeps : ∀ source target, (∃ before, graph.Feeds before source) → graph.LeadsOut target →
      graph.FeedsBy pass source target → result.FeedsBy pass source target) :
    result.HasLiveCircuit pass := by
  obtain ⟨id, circuit, leadsOut⟩ := live
  obtain ⟨last, -, back⟩ := TransGen.tail'_iff.1 circuit
  refine ⟨id, transGen_of_steps circuit fun source target before step after => ?_,
    leads id leadsOut ⟨last, back.2⟩⟩
  refine keeps source target ?_ (leadsOut.of_way (reflTransGen_feeds after)) step
  rcases ReflTransGen.cases_tail_iff .. |>.1 before with rfl | ⟨previous, -, next⟩
  · exact ⟨last, back.2⟩
  · exact ⟨previous, next.2⟩

/-! ### Attaching terminators -/

theorem Framed.not_feeds_begin (framed : graph.Framed) {operator : Operator}
    (member : operator ∈ graph.operators) (isBegin : operator.isMarkerOf .begin = true)
    {source : OperatorId} : ¬ graph.Feeds source operator.id := by
  intro feeds
  obtain ⟨output, input, edge, -, consumer, isConsumer, same, owned⟩ := feeds_iff_exists_edge.1 feeds
  rw [framed.wellFormed.operator_unique isConsumer member same] at owned
  exact framed.unfed operator member isBegin input owned output edge

theorem Framed.not_finish_feeds (framed : graph.Framed) {operator : Operator}
    (member : operator ∈ graph.operators) (isFinish : operator.isMarkerOf .finish = true)
    {target : OperatorId} : ¬ graph.Feeds operator.id target := by
  intro feeds
  obtain ⟨output, input, edge, ⟨producer, isProducer, same, owned⟩, -⟩ := feeds_iff_exists_edge.1 feeds
  rw [framed.wellFormed.operator_unique isProducer member same] at owned
  exact framed.unread operator member isFinish output owned input edge

/-- No data reach an external output behind an `END`. -/
theorem Framed.not_leadsOut_finish (framed : graph.Framed) {operator : Operator}
    (member : operator ∈ graph.operators) (isFinish : operator.isMarkerOf .finish = true) :
    ¬ graph.LeadsOut operator.id := by
  rintro ⟨output, isThere, isOutput, way⟩
  rcases ReflTransGen.cases_head_iff .. |>.1 way with same | ⟨next, first, -⟩
  · rw [framed.wellFormed.operator_unique member isThere same,
      output.not_markerOf (Operator.not_marker_of_isOutput isOutput)] at isFinish
    cases isFinish
  · exact framed.not_finish_feeds member isFinish first

namespace Attaches

variable (attaches : graph.Attaches result)

include attaches

theorem feeds {source target : OperatorId} (feeds : graph.Feeds source target) :
    result.Feeds source target := by
  obtain ⟨output, input, edge, ⟨producer, isProducer, isSource, gives⟩, consumer, isConsumer,
    isTarget, takes⟩ := feeds_iff_exists_edge.1 feeds
  exact feeds_iff_exists_edge.2 ⟨output, input, attaches.edges _ edge,
    ⟨producer, attaches.operators _ isProducer, isSource, gives⟩, consumer,
    attaches.operators _ isConsumer, isTarget, takes⟩

/-- An operator was there if something feeds it and data can reach an external output from it. -/
theorem old_of_feeds {source target : OperatorId} (feeds : result.Feeds source target)
    (leadsOut : result.LeadsOut target) :
    ∃ operator ∈ graph.operators, operator.id = target := by
  obtain ⟨-, operator, member, rfl⟩ := feeds.operators
  rcases attaches.new operator member with old | ⟨isBegin, -⟩ | ⟨isFinish, -⟩
  · exact ⟨operator, old, rfl⟩
  · exact absurd feeds (attaches.framed.not_feeds_begin member isBegin)
  · exact absurd leadsOut (attaches.framed.not_leadsOut_finish member isFinish)

theorem feeds_old {producer consumer : Operator} (isProducer : producer ∈ graph.operators)
    (isConsumer : consumer ∈ graph.operators) (feeds : result.Feeds producer.id consumer.id) :
    graph.Feeds producer.id consumer.id := by
  have wellFormed := attaches.framed.wellFormed
  obtain ⟨output, input, edge, ⟨source, isSource, sourceId, gives⟩, target, isTarget, targetId,
    takes⟩ := feeds_iff_exists_edge.1 feeds
  rw [wellFormed.operator_unique isSource (attaches.operators _ isProducer) sourceId] at gives
  rw [wellFormed.operator_unique isTarget (attaches.operators _ isConsumer) targetId] at takes
  exact feeds_iff_exists_edge.2 ⟨output, input,
    attaches.between _ isProducer _ isConsumer _ gives _ takes edge,
    ⟨producer, isProducer, rfl, gives⟩, consumer, isConsumer, rfl, takes⟩

theorem leadsOut_iff {operator : Operator} (member : operator ∈ graph.operators) :
    result.LeadsOut operator.id ↔ graph.LeadsOut operator.id := by
  constructor
  · intro leadsOut
    obtain ⟨output, isThere, isOutput, way⟩ := id leadsOut
    have old : ∀ id, ReflTransGen result.Feeds operator.id id → result.LeadsOut id →
        ∃ other ∈ graph.operators, other.id = id := by
      intro id before leads
      rcases ReflTransGen.cases_tail_iff .. |>.1 before with rfl | ⟨previous, -, next⟩
      · exact ⟨operator, member, rfl⟩
      · exact attaches.old_of_feeds next leads
    have leads : result.LeadsOut output.id := ⟨output, isThere, isOutput, .refl⟩
    obtain ⟨other, isOld, same⟩ := old output.id way leads
    have sameOperator := attaches.framed.wellFormed.operator_unique (attaches.operators _ isOld)
      isThere same
    refine ⟨output, sameOperator ▸ isOld, isOutput,
      reflTransGen_of_steps way fun first second before step after => ?_⟩
    have onward := leads.of_way after
    obtain ⟨producer, isProducer, rfl⟩ := old first before (onward.of_way (.single step))
    obtain ⟨consumer, isConsumer, rfl⟩ := old second (before.tail step) onward
    exact attaches.feeds_old isProducer isConsumer step
  · rintro ⟨output, isThere, isOutput, way⟩
    exact ⟨output, attaches.operators _ isThere, isOutput, ReflTransGen.mono (fun _ _ => attaches.feeds) _ _ way⟩

/-- Terminators stand on no circuit, so attaching them keeps circuits. -/
theorem hasLiveCircuit_iff (wellFormed : graph.WellFormed) :
    result.HasLiveCircuit pass ↔ graph.HasLiveCircuit pass := by
  have resultWellFormed := attaches.framed.wellFormed
  constructor <;> intro live
  · refine live.of_feeds (fun id leads ⟨source, feeds⟩ => ?_) ?_
    · obtain ⟨operator, isOld, rfl⟩ := attaches.old_of_feeds feeds leads
      exact (attaches.leadsOut_iff isOld).1 leads
    · rintro source target ⟨before, feeds⟩ leads step
      obtain ⟨consumer, isConsumer, rfl⟩ := attaches.old_of_feeds step.2 leads
      obtain ⟨producer, isProducer, rfl⟩ :=
        attaches.old_of_feeds feeds (leads.of_way (.single step.2))
      rw [FeedsBy, holds_id resultWellFormed (attaches.operators _ isProducer)] at step
      rw [FeedsBy, holds_id wellFormed isProducer]
      exact ⟨step.1, attaches.feeds_old isProducer isConsumer step.2⟩
  · refine live.of_feeds (fun id leads _ => ?_) fun source target _ _ step => ?_
    · obtain ⟨output, isThere, isOutput, way⟩ := leads
      exact ⟨output, attaches.operators _ isThere, isOutput, ReflTransGen.mono (fun _ _ => attaches.feeds) _ _ way⟩
    · rw [feedsBy_iff_exists wellFormed] at step
      obtain ⟨feeds, operator, member, same, passes⟩ := step
      exact (feedsBy_iff_exists resultWellFormed).2
        ⟨attaches.feeds feeds, operator, attaches.operators _ member, same, passes⟩

theorem lively (lively : graph.Lively) : result.Lively := by
  intro operator member inner
  rcases attaches.new operator member with old | ⟨isBegin, -⟩ | ⟨isFinish, -⟩
  · exact (attaches.leadsOut_iff old).2 (lively operator old inner)
  · exact absurd (.inl isBegin) inner
  · exact absurd (.inr isFinish) inner

end Attaches

/-! ### Removing what does not lead out -/

namespace Restricts

variable {stays : OperatorId → Prop} (restricts : result.Restricts graph stays)
  (kept : ∀ id, graph.LeadsOut id → stays id)

include restricts kept

theorem leadsOut_iff {id : OperatorId} : result.LeadsOut id ↔ graph.LeadsOut id := by
  constructor
  · rintro ⟨output, isThere, isOutput, way⟩
    exact ⟨output, ((restricts.operators _).1 isThere).1, isOutput,
      ReflTransGen.mono (fun _ _ feeds => (restricts.feeds_iff.1 feeds).1) _ _ way⟩
  · rintro ⟨output, isThere, isOutput, way⟩
    have leads : graph.LeadsOut output.id := ⟨output, isThere, isOutput, .refl⟩
    refine ⟨output, (restricts.operators _).2 ⟨isThere, kept _ leads⟩, isOutput,
      reflTransGen_of_steps way fun first second _ step after => ?_⟩
    have onward := leads.of_way after
    exact restricts.feeds_iff.2 ⟨step, kept _ (onward.of_way (.single step)), kept _ onward⟩

theorem hasLiveCircuit_iff (wellFormed : graph.WellFormed) :
    result.HasLiveCircuit pass ↔ graph.HasLiveCircuit pass := by
  constructor <;> intro live
  · refine live.of_feeds (fun id leads _ => (restricts.leadsOut_iff kept).1 leads)
      fun source target _ _ step => ?_
    rw [feedsBy_iff_exists restricts.wellFormed] at step
    obtain ⟨feeds, operator, member, same, passes⟩ := step
    exact (feedsBy_iff_exists wellFormed).2 ⟨(restricts.feeds_iff.1 feeds).1, operator,
      ((restricts.operators _).1 member).1, same, passes⟩
  · refine live.of_feeds (fun id leads _ => (restricts.leadsOut_iff kept).2 leads)
      fun source target _ leads step => ?_
    rw [feedsBy_iff_exists wellFormed] at step
    obtain ⟨feeds, operator, member, rfl, passes⟩ := step
    have stays := kept _ (leads.of_way (.single feeds))
    exact (feedsBy_iff_exists restricts.wellFormed).2 ⟨restricts.feeds_iff.2 ⟨feeds, stays, kept _ leads⟩,
      operator, (restricts.operators _).2 ⟨member, stays⟩, rfl, passes⟩

end Restricts

/-! ### Bypassing an operator -/

/-- An operator is taken out, and what fed it feeds what it fed. -/
structure Contracts (graph result : Graph) (id : OperatorId) : Prop where
  wellFormed : result.WellFormed
  operators : ∀ operator, operator ∈ result.operators ↔ operator ∈ graph.operators ∧ operator.id ≠ id
  feeds : ∀ source target, result.Feeds source target ↔ source ≠ id ∧ target ≠ id ∧
    (graph.Feeds source target ∨ graph.Feeds source id ∧ graph.Feeds id target)

namespace Contracts

variable {id : OperatorId} (contracts : graph.Contracts result id)

include contracts

/-- A step of the result is a way of the graph, at most past the operator that is gone. -/
theorem transGen_of_feeds {source target : OperatorId} (feeds : result.Feeds source target) :
    TransGen graph.Feeds source target := by
  obtain ⟨-, -, direct | ⟨enters, leaves⟩⟩ := (contracts.feeds _ _).1 feeds
  · exact .single direct
  · exact .tail (.single enters) leaves

theorem reflTransGen {source target : OperatorId} (way : ReflTransGen result.Feeds source target) :
    ReflTransGen graph.Feeds source target :=
  reflTransGen_closed (fun _ _ feeds => (contracts.transGen_of_feeds feeds).to_reflTransGen) _ _ way

/-- The operators that are left reach each other as before. -/
theorem transGen_iff {source target : OperatorId} (start : source ≠ id) (finish : target ≠ id) :
    TransGen result.Feeds source target ↔ TransGen graph.Feeds source target := by
  refine ⟨TransGen.closed (fun _ _ => contracts.transGen_of_feeds) _ _, fun way => ?_⟩
  refine transGen_around way start finish ?_ ?_
  · exact fun first second start finish feeds =>
      (contracts.feeds _ _).2 ⟨start, finish, .inl feeds⟩
  · exact fun first second start finish enters leaves =>
      (contracts.feeds _ _).2 ⟨start, finish, .inr ⟨enters, leaves⟩⟩

theorem acyclic (acyclic : graph.Acyclic) : result.Acyclic :=
  Circuitless.of_shortcuts acyclic fun _ _ => contracts.transGen_of_feeds

theorem leadsOut_iff {source : OperatorId} (other : source ≠ id)
    (noOutput : ∀ operator ∈ graph.operators, operator.id = id → operator.kind.isOutput = false) :
    result.LeadsOut source ↔ graph.LeadsOut source := by
  constructor
  · rintro ⟨output, isThere, isOutput, way⟩
    exact ⟨output, ((contracts.operators _).1 isThere).1, isOutput, contracts.reflTransGen way⟩
  · rintro ⟨output, isThere, isOutput, way⟩
    have outside : output.id ≠ id := by
      intro same
      rw [noOutput output isThere same] at isOutput
      cases isOutput
    refine ⟨output, (contracts.operators _).2 ⟨isThere, outside⟩, isOutput, ?_⟩
    rcases reflTransGen_iff_eq_or_transGen.1 way with same | way
    · exact same ▸ .refl
    · exact ((contracts.transGen_iff other outside).2 way).to_reflTransGen

variable (wellFormed : graph.WellFormed)

include wellFormed

theorem feedsBy {source target : OperatorId} (start : source ≠ id)
    (feeds : result.Feeds source target) {next : OperatorId} (passes : graph.FeedsBy pass source next) :
    result.FeedsBy pass source target := by
  obtain ⟨-, operator, member, rfl, accepts⟩ := (feedsBy_iff_exists wellFormed).1 passes
  exact (feedsBy_iff_exists contracts.wellFormed).2
    ⟨feeds, operator, (contracts.operators _).2 ⟨member, start⟩, rfl, accepts⟩

/-- A circuit loses an operator that is bypassed, and others are left on it. -/
theorem hasLiveCircuit (live : graph.HasLiveCircuit pass) (loopless : ¬ graph.Feeds id id)
    (noOutput : ∀ operator ∈ graph.operators, operator.id = id → operator.kind.isOutput = false) :
    result.HasLiveCircuit pass := by
  suffices beside : ∃ start, start ≠ id ∧ TransGen (graph.FeedsBy pass) start start ∧
      graph.LeadsOut start by
    obtain ⟨start, outside, circuit, leadsOut⟩ := beside
    refine ⟨start, transGen_around circuit outside outside ?_ ?_,
      (contracts.leadsOut_iff outside noOutput).2 leadsOut⟩
    · exact fun first second start finish step => contracts.feedsBy wellFormed start
        ((contracts.feeds _ _).2 ⟨start, finish, .inl step.2⟩) step
    · exact fun first second start finish enters leaves => contracts.feedsBy wellFormed start
        ((contracts.feeds _ _).2 ⟨start, finish, .inr ⟨enters.2, leaves.2⟩⟩) enters
  obtain ⟨start, circuit, leadsOut⟩ := live
  by_cases here : start = id
  · subst here
    obtain ⟨other, outside, around, toStart⟩ := exists_beside circuit fun step => loopless step.2
    exact ⟨other, outside, around, leadsOut.of_way (reflTransGen_feeds toStart.to_reflTransGen)⟩
  · exact ⟨start, here, circuit, leadsOut⟩

/-- No circuit comes about by bypassing an operator that could stand on it. -/
theorem hasLiveCircuit_of (live : result.HasLiveCircuit pass)
    (passes : ∀ operator ∈ graph.operators, operator.id = id → pass operator = true) :
    graph.HasLiveCircuit pass := by
  obtain ⟨start, circuit, output, isThere, isOutput, way⟩ := live
  refine ⟨start, TransGen.closed (fun first second step => ?_) _ _ circuit, output,
    ((contracts.operators _).1 isThere).1, isOutput, contracts.reflTransGen way⟩
  obtain ⟨feeds, operator, member, same, accepts⟩ := (feedsBy_iff_exists contracts.wellFormed).1 step
  have old := ((contracts.operators _).1 member).1
  obtain ⟨-, -, direct | ⟨enters, leaves⟩⟩ := (contracts.feeds _ _).1 feeds
  · exact .single ((feedsBy_iff_exists wellFormed).2 ⟨direct, operator, old, same, accepts⟩)
  · obtain ⟨⟨bypassed, isBypassed, isId⟩, -⟩ := leaves.operators
    exact .tail (.single ((feedsBy_iff_exists wellFormed).2 ⟨enters, operator, old, same, accepts⟩))
      ((feedsBy_iff_exists wellFormed).2
        ⟨leaves, bypassed, isBypassed, isId, passes bypassed isBypassed isId⟩)

omit wellFormed in
theorem lively (lively : graph.Lively)
    (noOutput : ∀ operator ∈ graph.operators, operator.id = id → operator.kind.isOutput = false) :
    result.Lively := by
  intro operator member inner
  obtain ⟨old, outside⟩ := (contracts.operators _).1 member
  exact (contracts.leadsOut_iff outside noOutput).2 (lively operator old inner)

end Contracts

end Graph

end StagePlanner
