import StagePlanner.Annotation.Size
import StagePlanner.Proofs.Annotation.Naming
import StagePlanner.Proofs.Estimate.Invariance
import StagePlanner.Proofs.Partition.Classes

/-!
# Size classes of shuffles

Two sweeps unite the shuffled ports of a plan: first the inputs of every stage, then every output
with the inputs that it feeds. `Notes.SharesPartitions` is the relation between ports that they
follow, and the groups that come out are the classes of the smallest equivalence that contains it
(`Notes.generates_shuffleGroups`). What a group gets is described by `Notes.Sized`.
-/

namespace StagePlanner

open Relation

variable {ν : Type}

/-! ### The largest of some values -/

section Best

variable {α : Type} {keep : Option α → α → Option α} {pick : α → α → α} {atMost : α → α → Prop}
  {among : α → Prop}
  (keeps : ∀ best item, keep (some best) item = some (pick best item))
  (trans : ∀ first second third, atMost first second → atMost second third → atMost first third)
  (picks : ∀ left right, among left → among right →
    (pick left right = left ∧ atMost right left) ∨ (pick left right = right ∧ atMost left right))

include keeps trans picks

theorem exists_best_from {start : α} (isStart : among start) {items : List α}
    (all : ∀ item ∈ items, among item) :
    ∃ best, items.foldl keep (some start) = some best ∧ (best = start ∨ best ∈ items) ∧
      atMost start best ∧ ∀ item ∈ items, atMost item best := by
  induction items generalizing start with
  | nil =>
    have self : atMost start start := (picks start start isStart isStart).elim And.right And.right
    exact ⟨start, rfl, .inl rfl, self, by simp⟩
  | cons first rest ih =>
    obtain ⟨isFirst, others⟩ := List.forall_mem_cons.1 all
    rw [List.foldl_cons, keeps]
    rcases picks start first isStart isFirst with ⟨isPick, below⟩ | ⟨isPick, below⟩
    · rw [isPick]
      obtain ⟨best, found, isBest, above, largest⟩ := ih isStart others
      exact ⟨best, found, isBest.imp_right (List.mem_cons_of_mem _), above,
        List.forall_mem_cons.2 ⟨trans _ _ _ below above, largest⟩⟩
    · rw [isPick]
      obtain ⟨best, found, isBest, above, largest⟩ := ih isFirst others
      exact ⟨best, found, .inr (List.mem_cons.2 isBest), trans _ _ _ below above,
        List.forall_mem_cons.2 ⟨above, largest⟩⟩

/-- A search that keeps the larger of two values ends with the largest one, if there is any. -/
theorem eq_nil_or_exists_best (starts : ∀ item, keep none item = some item) {items : List α}
    (all : ∀ item ∈ items, among item) :
    items = [] ∨ ∃ best ∈ items, items.foldl keep none = some best ∧
      ∀ item ∈ items, atMost item best := by
  cases items with
  | nil => exact .inl rfl
  | cons first rest =>
    obtain ⟨isFirst, others⟩ := List.forall_mem_cons.1 all
    obtain ⟨best, found, isBest, above, largest⟩ := exists_best_from keeps trans picks isFirst others
    refine .inr ⟨best, List.mem_cons.2 isBest, ?_, List.forall_mem_cons.2 ⟨above, largest⟩⟩
    rw [List.foldl_cons, starts, found]

end Best

theorem SizeClass.rank_injective : Function.Injective SizeClass.rank := by
  intro left right same
  cases left <;> cases right <;> first | rfl | exact absurd same (by decide)

theorem SizeClass.eq_nil_or_largest? (sizes : List SizeClass) :
    sizes = [] ∨
      ∃ best ∈ sizes, largest? sizes = some best ∧ ∀ size ∈ sizes, size.rank ≤ best.rank := by
  have picks : ∀ left right : SizeClass, True → True →
      (larger left right = left ∧ right.rank ≤ left.rank) ∨
        (larger left right = right ∧ left.rank ≤ right.rank) := by
    intro left right _ _
    rw [larger]
    split
    · next atMost => exact .inr ⟨rfl, atMost⟩
    · next above => exact .inl ⟨rfl, (Nat.lt_of_not_le above).le⟩
  have trans : ∀ first second third : SizeClass, first.rank ≤ second.rank →
      second.rank ≤ third.rank → first.rank ≤ third.rank := fun _ _ _ => Nat.le_trans
  exact eq_nil_or_exists_best (by exact fun _ _ => rfl) trans picks (by exact fun _ => rfl)
    fun _ _ => trivial

namespace Notes

variable {notes : Notes ν} {plan : Plan}

/-! ### Shuffled ports -/

/-- A stage has an input whose data are partitioned. -/
def ShufflesInput (notes : Notes ν) (stage : Stage) (id : StagePortId) : Prop :=
  id ∈ stage.inputs.map StagePort.id ∧
    ∃ role, (notes.port id).inputRole = some role ∧ role.distribution = .partitioned

/-- A stage has an output whose data are partitioned, be they aggregated or not. -/
def ShufflesOutput (notes : Notes ν) (stage : Stage) (id : StagePortId) : Prop :=
  id ∈ stage.outputs.map StagePort.id ∧ ∃ role, (notes.port id).outputRole = some role ∧
    (role.distribution = .partitioned ∨ role.distribution = .aggregated)

/-- A port of a plan takes part in a shuffle. -/
def Shuffles (notes : Notes ν) (plan : Plan) (id : StagePortId) : Prop :=
  ∃ stage ∈ plan.stages, notes.ShufflesInput stage id ∨ notes.ShufflesOutput stage id

/-- Two ports have to agree on their partitions directly. -/
inductive SharesPartitions (notes : Notes ν) (plan : Plan) : StagePortId → StagePortId → Prop
  /-- They are inputs of one stage. -/
  | inputs {stage : Stage} {left right : StagePortId} (isStage : stage ∈ plan.stages)
    (isLeft : notes.ShufflesInput stage left) (isRight : notes.ShufflesInput stage right) :
    SharesPartitions notes plan left right
  /-- One feeds the other. -/
  | feeds {producer consumer : Stage} {output input : StagePortId}
    (isProducer : producer ∈ plan.stages) (isOutput : notes.ShufflesOutput producer output)
    (isConsumer : consumer ∈ plan.stages) (isInput : notes.ShufflesInput consumer input)
    (connected : ⟨⟨producer.id, output⟩, ⟨consumer.id, input⟩⟩ ∈ plan.connections) :
    SharesPartitions notes plan output input

theorem mem_shuffledInputs {stage : Stage} {id : StagePortId} :
    id ∈ notes.shuffledInputs stage ↔ notes.ShufflesInput stage id := by
  simp [shuffledInputs, ShufflesInput, isShuffledInput, Option.any_eq_true]

theorem mem_shuffledOutputs {stage : Stage} {id : StagePortId} :
    id ∈ notes.shuffledOutputs stage ↔ notes.ShufflesOutput stage id := by
  simp [shuffledOutputs, ShufflesOutput, isShuffledOutput, Option.any_eq_true]

/-! ### The sweeps -/

/-- The inputs of a stage are united with each other. -/
theorem generates_joinInputs (notes : Notes ν) (stage : Stage) {groups : Partition StagePortId}
    {related : StagePortId → StagePortId → Prop} (generates : groups.Generates related) :
    (notes.joinInputs groups stage).Generates (fun left right => related left right ∨
        (notes.ShufflesInput stage left ∧ notes.ShufflesInput stage right)) ∧
      ∀ id, id ∈ (notes.joinInputs groups stage).members ↔
        id ∈ groups.members ∨ notes.ShufflesInput stage id := by
  simp only [← mem_shuffledInputs, joinInputs]
  cases notes.shuffledInputs stage with
  | nil => exact ⟨generates.congr (by simp), by simp⟩
  | cons first others =>
    obtain ⟨united, members⟩ := Partition.unites_unite.foldl_add (generates.add first)
      (Partition.mem_members_add.2 (.inl rfl)) others
    refine ⟨united.exchange ?_ ?_, fun id => ?_⟩
    · rintro left right (before | ⟨rfl, isOther⟩)
      · exact .rel _ _ (.inl before)
      · exact .rel _ _ (.inr ⟨List.mem_cons_self, List.mem_cons_of_mem _ isOther⟩)
    · -- The first input is linked to every other one, so any two are linked by way of it.
      have fromFirst : ∀ id ∈ first :: others,
          EqvGen (fun left right => related left right ∨ (left = first ∧ right ∈ others)) first id := by
        intro id member
        rcases List.mem_cons.1 member with rfl | isOther
        · exact .refl _
        · exact .rel _ _ (.inr ⟨rfl, isOther⟩)
      rintro left right (before | ⟨isLeft, isRight⟩)
      · exact .rel _ _ (.inl before)
      · exact (fromFirst left isLeft).symm.trans _ _ _ (fromFirst right isRight)
    · rw [members, Partition.mem_members_add, List.mem_cons, or_assoc, or_left_comm]

/-- The first sweep unites the inputs of every stage. -/
theorem generates_sweptInputs (notes : Notes ν) (stages : List Stage) :
    (stages.foldl notes.joinInputs {}).Generates (fun left right => ∃ stage ∈ stages,
        notes.ShufflesInput stage left ∧ notes.ShufflesInput stage right) ∧
      ∀ id, id ∈ (stages.foldl notes.joinInputs {}).members ↔
        ∃ stage ∈ stages, notes.ShufflesInput stage id := by
  obtain ⟨generates, members⟩ := Partition.Generates.foldl (fun _ => True)
    (fun stage (_ : stage ∈ stages) _ _ generates _ =>
      ⟨(generates_joinInputs notes stage generates).1, (generates_joinInputs notes stage generates).2,
        trivial⟩) Partition.Generates.empty trivial
  refine ⟨generates.congr (by simp), fun id => (members id).trans ?_⟩
  exact or_iff_right (by simp [Partition.members])

/-- Of the inputs of a plan exactly the shuffled ones have been added. -/
def KnowsInputs (notes : Notes ν) (plan : Plan) (groups : Partition StagePortId) : Prop :=
  ∀ stage ∈ plan.stages, ∀ input ∈ stage.inputs,
    (input.id ∈ groups.members ↔ notes.ShufflesInput stage input.id)

section Sweeps

variable (addressable : plan.Addressable)

include addressable

theorem input_ne_output {producer consumer : Stage} (isProducer : producer ∈ plan.stages)
    (isConsumer : consumer ∈ plan.stages) {output input : StagePort}
    (isOutput : output ∈ producer.outputs) (isInput : input ∈ consumer.inputs) :
    input.id ≠ output.id := by
  intro same
  obtain ⟨rfl, rfl⟩ := addressable.port_unique isConsumer isProducer
    (List.mem_append_left _ isInput) (List.mem_append_right _ isOutput) same
  have sides := List.nodup_append.1 (addressable.distinctPorts isConsumer).of_map
  exact sides.2.2 input isInput input isOutput rfl

/-- An output is united with the shuffled inputs that it feeds, once these are there. -/
theorem generates_joinOutput {address : PortAddress} {output : StagePort}
    (isOutput : plan.output? address = some output) {groups : Partition StagePortId}
    {related : StagePortId → StagePortId → Prop} (generates : groups.Generates related)
    (inputs : notes.KnowsInputs plan groups) :
    (joinOutput plan groups address).Generates (fun left right => related left right ∨
        (left = address.port ∧ ∃ consumer ∈ plan.stages, notes.ShufflesInput consumer right ∧
          ⟨address, ⟨consumer.id, right⟩⟩ ∈ plan.connections)) ∧
      (∀ id, id ∈ (joinOutput plan groups address).members ↔ id ∈ groups.members ∨ id = address.port) ∧
      notes.KnowsInputs plan (joinOutput plan groups address) := by
  obtain ⟨producer, isProducer, listed, rfl⟩ := addressable.output?_eq_some_iff.1 isOutput
  obtain ⟨united, sameMembers⟩ := Partition.unites_unite.foldl_known (generates.add output.id)
    (Partition.mem_members_add.2 (.inl rfl))
    ((plan.consumers ⟨producer.id, output.id⟩).map PortAddress.port)
  have members : ∀ id, id ∈ (joinOutput plan groups ⟨producer.id, output.id⟩).members ↔
      id ∈ groups.members ∨ id = output.id := by
    intro id
    rw [joinOutput, sameMembers, Partition.mem_members_add, or_comm]
  refine ⟨united.congr fun left right => or_congr_right (and_congr_right fun _ => ?_), members,
    fun stage isStage input isInput => ?_⟩
  · rw [Partition.mem_members_add]
    constructor
    · rintro ⟨isConsumer, known⟩
      obtain ⟨target, feeds, rfl⟩ := List.mem_map.1 isConsumer
      have connected := addressable.mem_consumers.1 feeds
      obtain ⟨_, _, _, _, consumer, isStage, input, isInput, -, same⟩ := Plan.mem_connections.1 connected
      obtain ⟨-, rfl⟩ := Connection.mk.inj same
      have notOutput := input_ne_output addressable isProducer isStage listed isInput
      exact ⟨consumer, isStage,
        (inputs consumer isStage input isInput).1 (known.resolve_left notOutput), connected⟩
    · rintro ⟨consumer, isConsumer, shuffled, connected⟩
      obtain ⟨input, isInput, rfl⟩ := List.mem_map.1 shuffled.1
      exact ⟨List.mem_map.2 ⟨_, addressable.mem_consumers.2 connected, rfl⟩,
        .inr ((inputs consumer isConsumer input isInput).2 shuffled)⟩
  · rw [members, or_iff_left (input_ne_output addressable isProducer isStage listed isInput)]
    exact inputs stage isStage input isInput

theorem knowsInputs_sweptInputs (notes : Notes ν) :
    notes.KnowsInputs plan (plan.stages.foldl notes.joinInputs {}) := by
  intro stage isStage input isInput
  rw [(generates_sweptInputs notes plan.stages).2]
  refine ⟨?_, fun shuffled => ⟨stage, isStage, shuffled⟩⟩
  rintro ⟨other, isOther, shuffled⟩
  obtain ⟨twin, isTwin, same⟩ := List.mem_map.1 shuffled.1
  obtain ⟨rfl, -⟩ := addressable.port_unique isOther isStage (List.mem_append_left _ isTwin)
    (List.mem_append_left _ isInput) same
  exact shuffled

/-- Both sweeps together build the groups of ports that share their partitions. -/
theorem generates_shuffleGroups (notes : Notes ν) :
    (notes.shuffleGroups plan).Generates (notes.SharesPartitions plan) ∧
      ∀ id, id ∈ (notes.shuffleGroups plan).members ↔ notes.Shuffles plan id := by
  obtain ⟨sweptInputs, inputMembers⟩ := generates_sweptInputs notes plan.stages
  have isListed : ∀ address, address ∈ (plan.stages.flatMap fun stage =>
      (notes.shuffledOutputs stage).map fun port => (⟨stage.id, port⟩ : PortAddress)) ↔
        ∃ stage ∈ plan.stages, notes.ShufflesOutput stage address.port ∧ address.stage = stage.id := by
    rintro ⟨id, port⟩
    simp only [List.mem_flatMap, List.mem_map, mem_shuffledOutputs, PortAddress.mk.injEq]
    constructor
    · rintro ⟨stage, isStage, _, shuffled, rfl, rfl⟩
      exact ⟨stage, isStage, shuffled, rfl⟩
    · rintro ⟨stage, isStage, shuffled, rfl⟩
      exact ⟨stage, isStage, port, shuffled, rfl, rfl⟩
  obtain ⟨generates, members⟩ := Partition.Generates.foldl (notes.KnowsInputs plan)
    (fun address listed partition related generates inputs => by
      obtain ⟨stage, isStage, shuffled, isAddress⟩ := (isListed address).1 listed
      obtain ⟨output, isOutput, isPort⟩ := List.mem_map.1 shuffled.1
      have found : plan.output? address = some output := by
        refine addressable.output?_eq_some_iff.2 ⟨stage, isStage, isOutput, ?_⟩
        rw [isPort, ← isAddress]
      exact generates_joinOutput addressable found generates inputs)
    sweptInputs (knowsInputs_sweptInputs addressable notes)
  refine ⟨generates.congr fun left right => ?_, fun id => (members id).trans ?_⟩
  · constructor
    · rintro (⟨stage, isStage, isLeft, isRight⟩ | ⟨address, listed, rfl, consumer, isConsumer, isInput, connected⟩)
      · exact .inputs isStage isLeft isRight
      · obtain ⟨producer, isProducer, isOutput, isAddress⟩ := (isListed address).1 listed
        exact .feeds isProducer isOutput isConsumer isInput (isAddress ▸ connected)
    · rintro (⟨isStage, isLeft, isRight⟩ | ⟨isProducer, isOutput, isConsumer, isInput, connected⟩)
      · exact .inl ⟨_, isStage, isLeft, isRight⟩
      · exact .inr ⟨_, (isListed _).2 ⟨_, isProducer, isOutput, rfl⟩, rfl, _, isConsumer, isInput, connected⟩
  · rw [inputMembers]
    constructor
    · rintro (⟨stage, isStage, shuffled⟩ | ⟨address, listed, rfl⟩)
      · exact ⟨stage, isStage, .inl shuffled⟩
      · obtain ⟨stage, isStage, shuffled, -⟩ := (isListed address).1 listed
        exact ⟨stage, isStage, .inr shuffled⟩
    · rintro ⟨stage, isStage, shuffled | shuffled⟩
      · exact .inl ⟨stage, isStage, shuffled⟩
      · exact .inr ⟨_, (isListed ⟨stage.id, id⟩).2 ⟨stage, isStage, shuffled, rfl⟩, rfl⟩

end Sweeps

/-! ### The class of a group -/

/-- The configuration fixes a size class for the label of a stage, or else for its name. -/
def Fixes (notes : Notes ν) (config : Config ν) (stage : Stage) (size : SizeClass) : Prop :=
  (∃ role, (notes.stage stage.id).role = some role ∧
    config.explicitSizes.lookup role.label = some size) ∨
  (∀ role, (notes.stage stage.id).role = some role →
    config.explicitSizes.lookup role.label = none) ∧
  ∃ name, (notes.stage stage.id).name = some name ∧ config.explicitSizes.lookup name = some size

theorem explicitSize?_eq_some_iff {config : Config ν} {stage : Stage} {size : SizeClass} :
    notes.explicitSize? config stage.id = some size ↔ notes.Fixes config stage size := by
  rw [explicitSize?, Fixes]
  cases (notes.stage stage.id).role with
  | none => cases (notes.stage stage.id).name <;> simp
  | some role =>
    simp only [Option.some.injEq, exists_eq_left', forall_eq']
    cases fixed : config.explicitSizes.lookup role.label <;>
      cases (notes.stage stage.id).name <;> simp [fixed, -List.lookup_eq_none_iff]

/-- A port has a known volume. -/
def Weighs (notes : Notes ν) (port : StagePortId) (volume : ν) : Prop :=
  (notes.port port).size = some (some volume)

/-- A stage of a plan has one of some ports. -/
def Owns (plan : Plan) (ports : OrderedSet StagePortId) (stage : Stage) : Prop :=
  stage ∈ plan.stages ∧ ∃ port ∈ stage.ports, port.id ∈ ports

/-- The size classes that the configuration fixes for the stages with some ports. -/
def fixedSizes (notes : Notes ν) (config : Config ν) (plan : Plan)
    (ports : OrderedSet StagePortId) : List SizeClass :=
  (plan.stages.filter fun stage => stage.ports.any fun port => port.id ∈ ports).filterMap
    fun stage => notes.explicitSize? config stage.id

/-- The known volumes of some ports. -/
def knownVolumes (notes : Notes ν) (ports : OrderedSet StagePortId) : List ν :=
  ports.toList.filterMap fun port => (notes.port port).size.join

theorem mem_fixedSizes {config : Config ν} {ports : OrderedSet StagePortId} {size : SizeClass} :
    size ∈ notes.fixedSizes config plan ports ↔
      ∃ stage, Owns plan ports stage ∧ notes.Fixes config stage size := by
  simp [fixedSizes, explicitSize?_eq_some_iff, Owns]

theorem mem_knownVolumes {ports : OrderedSet StagePortId} {volume : ν} :
    volume ∈ notes.knownVolumes ports ↔ ∃ port ∈ ports, notes.Weighs port volume := by
  simp [knownVolumes, Weighs, Option.join_eq_some_iff]

variable [Volume ν]

theorem sharedSize_eq {config : Config ν} {ports : OrderedSet StagePortId} :
    notes.sharedSize config plan ports =
      match SizeClass.largest? (notes.fixedSizes config plan ports) with
      | some size => size
      | none =>
        match largestVolume? (notes.knownVolumes ports) with
        | some volume => config.limits.classify volume
        | none => .regular := rfl

/-- The size class of a group of ports. -/
inductive Sized (notes : Notes ν) (config : Config ν) (plan : Plan) (ports : OrderedSet StagePortId) :
    SizeClass → Prop
  /-- The largest one that is fixed for a stage with one of the ports. -/
  | fixed {stage : Stage} {size : SizeClass} (owns : Owns plan ports stage)
    (fixes : notes.Fixes config stage size)
    (largest : ∀ other lesser, Owns plan ports other → notes.Fixes config other lesser →
      lesser.rank ≤ size.rank) :
    Sized notes config plan ports size
  /-- That of the largest known volume, if none is fixed. -/
  | known (unfixed : ∀ stage size, Owns plan ports stage → ¬ notes.Fixes config stage size)
    {port : StagePortId} {volume : ν} (isPort : port ∈ ports) (weighs : notes.Weighs port volume)
    (largest : ∀ other lesser, other ∈ ports → notes.Weighs other lesser →
      Volume.atMost lesser volume = true) :
    Sized notes config plan ports (config.limits.classify volume)
  /-- The middle one, if none is fixed and no volume is known. -/
  | unknown (unfixed : ∀ stage size, Owns plan ports stage → ¬ notes.Fixes config stage size)
    (unweighed : ∀ port volume, port ∈ ports → ¬ notes.Weighs port volume) :
    Sized notes config plan ports .regular

/-- The known volumes are numbers that can be compared with each other. -/
structure Comparable (notes : Notes ν) : Prop where
  trans : ∀ first second third : ν, Volume.atMost first second = true →
    Volume.atMost second third = true → Volume.atMost first third = true
  total : ∀ left right first second, notes.Weighs left first → notes.Weighs right second →
    Volume.atMost first second = true ∨ Volume.atMost second first = true

section Sizes

variable {config : Config ν} {ports : OrderedSet StagePortId} {size other : SizeClass}
  (comparable : notes.Comparable)

include comparable

theorem Comparable.classify_eq {left right : ν} (below : Volume.atMost left right = true)
    (above : Volume.atMost right left = true) (limits : SizeLimits ν) :
    limits.classify left = limits.classify right := by
  have same : ∀ limit, Volume.atMost left limit = Volume.atMost right limit := fun limit =>
    Bool.eq_iff_iff.2 ⟨comparable.trans _ _ _ above, comparable.trans _ _ _ below⟩
  simp only [SizeLimits.classify, same]

/-- A group has one size class. -/
theorem Sized.unique (isSize : notes.Sized config plan ports size)
    (isOther : notes.Sized config plan ports other) : size = other := by
  cases isSize with
  | fixed owns fixes largest =>
    cases isOther with
    | fixed otherOwns otherFixes otherLargest =>
      exact SizeClass.rank_injective
        (Nat.le_antisymm (otherLargest _ _ owns fixes) (largest _ _ otherOwns otherFixes))
    | known unfixed => exact absurd fixes (unfixed _ _ owns)
    | unknown unfixed => exact absurd fixes (unfixed _ _ owns)
  | known unfixed isPort weighs largest =>
    cases isOther with
    | fixed owns fixes => exact absurd fixes (unfixed _ _ owns)
    | known _ otherPort otherWeighs otherLargest =>
      exact comparable.classify_eq (otherLargest _ _ isPort weighs)
        (largest _ _ otherPort otherWeighs) config.limits
    | unknown _ unweighed => exact absurd weighs (unweighed _ _ isPort)
  | unknown unfixed unweighed =>
    cases isOther with
    | fixed owns fixes => exact absurd fixes (unfixed _ _ owns)
    | known _ isPort weighs => exact absurd weighs (unweighed _ _ isPort)
    | unknown => rfl

theorem Comparable.eq_nil_or_largestVolume? {volumes : List ν}
    (known : ∀ volume ∈ volumes, ∃ port, notes.Weighs port volume) :
    volumes = [] ∨ ∃ best ∈ volumes, largestVolume? volumes = some best ∧
      ∀ volume ∈ volumes, Volume.atMost volume best = true := by
  refine eq_nil_or_exists_best (by exact fun _ _ => rfl) comparable.trans ?_ (by exact fun _ => rfl) known
  rintro left right ⟨leftPort, leftKnown⟩ ⟨rightPort, rightKnown⟩
  simp only [Volume.greater]
  split
  · next above => exact .inl ⟨rfl, above⟩
  · next notAbove =>
    exact .inr ⟨rfl, (comparable.total _ _ _ _ rightKnown leftKnown).resolve_left notAbove⟩

/-- The class that a group gets is the one that it should have. -/
theorem Comparable.sized_sharedSize (config : Config ν) (plan : Plan) (ports : OrderedSet StagePortId) :
    notes.Sized config plan ports (notes.sharedSize config plan ports) := by
  rw [sharedSize_eq]
  rcases SizeClass.eq_nil_or_largest? (notes.fixedSizes config plan ports) with
    noneFixed | ⟨best, isBest, found, largest⟩
  · have unfixed : ∀ stage size, Owns plan ports stage → ¬ notes.Fixes config stage size := by
      intro stage size owns fixes
      exact List.not_mem_nil (noneFixed ▸ mem_fixedSizes.2 ⟨stage, owns, fixes⟩)
    have known : ∀ volume ∈ notes.knownVolumes ports, ∃ port, notes.Weighs port volume := by
      intro volume isVolume
      obtain ⟨port, -, weighs⟩ := mem_knownVolumes.1 isVolume
      exact ⟨port, weighs⟩
    rcases comparable.eq_nil_or_largestVolume? known with noneKnown | ⟨best, isBest, found, largest⟩
    · rw [noneFixed, noneKnown]
      refine .unknown unfixed fun port volume isPort weighs => ?_
      exact List.not_mem_nil (noneKnown ▸ mem_knownVolumes.2 ⟨port, isPort, weighs⟩)
    · rw [noneFixed, found]
      obtain ⟨port, isPort, weighs⟩ := mem_knownVolumes.1 isBest
      exact .known unfixed isPort weighs fun other lesser isOther lighter =>
        largest lesser (mem_knownVolumes.2 ⟨other, isOther, lighter⟩)
  · rw [found]
    obtain ⟨stage, owns, fixes⟩ := mem_fixedSizes.1 isBest
    exact .fixed owns fixes fun other lesser alsoOwns alsoFixes =>
      largest lesser (mem_fixedSizes.2 ⟨other, alsoOwns, alsoFixes⟩)

theorem Comparable.sized_iff : notes.Sized config plan ports size ↔
    notes.sharedSize config plan ports = size :=
  ⟨fun isSize => (comparable.sized_sharedSize config plan ports).unique comparable isSize,
    fun same => same ▸ comparable.sized_sharedSize config plan ports⟩

end Sizes

/-- Only the volumes of the ports and the labels and names of their stages matter for a group. -/
theorem sharedSize_congr {config : Config ν} {ports : OrderedSet StagePortId} {changed : Notes ν}
    (sizes : ∀ port ∈ ports, (changed.port port).size = (notes.port port).size)
    (stages : ∀ stage, Owns plan ports stage →
      (changed.stage stage.id).role = (notes.stage stage.id).role ∧
        (changed.stage stage.id).name = (notes.stage stage.id).name) :
    changed.sharedSize config plan ports = notes.sharedSize config plan ports := by
  have volumes : changed.knownVolumes ports = notes.knownVolumes ports :=
    List.filterMap_congr fun port isPort => by rw [sizes port isPort]
  have fixed : changed.fixedSizes config plan ports = notes.fixedSizes config plan ports := by
    refine List.filterMap_congr fun stage isListed => ?_
    have owns : Owns plan ports stage := by simpa [Owns] using List.mem_filter.1 isListed
    obtain ⟨role, name⟩ := stages stage owns
    simp only [explicitSize?, role, name]
  rw [sharedSize_eq, sharedSize_eq, fixed, volumes]

/-! ### All classes -/

theorem mem_partitionSizes {config : Config ν} {id : StagePortId} {size : SizeClass} :
    (id, size) ∈ notes.partitionSizes config plan ↔
      ∃ ports ∈ (notes.shuffleGroups plan).classes, id ∈ ports ∧
        notes.sharedSize config plan ports = size := by
  simp [partitionSizes]

theorem map_fst_partitionSizes {config : Config ν} :
    (notes.partitionSizes config plan).map Prod.fst =
      (notes.shuffleGroups plan).classes.flatMap OrderedSet.toList := by
  simp only [partitionSizes, List.map_flatMap, List.map_map]
  exact congrArg (fun keys => (notes.shuffleGroups plan).classes.flatMap keys)
    (funext fun ports => List.map_id ports.toList)

/-- A port lies in one group, so its entry is that of the group. -/
theorem mem_partitionSizes_of_mem {config : Config ν} {ports : OrderedSet StagePortId}
    (isGroup : ports ∈ (notes.shuffleGroups plan).classes) {id : StagePortId} (isPort : id ∈ ports)
    {size : SizeClass} :
    (id, size) ∈ notes.partitionSizes config plan ↔ notes.sharedSize config plan ports = size := by
  rw [mem_partitionSizes]
  refine ⟨?_, fun same => ⟨ports, isGroup, isPort, same⟩⟩
  rintro ⟨others, alsoGroup, alsoPort, same⟩
  rwa [Partition.class_unique isGroup alsoGroup isPort alsoPort]

/-- Exactly the shuffled ports get a size class, once each. Two of them lie in one group exactly when
a chain of inputs of one stage and of outputs with their consumers links them. Each group has the one
class that its own ports and their stages determine, and whatever else is noted of other ports and
other stages makes no difference to it. -/
theorem partitionSizes_grouped (addressable : plan.Addressable) (comparable : notes.Comparable)
    (config : Config ν) :
    ((notes.partitionSizes config plan).map Prod.fst).Nodup ∧
      (∀ id, id ∈ (notes.partitionSizes config plan).map Prod.fst ↔ notes.Shuffles plan id) ∧
      (∀ left right, notes.Shuffles plan left → notes.Shuffles plan right →
        ((∃ ports ∈ (notes.shuffleGroups plan).classes, left ∈ ports ∧ right ∈ ports) ↔
          EqvGen (notes.SharesPartitions plan) left right)) ∧
      ∀ ports ∈ (notes.shuffleGroups plan).classes, ∀ id ∈ ports, ∀ size,
        ((id, size) ∈ notes.partitionSizes config plan ↔ notes.Sized config plan ports size) ∧
        ∀ changed : Notes ν, ports ∈ (changed.shuffleGroups plan).classes →
          (∀ port ∈ ports, (changed.port port).size = (notes.port port).size) →
          (∀ stage, Owns plan ports stage →
            (changed.stage stage.id).role = (notes.stage stage.id).role ∧
              (changed.stage stage.id).name = (notes.stage stage.id).name) →
          ((id, size) ∈ changed.partitionSizes config plan ↔
            (id, size) ∈ notes.partitionSizes config plan) := by
  obtain ⟨generates, members⟩ := generates_shuffleGroups addressable notes
  rw [map_fst_partitionSizes]
  refine ⟨?_, fun id => ?_, fun left right isLeft isRight => ?_,
    fun ports isGroup id isPort size => ⟨?_, fun changed alsoGroup sizes stages => ?_⟩⟩
  · refine List.nodup_flatMap.2 ⟨fun ports _ => ports.nodup, ?_⟩
    exact (Partition.classes_pairwise _).imp fun apart id inLeft inRight => apart id inLeft inRight
  · rw [← members, ← generates.exists_mem_classes, List.mem_flatMap]
    rfl
  · exact generates.exists_class_iff ((members left).2 isLeft) ((members right).2 isRight)
  · rw [mem_partitionSizes_of_mem isGroup isPort, comparable.sized_iff]
  · rw [mem_partitionSizes_of_mem alsoGroup isPort, mem_partitionSizes_of_mem isGroup isPort,
      sharedSize_congr sizes stages]

/-- Two shuffled outputs of one stage, two shuffled inputs that they feed, and one more input. -/
def shuffledPlan : Plan where
  stages := [
    { id := ⟨0⟩, graph := {}, inputs := [], provenance := [],
      outputs := [{ id := ⟨0⟩, marker := ⟨0⟩, origins := .singleton ⟨4⟩ },
        { id := ⟨1⟩, marker := ⟨1⟩, origins := .singleton ⟨7⟩ }] },
    { id := ⟨1⟩, graph := {}, outputs := [], provenance := [],
      inputs := [{ id := ⟨2⟩, marker := ⟨0⟩, origins := .singleton ⟨4⟩ },
        { id := ⟨3⟩, marker := ⟨1⟩, origins := .singleton ⟨7⟩ }] },
    { id := ⟨2⟩, graph := {}, outputs := [], provenance := [],
      inputs := [{ id := ⟨4⟩, marker := ⟨0⟩, origins := .singleton ⟨7⟩ }] }]
  nextStage := ⟨3⟩
  nextPort := ⟨5⟩

/-- All ports of that plan are shuffled, and the volumes of two of them are known. -/
def shuffledNotes : Notes Nat where
  ports := [
    (⟨0⟩, { outputRole := some ⟨.aggregated, .named "", none, none⟩, size := some (some 100) }),
    (⟨1⟩, { outputRole := some ⟨.partitioned, .named "", none, none⟩, size := some (some 40000000) }),
    (⟨2⟩, { inputRole := some ⟨.partitioned, .named "", none⟩ }),
    (⟨3⟩, { inputRole := some ⟨.partitioned, .named "", none⟩ }),
    (⟨4⟩, { inputRole := some ⟨.partitioned, .named "", none⟩ })]

theorem partitionSizes_grouped_shuffledPlan : shuffledPlan.Addressable ∧ shuffledNotes.Comparable ∧
    EqvGen (shuffledNotes.SharesPartitions shuffledPlan) ⟨0⟩ ⟨4⟩ ∧
    shuffledNotes.Sized .standard shuffledPlan (.ofList [⟨0⟩, ⟨1⟩, ⟨2⟩, ⟨3⟩, ⟨4⟩]) .small := by
  have addressable : shuffledPlan.Addressable := ⟨by decide, by decide⟩
  have comparable : shuffledNotes.Comparable := by
    refine ⟨fun first second third below above => ?_, fun _ _ first second _ _ => ?_⟩
    · exact decide_eq_true (Nat.le_trans (of_decide_eq_true below) (of_decide_eq_true above))
    · exact (Nat.le_total first second).imp decide_eq_true decide_eq_true
  have isGroup : OrderedSet.ofList [⟨0⟩, ⟨1⟩, ⟨2⟩, ⟨3⟩, ⟨4⟩] ∈
      (shuffledNotes.shuffleGroups shuffledPlan).classes := by decide +kernel
  obtain ⟨-, keys, linked, groups⟩ := partitionSizes_grouped addressable comparable .standard
  refine ⟨addressable, comparable, ?_, ?_⟩
  · exact (linked _ _ ((keys _).1 (by decide +kernel)) ((keys _).1 (by decide +kernel))).1
      ⟨_, isGroup, by decide, by decide⟩
  · exact (groups _ isGroup ⟨0⟩ (by decide) _).1.1 (by decide +kernel)

end Notes

end StagePlanner
