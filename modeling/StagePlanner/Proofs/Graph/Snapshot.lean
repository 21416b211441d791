import StagePlanner.Graph.Snapshot
import StagePlanner.Proofs.Graph.Growth

/-!
# What snapshots tell apart

A snapshot lists operators by their identifiers and edges by their ports, nothing else. Along a
history of calls that is enough: no identifier is given out twice and no call changes an operator in
place (`Graph.Grows`), so an identifier stands for one operator throughout, and states with equal
snapshots are equal (`Graph.Grows.operators_eq_of_operatorIds`). The numbers that are hashed can be
read back (`Snapshot.numbers_inj`), since no identifier reaches the number between the two lists, and
so can the bytes of these numbers (`Snapshot.bytes_inj`).
-/

namespace StagePlanner

/-! ### Histories -/

namespace Graph

/-- The graphs that calls lead through, the first one included; a call may be refused. -/
def states (graph : Graph) : List EditCall → List Graph
  | [] => [graph]
  | call :: calls => graph :: (call.edit.apply graph).2.states calls

variable {graph left right : Graph}

theorem Grows.refl (graph : Graph) : graph.Grows graph := (Sheds.refl graph).grows

theorem Grows.trans {middle result : Graph} (first : graph.Grows middle) (second : middle.Grows result) :
    graph.Grows result where
  nextOperator := first.nextOperator.trans second.nextOperator
  nextPort := first.nextPort.trans second.nextPort
  operators operator member := by
    rcases second.operators operator member with old | ⟨isNew, newPorts⟩
    · exact first.operators operator old
    · exact .inr ⟨first.nextOperator.trans isNew, fun port isPort =>
        first.nextPort.trans (newPorts port isPort)⟩

end Graph

/-- A call leaves a well-formed graph, whether it is answered or refused. -/
theorem EditCall.keeps (call : EditCall) : Edit.Keeps call.edit := by
  cases call with
  | add blueprint => exact (Edit.keeps_add blueprint).bind fun _ => .pure _
  | remove id => exact (Edit.keeps_remove id).bind fun _ => .pure _
  | connect source target => exact (Edit.keeps_connect source target).bind fun _ => .pure _
  | disconnect source target => exact (Edit.keeps_disconnect source target).bind fun _ => .pure _
  | disconnectAll port => exact (Edit.keeps_disconnectAll port).bind fun _ => .pure _
  | insertBefore input blueprint => exact (Edit.keeps_insertBefore input blueprint).bind fun _ => .pure _
  | insertAfter output blueprint => exact (Edit.keeps_insertAfter output blueprint).bind fun _ => .pure _
  | bypass id => exact (Edit.keeps_bypass id).bind fun _ => .pure _
  | rebuild id change => exact (Edit.keeps_rebuild id change).bind fun _ => .pure _

namespace Graph

variable {graph left right : Graph}

/-- A state of a history is well formed and has grown from the first one. -/
theorem grows_of_mem_states (wellFormed : graph.WellFormed) {calls : List EditCall}
    (isState : left ∈ graph.states calls) : left.WellFormed ∧ graph.Grows left := by
  induction calls generalizing graph with
  | nil =>
    obtain rfl := List.mem_singleton.1 isState
    exact ⟨wellFormed, .refl left⟩
  | cons call rest ih =>
    rcases List.mem_cons.1 isState with rfl | later
    · exact ⟨wellFormed, .refl left⟩
    · obtain ⟨leftWellFormed, grows⟩ := ih (call.keeps graph wellFormed) later
      exact ⟨leftWellFormed, (call.grows wellFormed).trans grows⟩

/-- Of two states of one history one has grown from the other. -/
theorem grows_or_grows (wellFormed : graph.WellFormed) {calls : List EditCall}
    (isLeft : left ∈ graph.states calls) (isRight : right ∈ graph.states calls) :
    left.Grows right ∨ right.Grows left := by
  induction calls generalizing graph with
  | nil =>
    obtain rfl := List.mem_singleton.1 isLeft
    obtain rfl := List.mem_singleton.1 isRight
    exact .inl (.refl _)
  | cons call rest ih =>
    rcases List.mem_cons.1 isLeft with rfl | leftLater
    · exact .inl (grows_of_mem_states wellFormed isRight).2
    · rcases List.mem_cons.1 isRight with rfl | rightLater
      · exact .inr (grows_of_mem_states wellFormed isLeft).2
      · exact ih (call.keeps graph wellFormed) leftLater rightLater

/-- An identifier that was given out before a graph grew still stands for the same operator. -/
theorem Grows.mem_operators (grows : left.Grows right) (wellFormed : left.WellFormed) {operator : Operator}
    (isThere : operator ∈ right.operators) (known : operator.id ∈ left.operatorIds) :
    operator ∈ left.operators := by
  refine (grows.operators operator isThere).resolve_right fun isNew => ?_
  obtain ⟨old, isOld, same⟩ := mem_operatorIds.1 known
  have below := wellFormed.operatorsBelow old isOld
  rw [same] at below
  exact Nat.not_le_of_lt below isNew.1

theorem Grows.operators_eq_of_operatorIds (grows : left.Grows right) (leftWellFormed : left.WellFormed)
    (rightWellFormed : right.WellFormed) (same : left.operatorIds = right.operatorIds) :
    left.operators = right.operators := by
  have back : ∀ operator ∈ right.operators, operator ∈ left.operators := fun operator isThere =>
    grows.mem_operators leftWellFormed isThere (same ▸ List.mem_map_of_mem isThere)
  refine leftWellFormed.operators_ext rightWellFormed fun operator => ⟨fun isThere => ?_, back operator⟩
  have listed : operator.id ∈ right.operatorIds := same ▸ List.mem_map_of_mem isThere
  obtain ⟨other, isOther, sameId⟩ := mem_operatorIds.1 listed
  rwa [leftWellFormed.operator_unique isThere (back other isOther) sameId.symm]

end Graph

/-! ### Numbers and bytes -/

/-- Items can be read off their codes written one after another when all codes have one length. -/
theorem flatMap_inj {α β : Type} {code : α → List β} {width : Nat} (nonempty : 0 < width)
    (lengths : ∀ item, (code item).length = width) {left right : List α}
    (distinct : ∀ item ∈ left, ∀ other ∈ right, code item = code other → item = other)
    (same : left.flatMap code = right.flatMap code) : left = right := by
  have nonempty : ∀ item, code item ≠ [] := fun item =>
    List.ne_nil_of_length_pos (lengths item ▸ nonempty)
  induction left generalizing right with
  | nil =>
    cases right with
    | nil => rfl
    | cons other others => exact absurd (List.append_eq_nil_iff.1 same.symm).1 (nonempty other)
  | cons item rest ih =>
    cases right with
    | nil => exact absurd (List.append_eq_nil_iff.1 same).1 (nonempty item)
    | cons other others =>
      obtain ⟨first, later⟩ := List.append_inj same ((lengths item).trans (lengths other).symm)
      rw [distinct item List.mem_cons_self other List.mem_cons_self first]
      rw [ih (fun item isItem other isOther => distinct item (List.mem_cons_of_mem _ isItem) other
        (List.mem_cons_of_mem _ isOther)) later]

namespace Digest

/-- A number below a power of 256 can be read off as many digits. -/
theorem eq_of_digits {count left right : Nat} (leftBelow : left < 256 ^ count)
    (rightBelow : right < 256 ^ count)
    (same : ∀ position < count, left / 256 ^ position % 256 = right / 256 ^ position % 256) :
    left = right := by
  induction count generalizing left right with
  | zero => rw [Nat.lt_one_iff.1 leftBelow, Nat.lt_one_iff.1 rightBelow]
  | succ count ih =>
    have lowest : left % 256 = right % 256 := by simpa using same 0 (Nat.zero_lt_succ count)
    have others : left / 256 = right / 256 := by
      rw [Nat.pow_succ'] at leftBelow rightBelow
      refine ih (Nat.div_lt_of_lt_mul leftBelow) (Nat.div_lt_of_lt_mul rightBelow) fun position inside => ?_
      rw [Nat.div_div_eq_div_mul, Nat.div_div_eq_div_mul, ← Nat.pow_succ']
      exact same (position + 1) (Nat.succ_lt_succ inside)
    rw [← Nat.div_add_mod left 256, ← Nat.div_add_mod right 256, lowest, others]

/-- A number of 64 bits can be read off its bytes. -/
theorem numberBytes_inj {left right : Nat} (leftBelow : left < 2 ^ 64) (rightBelow : right < 2 ^ 64)
    (same : numberBytes left = numberBytes right) : left = right := by
  refine @eq_of_digits 8 left right leftBelow rightBelow fun position inside => ?_
  have equal := List.map_inj_left.1 same position (List.mem_range.2 inside)
  simpa using congrArg UInt8.toNat equal

theorem length_numberBytes (number : Nat) : (numberBytes number).length = 8 := by
  rw [numberBytes, List.length_map, List.length_range]

/-- Numbers of 64 bits can be read off their bytes. -/
theorem flatMap_numberBytes_inj {left right : List Nat} (leftBelow : ∀ number ∈ left, number < 2 ^ 64)
    (rightBelow : ∀ number ∈ right, number < 2 ^ 64)
    (same : left.flatMap numberBytes = right.flatMap numberBytes) : left = right :=
  flatMap_inj (by decide : 0 < 8) length_numberBytes (fun number isLeft other isRight =>
    numberBytes_inj (leftBelow number isLeft) (rightBelow other isRight)) same

end Digest

/-- The hash does not take one input for another one. -/
def Blake3.Distinguishes (left right : List UInt8) : Prop := hash left = hash right → left = right

instance (left right : List UInt8) : Decidable (Blake3.Distinguishes left right) :=
  inferInstanceAs (Decidable (Blake3.hash left = Blake3.hash right → left = right))

namespace Snapshot

/-- Every identifier is below the largest number of 64 bits. -/
def InRange (snapshot : Snapshot) : Prop :=
  (∀ id ∈ snapshot.operators, id.index < 2 ^ 64 - 1) ∧
    ∀ edge ∈ snapshot.edges.toList, edge.source.index < 2 ^ 64 - 1 ∧ edge.target.index < 2 ^ 64 - 1

instance (snapshot : Snapshot) : Decidable snapshot.InRange :=
  inferInstanceAs (Decidable ((∀ id ∈ snapshot.operators, id.index < 2 ^ 64 - 1) ∧
    ∀ edge ∈ snapshot.edges.toList, edge.source.index < 2 ^ 64 - 1 ∧ edge.target.index < 2 ^ 64 - 1))

/-- The bytes that are hashed. -/
def bytes (snapshot : Snapshot) : List UInt8 := snapshot.numbers.flatMap Digest.numberBytes

variable {left right : Snapshot}

/-- Edges can be read off the numbers of their ends. -/
theorem edges_inj {left right : List Edge}
    (same : (left.flatMap fun edge => [edge.source.index, edge.target.index]) =
      right.flatMap fun edge => [edge.source.index, edge.target.index]) : left = right := by
  refine flatMap_inj (by decide : 0 < 2) (fun _ => rfl) ?_ same
  rintro ⟨⟨source⟩, ⟨target⟩⟩ - ⟨⟨otherSource⟩, ⟨otherTarget⟩⟩ - ends
  simpa using ends

/-- A snapshot can be read off its numbers: only the one behind the operators is the largest. -/
theorem numbers_inj (inRange : left.InRange) (same : left.numbers = right.numbers) : left = right := by
  have noOperator : 2 ^ 64 - 1 ∉ left.operators.map Id.index := by
    intro listed
    obtain ⟨id, member, equal⟩ := List.mem_map.1 listed
    exact Nat.ne_of_lt (inRange.1 id member) equal
  have noPort : 2 ^ 64 - 1 ∉ left.edges.toList.flatMap fun edge => [edge.source.index, edge.target.index] := by
    intro listed
    obtain ⟨edge, member, isEnd⟩ := List.mem_flatMap.1 listed
    rcases List.mem_pair.1 isEnd with equal | equal
    · exact Nat.ne_of_lt ((inRange.2 edge member).1) equal.symm
    · exact Nat.ne_of_lt ((inRange.2 edge member).2) equal.symm
  obtain ⟨operators, -, edges⟩ := (List.append_cons_inj_of_notMem noOperator noPort).1 same
  obtain ⟨leftOperators, leftEdges, leftAscending⟩ := left
  obtain ⟨rightOperators, rightEdges, rightAscending⟩ := right
  obtain rfl : leftOperators = rightOperators :=
    List.map_injective_iff.2 (fun ⟨first⟩ ⟨second⟩ equal => congrArg Id.mk equal) operators
  obtain rfl := edges_inj edges
  rfl

theorem InRange.numbers_lt (inRange : left.InRange) : ∀ number ∈ left.numbers, number < 2 ^ 64 := by
  intro number member
  rcases List.mem_append.1 member with listed | listed
  · obtain ⟨id, isThere, rfl⟩ := List.mem_map.1 listed
    have below := inRange.1 id isThere
    omega
  rcases List.mem_cons.1 listed with rfl | listed
  · decide
  · obtain ⟨edge, isThere, isEnd⟩ := List.mem_flatMap.1 listed
    have below := inRange.2 edge isThere
    rcases List.mem_pair.1 isEnd with rfl | rfl <;> omega

theorem bytes_inj (leftInRange : left.InRange) (rightInRange : right.InRange)
    (same : left.bytes = right.bytes) : left = right :=
  numbers_inj leftInRange
    (Digest.flatMap_numberBytes_inj leftInRange.numbers_lt rightInRange.numbers_lt same)

/-- Two snapshots have one fingerprint only if they are the same, provided that the hash tells their
bytes apart. -/
theorem fingerprint_eq_iff (leftInRange : left.InRange) (rightInRange : right.InRange)
    (distinguishes : Blake3.Distinguishes left.bytes right.bytes) :
    left.fingerprint = right.fingerprint ↔ left = right := by
  refine ⟨fun same => bytes_inj leftInRange rightInRange (distinguishes ?_), congrArg fingerprint⟩
  exact congrArg Digest.bytes same

end Snapshot

namespace Graph

variable {graph left right : Graph} {calls : List EditCall}

/-- Two states of one history have one snapshot exactly when they have the same operators, with their
serial numbers, kinds, arguments and ports, and the same edges. Any snapshot can be read off the
numbers that are hashed, so states with one fingerprint have one snapshot unless the hash takes the
bytes of two snapshots for each other. -/
theorem snapshots_tell_apart (wellFormed : graph.WellFormed) (isLeft : left ∈ graph.states calls)
    (isRight : right ∈ graph.states calls) :
    (left.snapshot = right.snapshot ↔ left.operators = right.operators ∧ left.edges = right.edges) ∧
    (∀ first second : Snapshot, first.InRange → second.InRange → first.numbers = second.numbers →
      first = second) ∧
    (left.snapshot.InRange → right.snapshot.InRange →
      Blake3.Distinguishes left.snapshot.bytes right.snapshot.bytes →
        (left.snapshot.fingerprint = right.snapshot.fingerprint ↔ left.snapshot = right.snapshot)) := by
  have leftWellFormed := (grows_of_mem_states wellFormed isLeft).1
  have rightWellFormed := (grows_of_mem_states wellFormed isRight).1
  refine ⟨⟨fun same => ⟨?_, congrArg Snapshot.edges same⟩, ?_⟩,
    fun _ _ inRange _ => Snapshot.numbers_inj inRange, Snapshot.fingerprint_eq_iff⟩
  · have sameIds : left.operatorIds = right.operatorIds := congrArg Snapshot.operators same
    rcases grows_or_grows wellFormed isLeft isRight with grows | grows
    · exact grows.operators_eq_of_operatorIds leftWellFormed rightWellFormed sameIds
    · exact (grows.operators_eq_of_operatorIds rightWellFormed leftWellFormed sameIds.symm).symm
  · rintro ⟨operators, edges⟩
    rw [snapshot, snapshot, operatorIds, operatorIds, operators, edges]

/-- A projection is wired with itself, a checkpoint is added and removed again, and the projection is
rebuilt as it is. -/
def recurringCalls : List EditCall :=
  [.add (.core .project (.named "t")), .connect ⟨1⟩ ⟨0⟩, .add (.core .checkpoint (.named "t")),
    .remove ⟨1⟩, .rebuild ⟨0⟩ id]

/-- Without the checkpoint the snapshot is the one from before, though other identifiers come next; the
rebuilt projection differs from the old one in nothing but identifiers, which gives another
fingerprint. -/
theorem snapshots_tell_apart_recurringCalls : ∃ joined again rebuilt : Graph,
    (Graph.empty.states recurringCalls)[2]? = some joined ∧
      (Graph.empty.states recurringCalls)[4]? = some again ∧
      (Graph.empty.states recurringCalls)[5]? = some rebuilt ∧ joined ≠ again ∧
      joined.operators = again.operators ∧ joined.edges = again.edges ∧
      joined.snapshot.fingerprint ≠ rebuilt.snapshot.fingerprint := by
  have wellFormed : Graph.empty.WellFormed := wellFormed_of_no_operators rfl rfl
  have isState : ∀ position state, (Graph.empty.states recurringCalls)[position]? = some state →
      state ∈ Graph.empty.states recurringCalls := fun _ _ => List.mem_of_getElem?
  refine ⟨_, _, _, rfl, rfl, rfl, by decide +kernel, ?_⟩
  have same := (snapshots_tell_apart wellFormed (isState 2 _ rfl) (isState 4 _ rfl)).1.1
    (by decide +kernel)
  have apart := (snapshots_tell_apart wellFormed (isState 2 _ rfl) (isState 5 _ rfl)).2.2
    (by decide +kernel) (by decide +kernel) (by decide +kernel)
  exact ⟨same.1, same.2, fun equal => absurd (apart.1 equal) (by decide +kernel)⟩

end Graph

end StagePlanner
