import Mathlib.Data.List.Nodup

/-!
# Lists with distinct keys

Operators, stages and ports are kept in lists and looked up by their identifiers. When no key is
repeated, looking a key up finds exactly the item that has it. Notes and volumes are kept in lists of
entries, where a new entry replaces those under its key.
-/

namespace StagePlanner

variable {α κ : Type} [DecidableEq κ] {key : α → κ} {items : List α}

/-- Looking up a key finds the item with this key. -/
theorem find?_key_eq_some_iff (distinct : (items.map key).Nodup) {wanted : κ} {item : α} :
    (items.find? fun other => key other = wanted) = some item ↔ item ∈ items ∧ key item = wanted := by
  constructor
  · intro found
    exact ⟨List.mem_of_find?_eq_some found, by simpa using List.find?_some found⟩
  · rintro ⟨member, rfl⟩
    cases found : items.find? fun other => key other = key item with
    | none => simpa using List.find?_eq_none.1 found item member
    | some other =>
      have same : key other = key item := by simpa using List.find?_some found
      rw [List.inj_on_of_nodup_map distinct (List.mem_of_find?_eq_some found) member same]

omit [DecidableEq κ] in
/-- What is found in one of several items and labelled with it is found there. -/
theorem of_findSome?_labelled {β : Type} {find : α → Option β} {item : α} {value : β}
    (found : (items.findSome? fun item => (find item).map fun value => (item, value)) =
      some (item, value)) : item ∈ items ∧ find item = some value := by
  obtain ⟨other, member, inItem⟩ := List.exists_of_findSome?_eq_some found
  obtain ⟨_, isValue, same⟩ := Option.map_eq_some_iff.1 inItem
  cases same
  exact ⟨member, isValue⟩

/-- Entries that are computed from their keys are found under these. -/
theorem lookup_computed {β : Type} (items : List α) (key : α → κ) (value : κ → β) (wanted : κ) :
    (items.map fun item => (key item, value (key item))).lookup wanted =
      if wanted ∈ items.map key then some (value wanted) else none := by
  induction items with
  | nil => rfl
  | cons item rest ih =>
    rw [List.map_cons, List.lookup_cons, ih, List.map_cons]
    by_cases same : wanted = key item
    · simp [same]
    · simp [same, beq_eq_false_iff_ne.2 same]

/-- Without the entries under a key the others are found as before. -/
theorem lookup_filter_ne {β : Type} (entries : List (κ × β)) (key other : κ) :
    (entries.filter fun entry => entry.1 ≠ key).lookup other =
      if other = key then none else entries.lookup other := by
  induction entries with
  | nil => simp
  | cons entry rest ih =>
    obtain ⟨place, value⟩ := entry
    by_cases dropped : place = key
    · subst dropped
      rw [List.filter_cons_of_neg (by simp), ih]
      split
      · rfl
      · next differs => rw [List.lookup_cons, beq_eq_false_iff_ne.2 differs]
    · rw [List.filter_cons_of_pos (by simpa using dropped), List.lookup_cons, ih, List.lookup_cons]
      by_cases same : other = place
      · subst same
        simp only [if_neg dropped, beq_self_eq_true]
      · rw [beq_eq_false_iff_ne.2 same]

/-- A new entry replaces those under its key. -/
theorem lookup_replaced {β : Type} (entries : List (κ × β)) (key other : κ) (value : β) :
    ((key, value) :: entries.filter fun entry => entry.1 ≠ key).lookup other =
      if other = key then some value else entries.lookup other := by
  rw [List.lookup_cons, lookup_filter_ne]
  by_cases same : other = key
  · simp [same]
  · simp [same, beq_eq_false_iff_ne.2 same]

end StagePlanner
