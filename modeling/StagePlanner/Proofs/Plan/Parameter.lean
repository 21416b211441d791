import Mathlib.Data.List.Infix
import Mathlib.Data.List.TakeWhile
import StagePlanner.Plan.Parameter

/-!
# References to parameters

References are read from the left, each from an opening to the next closing brace, whatever stands
between them (`Text.Reads`). So a reference is found for itself exactly when the text before it leaves
none open (`Text.Reads.append`); behind an opening that is still open it becomes the end of a longer
body (`Text.Reads.exists_open`). What is read is always the body of some reference of the text
(`Text.Reads.exists_of_mem`).
-/

namespace StagePlanner.Text

/-- A text leaves a reference open: no closing brace follows some opening. -/
def LeavesOpen (text : List Char) : Prop :=
  ∃ front rest, text = front ++ '$' :: '\x7b' :: rest ∧ '\x7d' ∉ rest

instance (text : List Char) : Decidable (LeavesOpen text) :=
  decidable_of_iff (∃ tail ∈ text.tails, ['$', '\x7b'] <+: tail ∧ '\x7d' ∉ tail.drop 2) <| by
    constructor
    · rintro ⟨_, isTail, ⟨rest, rfl⟩, inside⟩
      obtain ⟨front, rfl⟩ := (List.mem_tails _ _).1 isTail
      exact ⟨front, rest, rfl, inside⟩
    · rintro ⟨front, rest, rfl, inside⟩
      exact ⟨_, (List.mem_tails _ _).2 ⟨front, rfl⟩, ⟨rest, rfl⟩, inside⟩

/-- A text is read from the left, and these are the bodies of the references that are found. -/
inductive Reads : List Char → List (List Char) → Prop
  | nil : Reads [] []
  | skip {head : Char} {tail : List Char} {found : List (List Char)}
      (plain : head = '$' → tail.head? ≠ some '\x7b') (rest : Reads tail found) :
      Reads (head :: tail) found
  | take {body after : List Char} {found : List (List Char)} (inside : '\x7d' ∉ body)
      (rest : Reads after found) : Reads ('$' :: '\x7b' :: (body ++ '\x7d' :: after)) (body :: found)
  | stop {rest : List Char} (inside : '\x7d' ∉ rest) : Reads ('$' :: '\x7b' :: rest) []

/-! ### Reading by searches -/

theorem forall_isInside {text : List Char} (inside : '\x7d' ∉ text) :
    ∀ character ∈ text, isInside character = true := by
  intro character member
  have other : character ≠ '\x7d' := fun closing => inside (closing ▸ member)
  simpa [isInside] using other

/-- The two searches of one round find the next reference. -/
theorem bodies_of_reads {text : List Char} {found : List (List Char)} (reads : Reads text found)
    {rounds : Nat} (enough : text.length ≤ rounds) : bodies rounds text = found := by
  induction reads generalizing rounds with
  | nil => cases rounds <;> rfl
  | @skip head tail found plain rest ih =>
    obtain ⟨rounds, rfl⟩ := Nat.exists_eq_succ_of_ne_zero (Nat.ne_zero_of_lt enough)
    have passed : afterOpening? (head :: tail) = afterOpening? tail := by
      rw [afterOpening?]
      rintro rest rfl rfl
      exact plain rfl rfl
    have same : bodies (rounds + 1) (head :: tail) = bodies (rounds + 1) tail := by
      simp only [bodies, passed]
    exact same.trans (ih ((Nat.le_succ _).trans enough))
  | @take body after found inside rest ih =>
    obtain ⟨rounds, rfl⟩ := Nat.exists_eq_succ_of_ne_zero (Nat.ne_zero_of_lt enough)
    have all := forall_isInside inside
    have closing : isInside '\x7d' ≠ true := by decide
    rw [bodies, afterOpening?]
    simp only [List.dropWhile_append_of_pos all, List.takeWhile_append_of_pos all,
      List.dropWhile_cons_of_neg closing, List.takeWhile_cons_of_neg closing, List.append_nil]
    refine congrArg (body :: ·) (ih ?_)
    simp only [List.length_cons, List.length_append] at enough
    omega
  | @stop rest inside =>
    obtain ⟨rounds, rfl⟩ := Nat.exists_eq_succ_of_ne_zero (Nat.ne_zero_of_lt enough)
    have all : rest.dropWhile isInside = [] := List.dropWhile_eq_nil_iff.2 (forall_isInside inside)
    rw [bodies, afterOpening?]
    simp only [all]

/-- Every text can be read. -/
theorem exists_reads (text : List Char) : ∃ found, Reads text found := by
  induction size : text.length using Nat.strong_induction_on generalizing text with
  | _ size ih =>
    subst size
    match text with
    | [] => exact ⟨[], .nil⟩
    | head :: tail =>
      by_cases plain : head = '$' → tail.head? ≠ some '\x7b'
      · obtain ⟨found, reads⟩ := ih tail.length (Nat.lt_succ_self _) tail rfl
        exact ⟨found, .skip plain reads⟩
      · obtain ⟨rfl, begins⟩ := Classical.not_imp.1 plain
        obtain ⟨rest, rfl⟩ := List.head?_eq_some_iff.1 (Classical.not_not.1 begins)
        by_cases closing : '\x7d' ∈ rest
        · obtain ⟨body, after, rfl, inside⟩ := List.eq_append_cons_of_mem closing
          obtain ⟨found, reads⟩ := ih after.length (by simp; omega) after rfl
          exact ⟨body :: found, .take inside reads⟩
        · exact ⟨[], .stop closing⟩

/-! ### What is left open -/

theorem not_leavesOpen_nil : ¬ LeavesOpen [] := fun ⟨front, _, same, _⟩ => by simp at same

theorem LeavesOpen.of_cons {head : Char} {tail : List Char}
    (plain : head = '$' → tail.head? ≠ some '\x7b') (leaves : LeavesOpen (head :: tail)) :
    LeavesOpen tail := by
  obtain ⟨front, rest, same, inside⟩ := leaves
  cases front with
  | nil =>
    obtain ⟨rfl, rfl⟩ := List.cons.inj same
    exact absurd rfl (plain rfl)
  | cons first front =>
    obtain ⟨-, rfl⟩ := List.cons.inj same
    exact ⟨front, rest, rfl, inside⟩

/-- A closing brace closes whatever is open. -/
theorem LeavesOpen.of_closed (before : List Char) {after : List Char}
    (leaves : LeavesOpen (before ++ '\x7d' :: after)) : LeavesOpen after := by
  obtain ⟨front, rest, same, inside⟩ := leaves
  rcases List.append_eq_append_iff.1 same with ⟨between, rfl, split⟩ | ⟨between, rfl, split⟩
  · cases between with
    | nil => simp at split
    | cons brace between =>
      obtain ⟨-, rfl⟩ := List.cons.inj split
      exact ⟨between, rest, rfl, inside⟩
  · have closing : '\x7d' ∈ '$' :: '\x7b' :: rest := by simp [split]
    exact absurd (by simpa using closing) inside

namespace Reads

/-- What follows a text that leaves nothing open is read for itself. -/
theorem append {before after : List Char} {found more : List (List Char)} (reads : Reads before found)
    (closed : ¬ LeavesOpen before) (boundary : after.head? ≠ some '\x7b') (next : Reads after more) :
    Reads (before ++ after) (found ++ more) := by
  induction reads with
  | nil => exact next
  | @skip head tail found plain rest ih =>
    have rest := ih fun ⟨front, rest, same, inside⟩ => closed ⟨head :: front, rest, by simp [same], inside⟩
    refine .skip (fun dollar => ?_) rest
    cases tail with
    | nil => exact boundary
    | cons first tail => exact plain dollar
  | @take body middle found inside rest ih =>
    have rest := ih fun ⟨front, rest, same, inside⟩ =>
      closed ⟨'$' :: '\x7b' :: (body ++ '\x7d' :: front), rest, by simp [same], inside⟩
    rw [List.cons_append, List.cons_append, List.append_assoc]
    exact .take inside rest
  | @stop rest inside => exact absurd ⟨[], rest, rfl, inside⟩ closed

/-- The first opening that is left open ends the reading. -/
theorem exists_open {before : List Char} {found : List (List Char)} (reads : Reads before found)
    (leaves : LeavesOpen before) : ∃ front rest, before = front ++ '$' :: '\x7b' :: rest ∧
      '\x7d' ∉ rest ∧ ¬ LeavesOpen front ∧ Reads front found := by
  induction reads with
  | nil => exact absurd leaves not_leavesOpen_nil
  | @skip head tail found plain _ ih =>
    obtain ⟨front, rest, rfl, inside, closed, reads⟩ := ih (leaves.of_cons plain)
    have still : head = '$' → front.head? ≠ some '\x7b' := by
      intro dollar
      cases front with
      | nil => nofun
      | cons first front => exact plain dollar
    exact ⟨head :: front, rest, rfl, inside, fun more => closed (more.of_cons still), .skip still reads⟩
  | @take body after found inBody _ ih =>
    obtain ⟨front, rest, rfl, inside, closed, reads⟩ :=
      ih (LeavesOpen.of_closed ('$' :: '\x7b' :: body) leaves)
    exact ⟨'$' :: '\x7b' :: (body ++ '\x7d' :: front), rest, by simp, inside,
      fun more => closed (LeavesOpen.of_closed ('$' :: '\x7b' :: body) more),
      .take inBody reads⟩
  | @stop rest inside => exact ⟨[], rest, rfl, inside, not_leavesOpen_nil, .nil⟩

/-- What is found stands between an opening and the next closing brace. -/
theorem exists_of_mem {text : List Char} {found : List (List Char)} (reads : Reads text found)
    {body : List Char} (member : body ∈ found) : ∃ front after,
      text = front ++ '$' :: '\x7b' :: (body ++ '\x7d' :: after) ∧ '\x7d' ∉ body := by
  induction reads with
  | nil => cases member
  | @skip head tail found _ _ ih =>
    obtain ⟨front, after, rfl, inside⟩ := ih member
    exact ⟨head :: front, after, rfl, inside⟩
  | @take first after found inFirst _ ih =>
    rcases List.mem_cons.1 member with rfl | later
    · exact ⟨[], after, rfl, inFirst⟩
    · obtain ⟨front, last, rfl, inside⟩ := ih later
      exact ⟨'$' :: '\x7b' :: (first ++ '\x7d' :: front), last, by simp, inside⟩
  | stop => cases member

end Reads

/-! ### Names -/

theorem mem_trimFront {text : List Char} {character : Char} (visible : isBlank character = false) :
    character ∈ trimFront text ↔ character ∈ text := by
  refine ⟨fun member => (List.dropWhile_suffix isBlank).subset member, fun member => ?_⟩
  rw [← List.takeWhile_append_dropWhile (p := isBlank) (l := text), List.mem_append] at member
  rcases member with blank | rest
  · rw [List.mem_takeWhile_imp blank] at visible
    cases visible
  · exact rest

/-- Trimming removes blanks only. -/
theorem mem_trimEnds {text : List Char} {character : Char} (visible : isBlank character = false) :
    character ∈ trimEnds text ↔ character ∈ text := by
  rw [trimEnds, List.mem_reverse, mem_trimFront visible, List.mem_reverse, mem_trimFront visible]

/-- The names that stand in some bodies. -/
def namesIn (found : List (List Char)) : List String :=
  (found.map fun body => trim (String.ofList body)).filter (· ≠ "")

theorem references_of_reads {text : String} {found : List (List Char)} (reads : Reads text.toList found) :
    references text = namesIn found := by
  rw [references, bodies_of_reads reads (String.length_toList ▸ le_rfl), namesIn]
  simp only [trim, List.filter_map, List.map_map, Function.comp_def, String.toList_ofList]
  refine congrArg _ (List.filter_congr fun body _ => ?_)
  cases trimEnds body <;> simp

theorem namesIn_append (found more : List (List Char)) :
    namesIn (found ++ more) = namesIn found ++ namesIn more := by
  simp [namesIn]

theorem namesIn_cons {body : List Char} (found : List (List Char))
    (nonblank : trim (String.ofList body) ≠ "") :
    namesIn (body :: found) = trim (String.ofList body) :: namesIn found := by
  simp [namesIn, nonblank]

/-- How a reference to a parameter is written. -/
def reference (body : String) : String := "$\x7b" ++ body ++ "\x7d"

/-- A reference behind a text that leaves nothing open is found for itself, and what stands before and
behind it is read as if it were alone. -/
theorem references_closed {before name after : String} (inside : '\x7d' ∉ name.toList)
    (nonblank : trim name ≠ "") (closed : ¬ LeavesOpen before.toList) :
    references (before ++ reference name ++ after) =
      references before ++ trim name :: references after := by
  obtain ⟨found, reads⟩ := exists_reads before.toList
  obtain ⟨more, next⟩ := exists_reads after.toList
  have whole := reads.append closed (by simp) (.take inside next)
  rw [references_of_reads reads, references_of_reads next,
    @references_of_reads _ (found ++ name.toList :: more) (by simpa [reference] using whole),
    namesIn_append, namesIn_cons more (by simpa using nonblank), String.ofList_toList]

theorem trim_ne_of_dollar {text name : String} (dollar : '$' ∈ text.toList) (plain : '$' ∉ name.toList) :
    trim text ≠ trim name := by
  intro same
  have kept : '$' ∈ trimEnds text.toList := (mem_trimEnds (by decide)).2 dollar
  rw [String.ofList_injective same] at kept
  exact plain ((mem_trimEnds (by decide)).1 kept)

/-- A reference behind an opening that is left open becomes the end of a longer body. -/
theorem references_swallowed {before name after : String} (inside : '\x7d' ∉ name.toList)
    (leaves : LeavesOpen before.toList) : ∃ front rest : String, before = front ++ "$\x7b" ++ rest ∧
      '\x7d' ∉ rest.toList ∧
      references (before ++ reference name ++ after) =
        references before ++ trim (rest ++ "$\x7b" ++ name) :: references after := by
  obtain ⟨found, reads⟩ := exists_reads before.toList
  obtain ⟨more, next⟩ := exists_reads after.toList
  obtain ⟨front, rest, split, unclosed, closed, again⟩ := reads.exists_open leaves
  have within : '\x7d' ∉ rest ++ '$' :: '\x7b' :: name.toList := by simp [unclosed, inside]
  have whole := again.append closed (by simp) (.take within next)
  have body : String.ofList (rest ++ '$' :: '\x7b' :: name.toList) = String.ofList rest ++ "$\x7b" ++ name :=
    String.toList_inj.1 (by simp)
  have nonblank : trim (String.ofList rest ++ "$\x7b" ++ name) ≠ trim "" :=
    trim_ne_of_dollar (by simp) (by simp)
  refine ⟨String.ofList front, String.ofList rest, String.toList_inj.1 (by simp [split]),
    by simpa using unclosed, ?_⟩
  rw [references_of_reads reads, references_of_reads next,
    @references_of_reads _ (found ++ (rest ++ '$' :: '\x7b' :: name.toList) :: more)
      (by simpa [split, reference] using whole), namesIn_append, namesIn_cons more (body ▸ nonblank), body]

theorem exists_of_mem_references {text name : String} (member : name ∈ references text) :
    ∃ front body after : String, text = front ++ reference body ++ after ∧
      '\x7d' ∉ body.toList ∧ trim body = name ∧ name ≠ "" := by
  obtain ⟨found, reads⟩ := exists_reads text.toList
  rw [references_of_reads reads, namesIn, List.mem_filter, List.mem_map] at member
  obtain ⟨⟨body, isBody, rfl⟩, nonblank⟩ := member
  obtain ⟨front, after, split, inside⟩ := reads.exists_of_mem isBody
  exact ⟨String.ofList front, String.ofList body, String.ofList after,
    String.toList_inj.1 (by simp [split, reference]), by simpa using inside, rfl, by simpa using nonblank⟩

/-! ### What a text adds -/

theorem mem_collectReferences {names : OrderedSet String} {text name : String} :
    name ∈ collectReferences names text ↔ name ∈ names ∨ name ∈ references text :=
  OrderedSet.mem_insertAll

/-- A reference is detected behind every text that leaves none open; behind one that does it is lost,
unless the name is there anyway, and the end of a longer body is added in its place. In either case
the text before the opening and the text behind the closing brace keep their own names, and
nothing but the trimmed body of some reference is ever added. -/
theorem reference_detected (before name after : String)
    (plain : '$' ∉ name.toList ∧ '\x7b' ∉ name.toList ∧ '\x7d' ∉ name.toList)
    (nonblank : trim name ≠ "") :
    (∀ names, trim name ∈ collectReferences names (before ++ reference name ++ after) ↔
      ¬ LeavesOpen before.toList ∨ trim name ∈ names ∨ trim name ∈ references before ∨
        trim name ∈ references after) ∧
    (¬ LeavesOpen before.toList → references (before ++ reference name ++ after) =
      references before ++ trim name :: references after) ∧
    (LeavesOpen before.toList → ∃ front rest : String, before = front ++ "$\x7b" ++ rest ∧
      '\x7d' ∉ rest.toList ∧ references (before ++ reference name ++ after) =
        references before ++ trim (rest ++ "$\x7b" ++ name) :: references after) ∧
    ∀ names text added, added ∈ collectReferences names text → added ∉ names →
      ∃ front body last : String, text = front ++ reference body ++ last ∧ '\x7d' ∉ body.toList ∧
        trim body = added ∧ added ≠ "" := by
  obtain ⟨noDollar, -, inside⟩ := plain
  refine ⟨fun names => ?_, references_closed inside nonblank, references_swallowed inside, ?_⟩
  · rw [mem_collectReferences]
    by_cases leaves : LeavesOpen before.toList
    · obtain ⟨front, rest, -, -, found⟩ := @references_swallowed before name after inside leaves
      have other : trim name ≠ trim (rest ++ "$\x7b" ++ name) :=
        (trim_ne_of_dollar (by simp) noDollar).symm
      simp [found, leaves, other]
    · simp [references_closed inside nonblank leaves, leaves]
  · intro names text added member fresh
    exact exists_of_mem_references ((mem_collectReferences.1 member).resolve_left fresh)

theorem reference_detected_strayBraces :
    "day" ∈ collectReferences ∅ "a\x7d\x7b$-$\x7b day \x7d/$\x7bopen" := by
  obtain ⟨detected, -⟩ :=
    reference_detected "a\x7d\x7b$-" " day " "/$\x7bopen" (by decide) (by decide)
  exact (detected ∅).2 (.inl (by decide))

/-- Behind an opening that is left open a reference is lost. -/
theorem not_reference_detected :
    ¬ ∀ before name after : String,
      '$' ∉ name.toList ∧ '\x7b' ∉ name.toList ∧ '\x7d' ∉ name.toList →
      trim name ≠ "" → trim name ∈ collectReferences ∅ (before ++ reference name ++ after) := by
  intro detected
  have lost : "x" ∉ collectReferences ∅ ("$\x7b" ++ reference "x" ++ "") := by decide +kernel
  exact lost (detected "$\x7b" "x" "" (by decide) (by decide))

end StagePlanner.Text
