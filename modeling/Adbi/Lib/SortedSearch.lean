import Mathlib.Order.Lattice
import Mathlib.Tactic.Common

/-! A walk over a table that ascends in its keys. The walk stops at the first entry
that fails a test, and the entry before it is the answer. -/
namespace Adbi.Lib

variable {α κ : Type} [LinearOrder κ] {key : α → κ} {l : List α} {p : α → Bool} {x : α}

def Ascending (key : α → κ) (l : List α) : Prop := l.Pairwise fun x y => key x < key y

/-- An entry is the answer, if all entries up to it pass and the next one fails. -/
theorem getLast?_takeWhile_of_next (ascending : Ascending key l) (inside : x ∈ l)
    (passes : ∀ y ∈ l, key y ≤ key x → p y = true)
    (next : ∀ y ∈ l, key x < key y → (∀ z ∈ l, key x < key z → key y ≤ key z) → p y = false) :
    (l.takeWhile p).getLast? = some x := by
  obtain ⟨before, after, rfl⟩ := List.append_of_mem inside
  obtain ⟨-, later, crossing⟩ := List.pairwise_append.mp ascending
  obtain ⟨behind, ordered⟩ := List.pairwise_cons.mp later
  have front : ∀ y ∈ before, p y = true := fun y member =>
    passes y (List.mem_append_left _ member) (le_of_lt (crossing y member x List.mem_cons_self))
  have stops : after.takeWhile p = [] := by
    cases after with
    | nil => rfl
    | cons y others =>
      have above := behind y List.mem_cons_self
      have least : ∀ z ∈ before ++ x :: y :: others, key x < key z → key y ≤ key z := by
        intro z member greater
        rcases List.mem_append.mp member with member | member
        · exact absurd (crossing z member x List.mem_cons_self) (not_lt_of_gt greater)
        rcases List.mem_cons.mp member with rfl | member
        · exact absurd greater (lt_irrefl _)
        rcases List.mem_cons.mp member with rfl | member
        · exact le_refl _
        · exact le_of_lt ((List.pairwise_cons.mp ordered).1 z member)
      rw [List.takeWhile_cons, next y (by simp) above least]
      rfl
  rw [List.takeWhile_append_of_pos front, List.takeWhile_cons, passes x inside (le_refl _),
    if_pos rfl, stops]
  exact List.getLast?_concat

/-- There is no answer, if the first entry fails. -/
theorem takeWhile_of_least (ascending : Ascending key l)
    (first : ∀ y ∈ l, (∀ z ∈ l, key y ≤ key z) → p y = false) :
    l.takeWhile p = [] := by
  cases l with
  | nil => rfl
  | cons y later =>
    have least : ∀ z ∈ y :: later, key y ≤ key z := by
      intro z member
      rcases List.mem_cons.mp member with rfl | member
      · exact le_refl _
      · exact le_of_lt ((List.pairwise_cons.mp ascending).1 z member)
    rw [List.takeWhile_cons, first y List.mem_cons_self least]
    rfl

theorem exists_greatest (key : α → κ) (nonempty : l ≠ []) : ∃ x ∈ l, ∀ y ∈ l, key y ≤ key x := by
  induction l with
  | nil => exact absurd rfl nonempty
  | cons first later ih =>
    by_cases alone : later = []
    · subst alone
      exact ⟨first, List.mem_cons_self, fun y member => by rw [List.mem_singleton.mp member]⟩
    obtain ⟨x, inside, greatest⟩ := ih alone
    rcases le_total (key first) (key x) with below | above
    · refine ⟨x, List.mem_cons_of_mem _ inside, fun y member => ?_⟩
      rcases List.mem_cons.mp member with rfl | member
      · exact below
      · exact greatest y member
    · refine ⟨first, List.mem_cons_self, fun y member => ?_⟩
      rcases List.mem_cons.mp member with rfl | member
      · exact le_refl _
      · exact le_trans (greatest y member) above

/-- What a walk up to a bound can end with: an entry in front of one that is above
all entries so far, or the last one. -/
theorem exists_bound_iff (key : α → κ) :
    (∃ bound, (l.takeWhile fun y => key y ≤ bound).getLast? = some x) ↔
    ∃ before after, l = before ++ x :: after ∧
    ∀ next ∈ after.head?, ∀ y ∈ before ++ [x], key y < key next := by
  constructor
  · rintro ⟨bound, last⟩
    obtain ⟨before, taken⟩ := List.getLast?_eq_some_iff.mp last
    refine ⟨before, l.dropWhile fun y => key y ≤ bound, ?_, fun next first y passed => ?_⟩
    · rw [← List.singleton_append, ← List.append_assoc, ← taken, List.takeWhile_append_dropWhile]
    · have stops := List.head?_dropWhile_not (fun y => decide (key y ≤ bound)) l
      rw [Option.mem_def.mp first] at stops
      have below := List.all_eq_true.mp List.all_takeWhile y (taken ▸ passed)
      exact lt_of_le_of_lt (of_decide_eq_true below) (lt_of_not_ge (of_decide_eq_false stops))
  · rintro ⟨before, after, rfl, above⟩
    obtain ⟨y, inside, greatest⟩ :=
      exists_greatest key (List.append_ne_nil_of_right_ne_nil before (List.cons_ne_nil x []))
    have stops : after.takeWhile (fun z => key z ≤ key y) = [] := by
      cases after with
      | nil => rfl
      | cons next others =>
        have stop : ¬decide (key next ≤ key y) = true := by simpa using above next rfl y inside
        rw [List.takeWhile_cons, if_neg stop]
    refine ⟨key y, ?_⟩
    rw [← List.singleton_append, ← List.append_assoc,
      List.takeWhile_append_of_pos fun z member => decide_eq_true (greatest z member),
      stops, List.append_nil]
    exact List.getLast?_concat

end Adbi.Lib
