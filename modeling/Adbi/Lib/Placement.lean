import Mathlib.Algebra.BigOperators.Group.List.Basic
import Mathlib.Algebra.Order.Ring.Nat
import Mathlib.Data.List.Pairwise
import Mathlib.Tactic.Common

/-! Items of given sizes that are placed one after the other. No two places
overlap, and together they leave nothing out. -/
namespace Adbi.Lib

variable {α : Type} {size : α → Nat} {start offset : Nat} {l : List α} {e : α × Nat}

/-- Each item with the place at which it starts. -/
def places (size : α → Nat) : Nat → List α → List (α × Nat)
  | _, [] => []
  | start, item :: rest => (item, start) :: places size (start + size item) rest

/-- What the items take together. -/
def roomFor (size : α → Nat) (l : List α) : Nat := (l.map size).sum

theorem roomFor_cons {item : α} : roomFor size (item :: l) = size item + roomFor size l := by
  simp [roomFor]

theorem places_bounds (member : e ∈ places size start l) :
    start ≤ e.2 ∧ e.2 + size e.1 ≤ start + roomFor size l := by
  induction l generalizing start with
  | nil => cases member
  | cons item rest ih =>
    rw [roomFor_cons]
    rcases List.mem_cons.mp member with rfl | later
    · exact ⟨Nat.le_refl _, Nat.add_le_add_left (Nat.le_add_right _ _) _⟩
    · have bounds := ih later
      omega

/-- A place ends before the later ones begin. -/
theorem places_apart : (places size start l).Pairwise fun a b => a.2 + size a.1 ≤ b.2 := by
  induction l generalizing start with
  | nil => exact .nil
  | cons item rest ih => exact .cons (fun _ later => (places_bounds later).1) ih

/-- No offset lies in two places. -/
theorem places_unique {a b : α × Nat} (left : a ∈ places size start l) (right : b ∈ places size start l)
    (inLeft : a.2 ≤ offset ∧ offset < a.2 + size a.1)
    (inRight : b.2 ≤ offset ∧ offset < b.2 + size b.1) : a = b := by
  by_contra different
  have apart : (places size start l).Pairwise fun a b => a.2 + size a.1 ≤ b.2 ∨ b.2 + size b.1 ≤ a.2 :=
    places_apart.imp .inl
  have : Std.Symm fun a b : α × Nat => a.2 + size a.1 ≤ b.2 ∨ b.2 + size b.1 ≤ a.2 :=
    ⟨fun _ _ => Or.symm⟩
  have ordered := apart.forall left right different
  omega

theorem places_cover (above : start ≤ offset) (below : offset < start + roomFor size l) :
    ∃ e ∈ places size start l, e.2 ≤ offset ∧ offset < e.2 + size e.1 := by
  induction l generalizing start with
  | nil => exact absurd below (Nat.not_lt_of_le above)
  | cons item rest ih =>
    rw [roomFor_cons] at below
    by_cases here : offset < start + size item
    · exact ⟨_, List.mem_cons_self, above, here⟩
    · obtain ⟨e, member, found⟩ := ih (Nat.le_of_not_lt here) (by omega)
      exact ⟨e, List.mem_cons_of_mem _ member, found⟩

/-- Every item has a place, and nothing else has one. -/
theorem places_items (size : α → Nat) (start : Nat) (l : List α) :
    (places size start l).map (·.1) = l := by
  induction l generalizing start with
  | nil => rfl
  | cons item rest ih => rw [places, List.map_cons, ih]

end Adbi.Lib
