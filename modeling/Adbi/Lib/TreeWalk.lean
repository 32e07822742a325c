import Adbi.Lib.OrderedTree

/-! A loop over a search tree that saves the successor of a node before it
enters the body. The saved node is all that the loop knows about the rest of
the tree: insertions and the removal of the node it is at do no harm, the
removal of the saved one does. -/
namespace Adbi.Lib

/-- A node in memory. No two insertions make the same one. -/
abbrev Node := Nat

/-- The node a loop is at, with its key, and the successor that it saved. -/
structure Walk (κ : Type) where
  key : κ
  node : Node
  saved : Option (κ × Node)
  deriving DecidableEq

namespace Walk

variable {κ ε : Type} [LinearOrder κ] {t u : OrderedTree κ Node} {w v : Walk κ} {e : κ × Node}
  {k : κ} {n : Node}

/-- The loop gets to a node and reads its successor. -/
def enter (t : OrderedTree κ Node) (e : κ × Node) : Walk κ := ⟨e.1, e.2, t.next e.1⟩

/-- The start of the loop, if there is a node. -/
def start (t : OrderedTree κ Node) : Option (Walk κ) := t.first.map (enter t)

/-- The loop steps to the saved node. Its successor cannot be read, and the step
goes wrong, when the node is not in the tree. -/
def advance (t : OrderedTree κ Node) (w : Walk κ) (dangling : ε) : Except ε (Option (Walk κ)) :=
  match w.saved with
  | none => .ok none
  | some e => if t.get e.1 = some e.2 then .ok (some (enter t e)) else .error dangling

/-- The saved node is in the tree, and it is not the node that the loop is at. -/
def Safe (t : OrderedTree κ Node) (w : Walk κ) : Prop := ∀ e ∈ w.saved, e ∈ t.entries ∧ w.key < e.1

theorem enter_safe (t : OrderedTree κ Node) (e : κ × Node) : (enter t e).Safe t :=
  fun _ saved => ⟨List.mem_of_find?_eq_some saved, OrderedTree.next_lt saved⟩

/-- Where a loop starts is in the tree. -/
theorem start_mem (started : start t = some w) : (w.key, w.node) ∈ t.entries := by
  obtain ⟨e, first, rfl⟩ := Option.map_eq_some_iff.mp started
  exact List.mem_of_mem_head? first

theorem start_safe (started : start t = some w) : w.Safe t := by
  obtain ⟨e, -, rfl⟩ := Option.map_eq_some_iff.mp started
  exact enter_safe t e

/-- A loop goes wrong only when what it saved is gone. -/
theorem Safe.advance_ok (safe : w.Safe t) (dangling : ε) : ∃ v, w.advance t dangling = .ok v := by
  cases saved : w.saved with
  | none => exact ⟨none, by simp only [advance, saved]⟩
  | some e =>
    have there := OrderedTree.get_eq_some_iff.mpr (safe e saved).1
    exact ⟨some (enter t e), by simp only [advance, saved, there, if_true]⟩

/-- Where a loop steps to is in the tree, and what it saves there as well. -/
theorem advanced (stepped : w.advance t dangling = .ok (some v)) :
    (v.key, v.node) ∈ t.entries ∧ v.Safe t := by
  simp only [advance] at stepped
  split at stepped
  · cases stepped
  · rename_i e saved
    split at stepped
    · rename_i there
      cases stepped
      exact ⟨OrderedTree.get_eq_some_iff.mp there, enter_safe t e⟩
    · cases stepped

/-- A tree that still has what was saved is safe. -/
theorem Safe.mono (safe : w.Safe t) (kept : ∀ e ∈ w.saved, e ∈ t.entries → e ∈ u.entries) : w.Safe u :=
  fun e saved => ⟨kept e saved (safe e saved).1, (safe e saved).2⟩

/-- The node that the loop is at may go. -/
theorem Safe.current_spared (safe : w.Safe t) : ∀ e ∈ w.saved, e.1 ≠ w.key :=
  fun e saved => (safe e saved).2.ne'

end Walk
end Adbi.Lib
