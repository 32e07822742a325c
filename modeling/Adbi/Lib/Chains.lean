import Mathlib.Data.List.Duplicate
import Mathlib.Data.List.Perm.Subperm
import Mathlib.Logic.Relation

/-! Long walks through a finite part of a graph come back to where they were. -/
namespace Adbi.Lib
open Relation

variable {α : Type} {R : α → α → Prop} {a : α} {p l : List α}

/-- A walk that is longer than the list of the places it can come to runs into a cycle. -/
theorem cycle_of_long_walk (walk : (a :: p).IsChain R) (inside : ∀ b ∈ p, b ∈ l)
    (long : l.length < p.length) :
    ∃ z, ReflTransGen R a z ∧ TransGen R z z := by
  have ordered : (a :: p).Pairwise (TransGen R) := (walk.imp fun _ _ => TransGen.single).pairwise
  obtain ⟨fromStart, later⟩ := List.pairwise_cons.mp ordered
  have twice : ¬p.Nodup := fun distinct =>
    Nat.not_le.mpr long (List.subperm_of_subset distinct inside).length_le
  obtain ⟨z, duplicate⟩ := List.exists_duplicate_iff_not_nodup.mpr twice
  have loop := (List.pairwise_cons.mp (later.sublist (List.duplicate_iff_sublist.mp duplicate))).1 z
    List.mem_cons_self
  exact ⟨z, (fromStart z duplicate.mem).to_reflTransGen, loop⟩

/-- What runs into a cycle has a next step that does. -/
theorem next_of_cycle (runs : ∃ z, ReflTransGen R a z ∧ TransGen R z z) :
    ∃ b, R a b ∧ ∃ z, ReflTransGen R b z ∧ TransGen R z z := by
  obtain ⟨z, reaches, loop⟩ := runs
  rcases reaches.cases_head with rfl | ⟨b, step, rest⟩
  · obtain ⟨b, step, back⟩ := TransGen.head'_iff.mp loop
    exact ⟨b, step, a, back, loop⟩
  · exact ⟨b, step, z, rest, loop⟩

end Adbi.Lib
