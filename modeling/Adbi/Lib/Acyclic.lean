import Mathlib.Data.Set.Card
import Mathlib.Logic.Relation

/-! Finite relations without cycles, and the measure with which a recursion along one ends. -/
namespace Adbi.Lib
open Relation

variable {α : Type} {R : α → α → Prop} {a b : α}

def Acyclic (R : α → α → Prop) : Prop := ∀ a, ¬TransGen R a a

/-- A measure that every step makes smaller. -/
theorem acyclic_of_measure (measure : α → Nat) (down : ∀ a b, R a b → measure b < measure a) :
    Acyclic R := by
  have less {a b : α} (path : TransGen R a b) : measure b < measure a := by
    induction path with
    | single step => exact down _ _ step
    | tail _ step ih => exact Nat.lt_trans (down _ _ step) ih
  exact fun a cycle => Nat.lt_irrefl _ (less cycle)

/-- How many elements come after one. -/
noncomputable def height (R : α → α → Prop) (a : α) : Nat := {b | TransGen R a b}.ncard

theorem height_lt [Finite α] (acyclic : Acyclic R) (step : R a b) : height R b < height R a := by
  refine Set.ncard_lt_ncard ⟨fun c later => TransGen.head step later, fun back => ?_⟩ (Set.toFinite _)
  exact acyclic b (back (TransGen.single step))

theorem height_le_card [Finite α] (R : α → α → Prop) (a : α) : height R a ≤ Nat.card α := by
  rw [← Set.ncard_univ]
  exact Set.ncard_le_ncard (Set.subset_univ _) (Set.toFinite _)

end Adbi.Lib
