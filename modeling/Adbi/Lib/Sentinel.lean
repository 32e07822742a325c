import Mathlib.Data.List.Basic

/-! Tables of entries of one size that a last entry ends. What reads such a table
entry by entry stays inside it exactly if that entry is there. -/
namespace Adbi.Lib

variable {α : Type} {size : Nat} {ended : List α → Prop} {l : List α}

/-- An entry ends the table, the one at `first` or a later one. -/
def Ends (size : Nat) (ended : List α → Prop) (first : Nat) (l : List α) : Prop :=
  ∃ k, first ≤ k ∧ ended (l.drop (size * k))

theorem ends_of_ended (here : ended l) : Ends size ended 0 l := ⟨0, Nat.le_refl 0, by simpa using here⟩

theorem ends_of_drop {first : Nat} (later : Ends size ended first (l.drop size)) :
    Ends size ended (first + 1) l := by
  obtain ⟨k, behind, last⟩ := later
  rw [List.drop_drop] at last
  exact ⟨k + 1, Nat.succ_le_succ behind, by rwa [Nat.mul_succ, Nat.add_comm]⟩

theorem Ends.earlier {first : Nat} (ends : Ends size ended first l) : Ends size ended 0 l := by
  obtain ⟨k, -, last⟩ := ends
  exact ⟨k, Nat.zero_le k, last⟩

/-- The end is inside, so that all entries before it are. -/
theorem ends_behind (inside : ¬ended []) {first : Nat} (ends : Ends size ended (first + 1) l) :
    size ≤ l.length ∧ Ends size ended first (l.drop size) := by
  obtain ⟨k, behind, last⟩ := ends
  obtain ⟨j, rfl⟩ : ∃ j, k = j + 1 := ⟨k - 1, by omega⟩
  have place : size * (j + 1) < l.length := by
    by_contra beyond
    rw [List.drop_eq_nil_of_le (Nat.le_of_not_lt beyond)] at last
    exact inside last
  refine ⟨?_, j, by omega, ?_⟩
  · rw [Nat.mul_succ] at place
    omega
  · rwa [List.drop_drop, Nat.add_comm, ← Nat.mul_succ]

/-- A reader that goes on behind every other entry needs the last one. -/
theorem ends_of_reads (reads : List α → Prop) (positive : 0 < size)
    (step : ∀ l, reads l → ended l ∨ size ≤ l.length ∧ reads (l.drop size))
    (read : reads l) : Ends size ended 0 l := by
  induction length : l.length using Nat.strongRecOn generalizing l with
  | ind n ih =>
    subst length
    rcases step l read with here | ⟨fits, later⟩
    · exact ends_of_ended here
    · exact (ends_of_drop (ih _ (by rw [List.length_drop]; omega) later rfl)).earlier

/-- With the last entry there, a reader stays inside. -/
theorem reads_of_ends (reads : List α → Prop) (inside : ¬ended []) (stop : ∀ l, ended l → reads l)
    (step : ∀ l, size ≤ l.length → reads (l.drop size) → reads l) (ends : Ends size ended 0 l) :
    reads l := by
  obtain ⟨k, -, last⟩ := ends
  induction k generalizing l with
  | zero => exact stop l (by simpa using last)
  | succ k ih =>
    obtain ⟨fits, -⟩ := ends_behind inside ⟨k + 1, Nat.le_refl _, last⟩
    refine step l fits (ih ?_)
    rwa [List.drop_drop, Nat.add_comm, ← Nat.mul_succ]

end Adbi.Lib
