import Adbi.Lib.Bytes
import Mathlib.Data.List.GetD

/-! Lists written over a memory, whose addresses wrap around, and what is left of
the memory when its old contents are written back. -/
namespace Adbi.Lib.Overwrite

variable {n : Nat} {α : Type} {memory original : BitVec n → α} {address a : BitVec n} {l : List α}

/-- The address is one of the first `size` from `start` on. -/
def Within (start : BitVec n) (size : Nat) (a : BitVec n) : Prop := (a - start).toNat < size

instance (start : BitVec n) (size : Nat) (a : BitVec n) : Decidable (Within start size a) :=
  inferInstanceAs (Decidable (_ < _))

def overwrite (memory : BitVec n → α) (address : BitVec n) (l : List α) : BitVec n → α :=
  fun a => l.getD (a - address).toNat (memory a)

theorem overwrite_outside (outside : ¬Within address l.length a) :
    overwrite memory address l a = memory a :=
  List.getD_eq_default _ _ (Nat.le_of_not_lt outside)

/-- The contents of another memory, written to their place. -/
theorem overwrite_inside (holds : Holds original address l) (inside : Within address l.length a) :
    overwrite memory address l a = original a := by
  have here := holds (a - address).toNat inside
  rw [BitVec.ofNat_toNat, BitVec.setWidth_eq, BitVec.add_comm, BitVec.sub_add_cancel] at here
  rw [overwrite, here, List.getD_eq_getElem _ _ inside]
  rfl

/-- A part of a list is written over a part of its place. -/
theorem overwrite_take_outside (count : Nat) (outside : ¬Within address l.length a) :
    overwrite memory address (l.take count) a = memory a := by
  refine overwrite_outside fun inside => outside ?_
  rw [Within, List.length_take] at inside
  exact Nat.lt_of_lt_of_le inside (Nat.min_le_right _ _)

/-- The lists with their addresses, one after the other. -/
def overwriteAll (memory : BitVec n → α) (pieces : List (BitVec n × List α)) : BitVec n → α :=
  pieces.foldl (fun memory piece => overwrite memory piece.1 piece.2) memory

/-- The addresses that are written over. -/
def Covered (pieces : List (BitVec n × List α)) (a : BitVec n) : Prop :=
  ∃ piece ∈ pieces, Within piece.1 piece.2.length a

theorem covered_cons {piece : BitVec n × List α} {rest : List (BitVec n × List α)} :
    Covered (piece :: rest) a ↔ Within piece.1 piece.2.length a ∨ Covered rest a := by
  simp [Covered]

/-- Pieces of one memory may overlap: in any order, they bring back its contents
wherever one of them belongs. -/
theorem overwriteAll_inside {pieces : List (BitVec n × List α)}
    (saved : ∀ piece ∈ pieces, Holds original piece.1 piece.2)
    (covered : Covered pieces a ∨ memory a = original a) :
    overwriteAll memory pieces a = original a := by
  induction pieces generalizing memory with
  | nil =>
    rcases covered with ⟨piece, member, -⟩ | same
    · cases member
    · exact same
  | cons piece rest ih =>
    have here : Covered rest a ∨ overwrite memory piece.1 piece.2 a = original a := by
      by_cases inside : Within piece.1 piece.2.length a
      · exact .inr (overwrite_inside (saved piece List.mem_cons_self) inside)
      · rw [overwrite_outside inside]
        exact covered.imp_left fun covers => (covered_cons.mp covers).resolve_left inside
    exact ih (fun other member => saved other (List.mem_cons_of_mem _ member)) here

theorem overwriteAll_outside {pieces : List (BitVec n × List α)} (outside : ¬Covered pieces a) :
    overwriteAll memory pieces a = memory a := by
  induction pieces generalizing memory with
  | nil => rfl
  | cons piece rest ih =>
    rw [covered_cons, not_or] at outside
    exact (ih outside.2).trans (overwrite_outside outside.1)

end Adbi.Lib.Overwrite
