import Mathlib.Algebra.Order.Ring.Nat
import Mathlib.Data.List.Basic
import Mathlib.Data.Nat.Factorization.Basic
import Mathlib.Tactic.Ring

/-! The bits of a mask, numbered from the lowest on: the rank of a place is how many
bits of the mask are below it. -/
namespace Adbi.Lib

variable {n : Nat} {mask : BitVec n}

/-- How many bits of the mask are below the place. -/
def rank (mask : BitVec n) (place : Nat) : Nat := (List.range place).countP mask.getLsbD

@[simp] theorem rank_zero : rank mask 0 = 0 := rfl

theorem rank_succ (mask : BitVec n) (place : Nat) :
    rank mask (place + 1) = rank mask place + if mask.getLsbD place then 1 else 0 := by
  rw [rank, List.range_succ, List.countP_append]
  simp [rank]

theorem rank_le (mask : BitVec n) (place : Nat) : rank mask place ≤ place := by
  simpa [rank] using List.countP_le_length (p := mask.getLsbD) (l := List.range place)

theorem rank_mono {place other : Nat} (below : place ≤ other) : rank mask place ≤ rank mask other := by
  induction below with
  | refl => exact Nat.le_refl _
  | step _ ih =>
    rw [rank_succ]
    omega

/-- The rank grows by at most one from place to place. -/
theorem rank_le_add (mask : BitVec n) {place other : Nat} (below : place ≤ other) :
    rank mask other ≤ rank mask place + (other - place) := by
  induction below with
  | refl => omega
  | @step other before ih =>
    have before : place ≤ other := before
    rw [rank_succ]
    split <;> omega

/-- A bit of the mask raises the rank of every place above it. -/
theorem rank_lt {place other : Nat} (set : mask.getLsbD place = true) (below : place < other) :
    rank mask place < rank mask other := by
  have above : rank mask (place + 1) ≤ rank mask other := rank_mono below
  rw [rank_succ, if_pos set] at above
  omega

/-- Every smaller rank is that of a bit of the mask. -/
theorem exists_rank {place r : Nat} (small : r < rank mask place) :
    ∃ i < place, mask.getLsbD i = true ∧ rank mask i = r := by
  induction place with
  | zero => simp at small
  | succ place ih =>
    by_cases below : r < rank mask place
    · obtain ⟨i, lower, found⟩ := ih below
      exact ⟨i, by omega, found⟩
    · rw [rank_succ] at small
      cases set : mask.getLsbD place with
      | false =>
        rw [set] at small
        simp at small
        omega
      | true =>
        rw [set] at small
        simp at small
        exact ⟨place, by omega, set, by omega⟩

/-- Over a stretch without bits of the mask the rank stays. -/
theorem rank_of_clear {place : Nat} (count : Nat)
    (clear : ∀ i, place ≤ i → i < place + count → mask.getLsbD i = false) :
    rank mask (place + count) = rank mask place := by
  induction count with
  | zero => rfl
  | succ count ih =>
    rw [← Nat.add_assoc, rank_succ, clear _ (by omega) (by omega),
      ih fun i low high => clear i low (by omega)]
    rfl

/-- Over a stretch of bits of the mask it grows with the places. -/
theorem rank_of_set {place : Nat} (count : Nat)
    (set : ∀ i, place ≤ i → i < place + count → mask.getLsbD i = true) :
    rank mask (place + count) = rank mask place + count := by
  induction count with
  | zero => rfl
  | succ count ih =>
    rw [← Nat.add_assoc, rank_succ, set _ (by omega) (by omega),
      ih fun i low high => set i low (by omega)]
    rfl

/-- As many bits as places are all of them. -/
theorem set_of_rank_full {place : Nat} (full : rank mask place = place) {i : Nat} (below : i < place) :
    mask.getLsbD i = true := by
  by_contra clear
  have lower := rank_le mask i
  have here := rank_succ mask i
  have upper : rank mask place ≤ rank mask (i + 1) + (place - (i + 1)) := rank_le_add mask (by omega)
  rw [if_neg clear] at here
  omega

/-- Without one of its bits a mask has one less below the places above it. -/
theorem rank_clear {rest : BitVec n} {place : Nat} (set : mask.getLsbD place = true)
    (cleared : ∀ i, rest.getLsbD i = (mask.getLsbD i && decide (i ≠ place))) (other : Nat) :
    rank mask other = rank rest other + if place < other then 1 else 0 := by
  induction other with
  | zero => simp
  | succ other ih =>
    rw [rank_succ, rank_succ, cleared, ih]
    by_cases here : other = place
    · subst here
      simp [set]
    · have split : place < other + 1 ↔ place < other := by omega
      simp only [ne_eq, here, not_false_eq_true, decide_true, Bool.and_true, split]
      omega

/-- Subtracting one borrows from the lowest bit, which is all that the two have not
in common from there on. -/
theorem clear_lowest {x : BitVec n} (nonzero : x ≠ 0) :
    ∃ lowest < n, x.getLsbD lowest = true ∧
      ∀ i, (x &&& (x - 1)).getLsbD i = (x.getLsbD i && decide (i ≠ lowest)) := by
  have positive : x.toNat ≠ 0 := fun zero => nonzero (BitVec.eq_of_toNat_eq (by simpa using zero))
  obtain ⟨lowest, _, ⟨q, rfl⟩, odd⟩ := Nat.exists_eq_two_pow_mul_odd positive
  have here := Nat.two_pow_pos lowest
  have split : x.toNat = 2 ^ (lowest + 1) * q + 2 ^ lowest := by rw [odd, Nat.pow_succ]; ring
  have inside : lowest < n := (Nat.pow_lt_pow_iff_right (by decide : 1 < 2)).mp
    (by have := x.isLt; omega)
  have borrowed : (x - 1).toNat = 2 ^ (lowest + 1) * q + (2 ^ lowest - 1) := by
    have one : (1 : BitVec n).toNat = 1 := by
      have := x.isLt
      simp
      omega
    rw [BitVec.toNat_sub_of_le (by rw [BitVec.le_def, one]; omega), one, split]
    omega
  have bits (i : Nat) : x.getLsbD i = if i < lowest + 1 then decide (lowest = i)
      else q.testBit (i - (lowest + 1)) := by
    rw [← BitVec.testBit_toNat, split, Nat.testBit_two_pow_mul_add _ (by rw [Nat.pow_succ]; omega),
      Nat.testBit_two_pow]
  have rest (i : Nat) : (x - 1).getLsbD i = if i < lowest + 1 then decide (i < lowest)
      else q.testBit (i - (lowest + 1)) := by
    rw [← BitVec.testBit_toNat, borrowed, Nat.testBit_two_pow_mul_add _ (by rw [Nat.pow_succ]; omega),
      Nat.testBit_two_pow_sub_one]
  refine ⟨lowest, inside, by simp [bits], fun i => ?_⟩
  rw [BitVec.getLsbD_and, bits, rest]
  by_cases below : i < lowest + 1
  · simp only [below, if_true]
    by_cases same : lowest = i
    · simp [same]
    · simp [same]
  · have different : i ≠ lowest := by omega
    simp [below, different]

end Adbi.Lib
