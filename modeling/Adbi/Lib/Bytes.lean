import Mathlib.Algebra.Group.Int.Defs
import Mathlib.Algebra.Group.Nat.Defs
import Mathlib.Tactic.Common

/-! Numbers as bytes, the least significant one first, and bytes that stand in a
memory or in a file. -/
namespace Adbi.Lib

abbrev Bytes := List (BitVec 8)

variable {w n : Nat} {α : Type}

/-- The bytes of a number in memory. -/
def littleEndian (value : BitVec w) : Bytes :=
  (List.range (w / 8)).map fun i => value.extractLsb' (8 * i) 8

theorem littleEndian_halfword (v : BitVec 16) :
    littleEndian v = [v.extractLsb' 0 8, v.extractLsb' 8 8] := rfl

theorem littleEndian_word (v : BitVec 32) :
    littleEndian v = [v.extractLsb' 0 8, v.extractLsb' 8 8, v.extractLsb' 16 8,
      v.extractLsb' 24 8] := rfl

/-- The number that bytes stand for. -/
def ofLittleEndian (w : Nat) : Bytes → BitVec w
  | [] => 0
  | byte :: rest => byte.setWidth w ||| (ofLittleEndian w rest <<< 8)

@[simp] theorem length_littleEndian (value : BitVec w) : (littleEndian value).length = w / 8 := by
  simp [littleEndian]

theorem getLsbD_ofLittleEndian (bytes : Bytes) (i : Nat) (inside : i < w) :
    (ofLittleEndian w bytes).getLsbD i = (bytes.getD (i / 8) 0).getLsbD (i % 8) := by
  induction bytes generalizing i with
  | nil => simp [ofLittleEndian]
  | cons byte rest ih =>
    rw [ofLittleEndian, BitVec.getLsbD_or, BitVec.getLsbD_shiftLeft, BitVec.getLsbD_setWidth]
    by_cases first : i < 8
    · simp [inside, first, Nat.div_eq_of_lt first, Nat.mod_eq_of_lt first]
    · obtain ⟨j, rfl⟩ : ∃ j, i = j + 8 := ⟨i - 8, by omega⟩
      have later := ih j (by omega)
      simp [inside, later]

/-- Whole bytes determine a number. -/
theorem ofLittleEndian_littleEndian (value : BitVec w) (whole : 8 ∣ w) :
    ofLittleEndian w (littleEndian value) = value := by
  apply BitVec.eq_of_getLsbD_eq
  intro i inside
  have here : i / 8 < w / 8 := Nat.div_lt_div_of_lt_of_dvd whole inside
  have whole_byte : 8 * (i / 8) + i % 8 = i := Nat.div_add_mod i 8
  rw [getLsbD_ofLittleEndian _ i inside, littleEndian]
  simp [here, whole_byte, Nat.mod_lt]

/-- Bytes are those of the number that they stand for. -/
theorem littleEndian_ofLittleEndian {bytes : Bytes} (whole : 8 * bytes.length = w) :
    littleEndian (ofLittleEndian w bytes) = bytes := by
  refine List.ext_getElem (by simp; omega) fun i _ inside => ?_
  simp only [littleEndian, List.getElem_map, List.getElem_range]
  apply BitVec.eq_of_getLsbD_eq
  intro j inByte
  rw [BitVec.getLsbD_extractLsb', getLsbD_ofLittleEndian _ _ (by omega),
    show (8 * i + j) / 8 = i by omega,
    show (8 * i + j) % 8 = j by omega]
  simp [inByte, inside]

/-! ## Memories -/

/-- The elements stand in the memory from `address` on. -/
def Holds (memory : BitVec n → α) (address : BitVec n) (l : List α) : Prop :=
  ∀ i, (h : i < l.length) → memory (address + BitVec.ofNat n i) = l.get ⟨i, h⟩

variable {memory : BitVec n → α} {address : BitVec n} {x y : List α}

theorem holds_append :
    Holds memory address (x ++ y) ↔
    Holds memory address x ∧ Holds memory (address + BitVec.ofNat n x.length) y := by
  constructor
  · intro all
    refine ⟨fun i h => ?_, fun i h => ?_⟩
    · rw [all i (by simp; omega)]
      simp [h]
    · have here := all (x.length + i) (by simpa using h)
      rw [BitVec.ofNat_add, ← BitVec.add_assoc] at here
      simpa using here
  · rintro ⟨first, second⟩ i h
    by_cases before : i < x.length
    · rw [first i before]
      simp [before]
    · obtain ⟨j, rfl⟩ : ∃ j, i = x.length + j := ⟨i - x.length, by omega⟩
      have here := second j (by simpa using h)
      rw [BitVec.add_assoc, ← BitVec.ofNat_add] at here
      simpa using here

theorem holds_cons {a : α} :
    Holds memory address (a :: x) ↔ memory address = a ∧ Holds memory (address + 1) x := by
  rw [show a :: x = [a] ++ x from rfl, holds_append]
  refine and_congr_left fun _ => ⟨fun all => by simpa using all 0 (by simp), fun same i h => ?_⟩
  have zero : i = 0 := by simpa using h
  subst zero
  simpa using same

@[simp] theorem holds_nil : Holds memory address ([] : List α) := fun i h => absurd h (Nat.not_lt_zero i)

/-- A memory that holds a list at its start. -/
theorem holds_of_getD {l : List α} (fits : l.length ≤ 2 ^ n) (default : α) :
    Holds (fun address : BitVec n => l.getD address.toNat default) 0 l := by
  intro i h
  have small : i < 2 ^ n := Nat.lt_of_lt_of_le h fits
  simp [Nat.mod_eq_of_lt small, h]

end Adbi.Lib
