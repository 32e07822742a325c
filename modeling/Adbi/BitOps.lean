import Adbi.ArmTemplate

/-! `util/bitops.h` on any machine. `get_bits_by_mask` starts with `1 << 32`, which C
leaves undefined: `top` is what the machine makes of it. It is 0 where all the bits are
moved out, as on ARM, and 1 where the shift is taken modulo 32. -/
namespace Adbi.BitOps
open Adbi.ArmTemplate

private theorem cleared_smaller {value : Word} (more : value ≠ 0) :
    (value &&& (value - 1)).toNat < value.toNat := by
  have positive : value.toNat ≠ 0 := fun zero => more (BitVec.eq_of_toNat_eq zero)
  have before : (value - 1).toNat = value.toNat - 1 := by
    have one : (1 : Word) ≤ value := BitVec.le_def.mpr (Nat.one_le_iff_ne_zero.mpr positive)
    exact BitVec.toNat_sub_of_le one
  have below := Nat.and_le_right (n := value.toNat) (m := (value - 1).toNat)
  rw [BitVec.toNat_and]
  omega

/-- The loop of `bits_count`. -/
def countLoop (value c : Word) : Word :=
  if value = 0 then c else countLoop (value &&& (value - 1)) (c + 1)
termination_by value.toNat
decreasing_by exact cleared_smaller ‹_›

/-- `bits_count`. -/
def bitsCount (value : Word) : Word := countLoop value 0

/-- The first round of the loop of `get_bits_by_mask`, at the shift by 32. -/
def firstRound (top val mask : Word) : Word :=
  if mask &&& top ≠ 0 then (if val &&& top ≠ 0 then 1 else 0) else 0

/-- `get_bits_by_mask`. -/
def getBitsByMask (top val mask : Word) : Word := getBitsLoop val mask 32 (firstRound top val mask)

/-- `patch_by_mask`; it asserts that the masks have as many bits. -/
def patchByMask (top src dst mask1 mask2 : Word) : Option Word :=
  if bitsCount mask1 = bitsCount mask2 then
    (setBitsByMask (getBitsByMask top src mask1) mask2).map fun bits => (dst &&& ~~~mask2) ||| bits
  else none

end Adbi.BitOps
