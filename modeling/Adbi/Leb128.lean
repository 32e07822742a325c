import Adbi.CacheRanges
import Adbi.Dwexpr

/-! `idk/common/leb128.py`, for integers of any size. `signed` is the attribute
`SIGNED`, which is false in `LEB` and true in `SLEB`. -/
namespace Adbi.Leb128
open Adbi.Lib Adbi.Dwexpr

/-- `BaseLEB.decode`: the number, and what is left of the stream. -/
def decode (signed : Bool) (stream : Bytes) : Except Error (Int × Bytes) :=
  match lebLoop 0 0 stream with
  | .error e => .error e
  | .ok (result, shift, b, rest) =>
    .ok (if signed ∧ b &&& 0x40#8 ≠ 0#8 then Int.lor result (-((1 : Int) <<< shift)) else result, rest)

/-- Whether the group `seven` is the last one, with `value` what is above it. -/
def isLast (signed : Bool) (seven : Nat) (value : Int) : Bool :=
  if signed then (value = 0 ∧ seven &&& 0x40 = 0) ∨ (value = -1 ∧ seven &&& 0x40 ≠ 0) else value = 0

/-- The lowest group, also of a negative number. -/
theorem land_group (value : Int) : Int.land value 0x7f = value % 128 := by
  cases value with
  | ofNat n =>
    change ((n &&& 127 : Nat) : Int) = _
    rw [Nat.and_two_pow_sub_one_eq_mod n 7]
    rfl
  | negSucc n =>
    have low := Nat.mod_lt n (by decide : 2 ^ 7 > 0)
    have group : Nat.ldiff 127 n = 2 ^ 7 - (n % 2 ^ 7 + 1) := by
      apply Nat.eq_of_testBit_eq
      intro i
      have full := Nat.testBit_two_pow_sub_one 7 i
      rw [Nat.testBit_ldiff, Nat.testBit_two_pow_sub_succ low, Nat.testBit_mod_two_pow, full]
      cases decide (i < 7) <;> rfl
    change ((Nat.ldiff 127 n : Nat) : Int) = _
    rw [group]
    omega

/-- What is above it. -/
theorem shift_group (value : Int) : value >>> (7 : Nat) = value / 128 :=
  Int.shiftRight_eq_div_pow value 7

private theorem next_smaller {signed : Bool} {value : Int} (checked : ¬ (value < 0 ∧ ¬ signed))
    (more : ¬ isLast signed (Int.land value 0x7f).toNat (value >>> (7 : Nat))) :
    (value >>> (7 : Nat)).natAbs < value.natAbs := by
  have below := shift_group value
  by_cases zero : value = 0
  · subst zero
    exact absurd (by cases signed <;> decide) more
  · by_cases minus : value = -1
    · subst minus
      cases signed with
      | true =>
        rw [land_group] at more
        exact absurd (by decide) more
      | false => exact absurd (by decide) checked
    · omega

/-- The loop of `BaseLEB.encode_iter`, behind its check. It would not end for a
negative number without a sign. -/
def encodeLoop (signed : Bool) (value : Int) (checked : ¬ (value < 0 ∧ ¬ signed)) : Bytes :=
  let seven := (Int.land value 0x7f).toNat
  let next := value >>> (7 : Nat)
  if isLast signed seven next then [BitVec.ofNat 8 seven]
  else BitVec.ofNat 8 (seven ||| 0x80) :: encodeLoop signed next (by
    have below := shift_group value
    exact fun ⟨negative, unsigned⟩ => checked ⟨by omega, unsigned⟩)
termination_by value.natAbs
decreasing_by exact next_smaller checked ‹_›

/-- `BaseLEB.encode`. -/
def encode (signed : Bool) (value : Int) : Except Error Bytes :=
  if bad : value < 0 ∧ ¬ signed then .error .valueError else .ok (encodeLoop signed value bad)

end Adbi.Leb128
