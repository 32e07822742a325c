import Adbi.Division
import Adbi.Protocol

/-! Decimal output. The long division by ten is right up to the largest numbers: for
the last six the test of its correction overflows. -/
namespace Adbi.DecimalProofs
open Adbi.Lib Adbi.Division
open Adbi.Protocol (decimal)

variable {t : Target} {v : BitVec 64}

/-- The canonical representation of a number with a sign. -/
def signedDecimal (n : Int) : Bytes := if n < 0 then 0x2d#8 :: decimal n.natAbs else decimal n.natAbs

/-! ## Division by ten -/

/-- A tenth as a product with a power of two. -/
theorem tenth_eq (v : BitVec 32) : (v.setWidth 64 * 0xcccccccd#64).toNat = v.toNat * 3435973837 ∧
    v.toNat * 3435973837 / 2 ^ 35 = v.toNat / 10 := by
  have bound := v.isLt
  have same : (v.setWidth 64).toNat = v.toNat := by
    rw [BitVec.toNat_setWidth]
    exact Nat.mod_eq_of_lt (by omega)
  rw [BitVec.toNat_mul, same, BitVec.toNat_ofNat]
  omega

theorem div10_eq (t : Target) (v : BitVec 32) : (div10 t v).toNat = v.toNat / 10 := by
  have bound := v.isLt
  obtain ⟨product, quotient⟩ := tenth_eq v
  cases t with
  | arm =>
    have upper : v.toNat * 3435973837 / 2 ^ 32 < 2 ^ 32 := by omega
    rw [div10, BitVec.toNat_ushiftRight, BitVec.extractLsb'_toNat, product,
      Nat.shiftRight_eq_div_pow, Nat.shiftRight_eq_div_pow,
      Nat.mod_eq_of_lt upper, Nat.div_div_eq_div_mul]
    exact quotient
  | aarch64 =>
    rw [div10, BitVec.toNat_setWidth, BitVec.toNat_ushiftRight, product,
      Nat.shiftRight_eq_div_pow, quotient]
    omega

/-- What the table has for each rest: the rest of the upper word as part of the quotient, rounded up. -/
theorem restAdd_eq : ∀ rest < 10, (restAdd.getD rest 0#64).toNat =
    (rest * 2 ^ 32 + 9) / 10 + if rest = 5 then 1 else 0 := by
  decide

/-- The index into the table, and the sum before the correction. -/
theorem parts_eq (t : Target) (v : BitVec 64) :
    ((v >>> 32 - (div10 t ((v >>> 32).setWidth 32)).setWidth 64 * 10#64).setWidth 32).toNat =
      v.toNat / 2 ^ 32 % 10 ∧
    ((div10 t ((v >>> 32).setWidth 32)).setWidth 64 <<< 32 +
      (div10 t ((v &&& 0xffffffff#64).setWidth 32)).setWidth 64 +
      restAdd.getD (v.toNat / 2 ^ 32 % 10) 0#64).toNat =
      v.toNat / 2 ^ 32 / 10 * 2 ^ 32 + v.toNat % 2 ^ 32 / 10 +
        ((v.toNat / 2 ^ 32 % 10 * 2 ^ 32 + 9) / 10 + if v.toNat / 2 ^ 32 % 10 = 5 then 1 else 0) := by
  have bound := v.isLt
  have upper : ((v >>> 32).setWidth 32).toNat = v.toNat / 2 ^ 32 := by
    rw [BitVec.toNat_setWidth, BitVec.toNat_ushiftRight, Nat.shiftRight_eq_div_pow]
    omega
  have lower : ((v &&& 0xffffffff#64).setWidth 32).toNat = v.toNat % 2 ^ 32 := by
    rw [BitVec.toNat_setWidth, BitVec.toNat_and, show (0xffffffff#64).toNat = 2 ^ 32 - 1 from rfl,
      Nat.and_two_pow_sub_one_eq_mod,
      Nat.mod_mod]
  have first : ((div10 t ((v >>> 32).setWidth 32)).setWidth 64).toNat = v.toNat / 2 ^ 32 / 10 := by
    rw [BitVec.toNat_setWidth, div10_eq, upper]
    omega
  have second : ((div10 t ((v &&& 0xffffffff#64).setWidth 32)).setWidth 64).toNat =
      v.toNat % 2 ^ 32 / 10 := by
    rw [BitVec.toNat_setWidth, div10_eq, lower]
    omega
  constructor
  · rw [BitVec.toNat_setWidth, BitVec.toNat_sub, BitVec.toNat_mul, first, BitVec.toNat_ushiftRight,
      Nat.shiftRight_eq_div_pow,
      BitVec.toNat_ofNat]
    omega
  · rw [BitVec.toNat_add, BitVec.toNat_add, BitVec.toNat_shiftLeft, Nat.shiftLeft_eq, first, second,
      restAdd_eq _ (Nat.mod_lt _ (by decide))]
    split <;> omega

/-- The sum is the quotient or one more, and it is one more for the largest numbers. -/
theorem sum_near {n : Nat} (bound : n < 2 ^ 64) :
    ∃ k ≤ 1, (2 ^ 64 - 6 ≤ n → k = 1) ∧ n / 2 ^ 32 / 10 * 2 ^ 32 + n % 2 ^ 32 / 10 +
      ((n / 2 ^ 32 % 10 * 2 ^ 32 + 9) / 10 + if n / 2 ^ 32 % 10 = 5 then 1 else 0) = n / 10 + k := by
  refine ⟨n / 2 ^ 32 / 10 * 2 ^ 32 + n % 2 ^ 32 / 10 +
      ((n / 2 ^ 32 % 10 * 2 ^ 32 + 9) / 10 + if n / 2 ^ 32 % 10 = 5 then 1 else 0) - n / 10, ?_, ?_,
      ?_⟩ <;> split <;> omega

/-- The long division: right for all numbers but the last six, and one too much for these. -/
theorem toNat_div10l (t : Target) (v : BitVec 64) :
    (div10l t v).toNat = v.toNat / 10 + if v.toNat < 2 ^ 64 - 6 then 0 else 1 := by
  obtain ⟨index, sum⟩ := parts_eq t v
  have bound := v.isLt
  obtain ⟨k, most, last, near⟩ := sum_near bound
  rw [near] at sum
  clear near
  rw [div10l, index]
  simp only [BitVec.lt_def, BitVec.toNat_mul, sum, BitVec.toNat_ofNat]
  by_cases small : v.toNat < 2 ^ 64 - 6
  · have whole : (v.toNat / 10 + k) * (10 % 2 ^ 64) % 2 ^ 64 = (v.toNat / 10 + k) * 10 :=
      Nat.mod_eq_of_lt (by omega)
    rw [if_pos small, whole]
    split
    · rw [BitVec.toNat_sub_of_le (by rw [BitVec.le_def, sum, BitVec.toNat_ofNat]; omega), sum,
        BitVec.toNat_ofNat]
      omega
    · rw [sum]
      omega
  · obtain rfl := last (by omega)
    -- ten times the sum is cut off to four
    rw [if_neg small, if_neg (by omega), sum]

/-! ## Digits -/

theorem toNat_rest (t : Target) (small : v.toNat < 2 ^ 64 - 6) :
    ((48#64 + (v - div10l t v * 10#64)).setWidth 8) = BitVec.ofNat 8 (48 + v.toNat % 10) := by
  apply BitVec.eq_of_toNat_eq
  rw [BitVec.toNat_setWidth, BitVec.toNat_add, BitVec.toNat_sub, BitVec.toNat_mul, toNat_div10l,
    if_pos small, BitVec.toNat_ofNat,
    BitVec.toNat_ofNat, BitVec.toNat_ofNat]
  omega

/-- The digits of a number, in front of the text that is there. -/
theorem digits_eq (t : Target) (room : Nat) (text : Bytes) (fits : v.toNat < 10 ^ room)
    (small : v.toNat < 2 ^ 64 - 6) :
    digits t room v text = some ((if v = 0#64 then [] else decimal v.toNat) ++ text) := by
  induction room generalizing v text with
  | zero =>
    have zero : v = 0#64 := BitVec.eq_of_toNat_eq
      (by rw [pow_zero] at fits; simpa using Nat.lt_one_iff.mp fits)
    rw [digits, if_pos zero, if_pos zero, List.nil_append]
  | succ room ih =>
    by_cases zero : v = 0#64
    · rw [digits, if_pos zero, if_pos zero, List.nil_append]
    · have next : (div10l t v).toNat = v.toNat / 10 := by rw [toNat_div10l, if_pos small, Nat.add_zero]
      rw [digits, if_neg zero, if_neg zero]
      simp only
      rw [ih _ (by rw [next]; rw [pow_succ] at fits; omega) (by omega), toNat_rest t small]
      have last : div10l t v = 0#64 ↔ v.toNat < 10 := by
        rw [← BitVec.toNat_inj, next, BitVec.toNat_ofNat]
        omega
      conv => rhs; rw [decimal]
      by_cases single : v.toNat < 10
      · rw [if_pos (last.mpr single), if_pos single, Nat.mod_eq_of_lt single, List.nil_append,
          List.singleton_append]
      · rw [if_neg (fun zero => single (last.mp zero)), if_neg single, next, List.append_assoc,
          List.singleton_append]

theorem digits_text (t : Target) (room : Nat) (val : BitVec 64) (text : Bytes) :
    digits t room val text = (digits t room val []).map (· ++ text) := by
  induction room generalizing val text with
  | zero => by_cases zero : val = 0#64 <;> simp [digits, zero]
  | succ room ih =>
    by_cases zero : val = 0#64
    · simp [digits, zero]
    · rw [digits, if_neg zero]
      conv => rhs; rw [digits, if_neg zero]
      simp only
      rw [ih _ (_ :: text), ih _ [_], Option.map_map]
      congr 1
      funext front
      simp

theorem length_digits {room : Nat} {val : BitVec 64} {text out : Bytes}
    (some : digits t room val text = some out) :
    out.length ≤ room + text.length := by
  induction room generalizing val text with
  | zero =>
    rw [digits] at some
    split at some <;> simp_all
  | succ room ih =>
    rw [digits] at some
    split at some
    · simp only [Option.some.injEq] at some
      rw [← some]
      omega
    · have bound := ih some
      rw [List.length_cons] at bound
      omega

/-! ## Output -/

theorem decimal_zero : decimal 0 = [48#8] := by
  rw [decimal, if_pos (by decide)]

theorem writeDec_iff (t : Target) (v : BitVec 64) : writeDec t v = some (decimal v.toNat) ↔
    v.toNat < 2 ^ 64 - 6 := by
  unfold writeDec
  by_cases zero : v = 0#64
  · rw [if_pos zero, zero]
    exact ⟨fun _ => by decide, fun _ => by rw [BitVec.toNat_ofNat, Nat.zero_mod, decimal_zero]⟩
  · rw [if_neg zero]
    have bound := v.isLt
    by_cases small : v.toNat < 2 ^ 64 - 6
    · rw [digits_eq t bufferSize [] (by unfold bufferSize; omega) small, if_neg zero, List.append_nil]
      exact ⟨fun _ => small, fun _ => rfl⟩
    · -- the last character is wrong
      refine ⟨fun right => ?_, fun less => absurd less small⟩
      rw [show bufferSize = 24 + 1 from rfl, digits, if_neg zero, digits_text, decimal,
        if_neg (by omega)] at right
      obtain ⟨front, -, eq⟩ := Option.map_eq_some_iff.mp right
      have last := congrArg List.getLast? eq
      simp only [List.getLast?_concat, Option.some.injEq] at last
      have value := congrArg BitVec.toNat last
      rw [BitVec.toNat_setWidth, BitVec.toNat_add, BitVec.toNat_sub, BitVec.toNat_mul, toNat_div10l,
        if_neg small, BitVec.toNat_ofNat,
        BitVec.toNat_ofNat, BitVec.toNat_ofNat] at value
      omega

/-- A signed number has a magnitude of at most 19 digits, and then room for its sign. -/
theorem writeSignedDec_eq (t : Target) (v : BitVec 64) :
    writeSignedDec t v = some (signedDecimal v.toInt) := by
  unfold writeSignedDec signedDecimal
  have bound := v.isLt
  have negative : v.toInt < 0 ↔ v.msb = true := by
    rw [BitVec.msb_eq_toInt, decide_eq_true_eq]
  have magnitude : (if v.msb then -v else v).toNat = v.toInt.natAbs := by
    have signed := BitVec.toInt_eq_msb_cond v
    by_cases minus : v.msb = true
    · have upper : 2 ^ 63 ≤ v.toNat := by
        rw [BitVec.msb_eq_decide, decide_eq_true_eq] at minus
        exact minus
      rw [if_pos minus] at signed ⊢
      rw [BitVec.toNat_neg]
      omega
    · rw [if_neg minus] at signed ⊢
      omega
  have small : v.toInt.natAbs ≤ 2 ^ 63 := by
    rw [BitVec.toInt_eq_toNat_cond]
    split <;> omega
  simp only [negative]
  generalize (if v.msb then -v else v) = val at magnitude
  by_cases zero : val = 0#64
  · rw [if_pos zero]
    have none : v.toInt.natAbs = 0 := by
      rw [← magnitude, zero]
      rfl
    have positive : v.msb = false := by
      rw [Bool.eq_false_iff]
      intro minus
      have less := negative.mpr minus
      omega
    rw [positive, if_neg (by decide), none, decimal_zero]
  · have short := digits_eq t 20 [] (v := val) (by omega) (by omega)
    have long := digits_eq t bufferSize [] (v := val) (by unfold bufferSize; omega) (by omega)
    have length := length_digits short
    rw [if_neg zero, List.append_nil, magnitude] at short long
    rw [if_neg zero, long]
    simp only
    cases v.msb with
    | false => rfl
    | true =>
      rw [if_neg (by decide), if_pos rfl, if_pos]
      rw [if_neg zero, magnitude, List.append_nil, List.length_nil] at length
      unfold bufferSize
      omega

/-- The unsigned output is right up to the last six numbers, the signed output always. -/
theorem output_iff (t : Target) :
    (∀ v : BitVec 64, div10l t v = v / 10#64 ↔ v.toNat < 2 ^ 64 - 6) ∧
    (∀ v : BitVec 64, writeDec t v = some (decimal v.toNat) ↔ v.toNat < 2 ^ 64 - 6) ∧
    ∀ v : BitVec 64, writeSignedDec t v = some (signedDecimal v.toInt) := by
  refine ⟨fun v => ?_, writeDec_iff t, writeSignedDec_eq t⟩
  rw [← BitVec.toNat_inj, toNat_div10l, BitVec.toNat_udiv, show (10#64).toNat = 10 from rfl]
  split <;> omega

/-- The largest number is not printed. -/
theorem largest_garbled : ¬∀ t : Target, (∀ v : BitVec 64, div10l t v = v / 10#64) ∧
    (∀ v : BitVec 64, writeDec t v = some (decimal v.toNat)) ∧ ∀ v :
    BitVec 64, writeSignedDec t v = some (signedDecimal v.toInt) := by
  intro all
  exact absurd ((writeDec_iff .arm 0xffffffffffffffff#64).mp ((all .arm).2.1 _)) (by decide)

end Adbi.DecimalProofs
