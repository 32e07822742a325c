import Adbi.Division
import Mathlib.Data.Nat.Size

/-! When the division by binary search is right. The products of the search are cut
off at the width of the word, so that everything depends on the first point above
the quotient that the search tries. -/
namespace Adbi.DivisionProofs
open Adbi.Division

variable {w : Nat} {dividend divisor a b : BitVec w} {c e : Nat}

/-! ## The search -/

/-- The point that the search tries between two ends. -/
def middle (a b : BitVec w) : Nat := b.toNat / 2 + a.toNat / 2

/-- What one round of the search does. -/
theorem search_round (dividend divisor : BitVec w) (before : a < b) :
    (dividend.toNat < middle a b * divisor.toNat % 2 ^ w ∧ 0 < middle a b ∧
      ∃ lower : BitVec w, lower.toNat = middle a b - 1 ∧ search dividend divisor a b =
        search dividend divisor a lower) ∨
    (middle a b * divisor.toNat % 2 ^ w ≤ dividend.toNat ∧
      dividend.toNat - middle a b * divisor.toNat % 2 ^ w < divisor.toNat ∧
      (search dividend divisor a b).toNat = middle a b) ∨
    (middle a b * divisor.toNat % 2 ^ w ≤ dividend.toNat ∧
      divisor.toNat ≤ dividend.toNat - middle a b * divisor.toNat % 2 ^ w ∧
      ∃ upper : BitVec w, upper.toNat = middle a b + 1 ∧ search dividend divisor a b =
        search dividend divisor upper b) := by
  have product : ((b >>> 1 + a >>> 1) * divisor).toNat = middle a b * divisor.toNat % 2 ^ w := by
    rw [BitVec.toNat_mul, toNat_middle, middle]
  by_cases large : dividend < (b >>> 1 + a >>> 1) * divisor
  · obtain ⟨previous, positive⟩ := toNat_previous large
    refine .inl ⟨by rwa [BitVec.lt_def, product] at large, positive, _, previous, ?_⟩
    rw [search, if_pos before, if_pos large]
  · have small : (b >>> 1 + a >>> 1) * divisor ≤ dividend := BitVec.not_lt.mp large
    have rest : (dividend - (b >>> 1 + a >>> 1) * divisor).toNat =
        dividend.toNat - middle a b * divisor.toNat % 2 ^ w := by
      rw [BitVec.toNat_sub_of_le small, product]
    rw [BitVec.le_def, product] at small
    by_cases found : dividend - (b >>> 1 + a >>> 1) * divisor < divisor
    · refine .inr (.inl ⟨small, by rwa [BitVec.lt_def, rest] at found, ?_⟩)
      rw [search, if_pos before, if_neg large, if_pos found]
      exact toNat_middle a b
    · refine .inr (.inr ⟨small, by rwa [BitVec.not_lt, BitVec.le_def, rest] at found, _,
        toNat_next before, ?_⟩)
      conv => lhs; rw [search, if_pos before, if_neg large, if_neg found]

theorem search_done (dividend divisor : BitVec w) (done : b ≤ a) : search dividend divisor a b = a := by
  rw [search, if_neg (BitVec.not_lt.mpr done)]

theorem middle_bounds (before : a < b) : a.toNat ≤ middle a b ∧ middle a b < b.toNat := by
  rw [BitVec.lt_def] at before
  unfold middle
  omega

/-- The result is not below the lower end. -/
theorem search_ge (dividend divisor a b : BitVec w) : a.toNat ≤ (search dividend divisor a b).toNat := by
  induction width : b.toNat - a.toNat using Nat.strongRecOn generalizing a b with
  | ind n ih =>
    by_cases before : a < b
    · obtain ⟨low, high⟩ := middle_bounds before
      rcases search_round dividend divisor before with
          ⟨-, positive, lower, value, eq⟩ | ⟨-, -, eq⟩ | ⟨-, -, upper, value, eq⟩
      · rw [eq]
        exact ih _ (by omega) a lower rfl
      · omega
      · rw [eq]
        have later := ih _ (by omega) upper b rfl
        omega
    · exact Nat.le_of_eq (congrArg BitVec.toNat
        (search_done dividend divisor (BitVec.not_lt.mp before)).symm)

/-- Without an overflow the search finds the quotient between its ends. -/
theorem search_exact (nonzero : 0 < divisor.toNat) (low : a.toNat ≤ dividend.toNat / divisor.toNat)
    (high : dividend.toNat / divisor.toNat ≤ b.toNat) (whole : b.toNat * divisor.toNat < 2 ^ w) :
    (search dividend divisor a b).toNat = dividend.toNat / divisor.toNat := by
  induction width : b.toNat - a.toNat using Nat.strongRecOn generalizing a b with
  | ind n ih =>
    by_cases before : a < b
    · obtain ⟨above, below⟩ := middle_bounds before
      have fits := Nat.lt_of_le_of_lt (Nat.mul_le_mul_right divisor.toNat (Nat.le_of_lt below)) whole
      rcases search_round dividend divisor before with
        ⟨large, positive, lower, value, eq⟩ | ⟨small, rest, eq⟩ | ⟨small, rest, upper, value, eq⟩
      · rw [Nat.mod_eq_of_lt fits] at large
        have less := (Nat.div_lt_iff_lt_mul nonzero).mpr large
        rw [eq]
        refine ih _ (by omega) low (by omega) ?_ rfl
        rw [value]
        exact Nat.lt_of_le_of_lt (Nat.mul_le_mul_right _ (Nat.sub_le _ _)) fits
      · rw [Nat.mod_eq_of_lt fits] at small rest
        rw [eq, eq_comm, Nat.div_eq_iff nonzero]
        omega
      · rw [Nat.mod_eq_of_lt fits] at small rest
        have more := (Nat.le_div_iff_mul_le nonzero).mpr (show (middle a b + 1) * divisor.toNat ≤
          dividend.toNat by
          rw [Nat.succ_mul]
          omega)
        rw [eq]
        exact ih _ (by omega) (by omega) high whole rfl
    · rw [search_done dividend divisor (BitVec.not_lt.mp before)]
      rw [BitVec.lt_def] at before
      omega

/-- The first points of the search are `2c - e / 2`, `2c - e / 4` and so on, as long as they
are below the quotient. The search is right exactly if none of these products overflows. -/
theorem search_iff (nonzero : 0 < divisor.toNat) (start : a.toNat = 2 * c + 1 - e)
    (inside : e ≤ 2 * c + 1)
    (half : b.toNat / 2 = c) (low : a.toNat ≤ dividend.toNat / divisor.toNat)
    (high : dividend.toNat / divisor.toNat ≤ b.toNat)
    (mild : ∀ j, 2 * c < dividend.toNat / divisor.toNat + e / 2 ^ j →
      (2 * c - e / 2 ^ (j + 1)) * divisor.toNat < 2 ^ w + dividend.toNat) :
    (search dividend divisor a b).toNat = dividend.toNat / divisor.toNat ↔
      ∀ j, 2 * c < dividend.toNat / divisor.toNat + e / 2 ^ j →
      (2 * c - e / 2 ^ (j + 1)) * divisor.toNat < 2 ^ w := by
  induction width : b.toNat - a.toNat using Nat.strongRecOn generalizing a e with
  | ind n ih =>
    have most := Nat.div_mul_le_self dividend.toNat divisor.toNat
    have small := dividend.isLt
    by_cases before : a < b
    · obtain ⟨above, below⟩ := middle_bounds before
      have point : middle a b = 2 * c - e / 2 := by
        unfold middle
        omega
      have first : 2 * c < dividend.toNat / divisor.toNat + e / 2 ^ 0 := by
        rw [pow_zero, Nat.div_one]
        omega
      -- the later points lie higher than this one
      have later (j : Nat) (reached : 2 * c < dividend.toNat / divisor.toNat + e / 2 ^ (j + 1)) :
          middle a b < dividend.toNat / divisor.toNat := by
        have less : e / 2 ^ (j + 1) ≤ e / 2 := by
          rw [pow_succ' 2 j, ← Nat.div_div_eq_div_mul]
          exact Nat.div_le_self _ _
        omega
      by_cases fits : middle a b * divisor.toNat < 2 ^ w
      · have zero : (2 * c - e / 2 ^ (0 + 1)) * divisor.toNat < 2 ^ w := by
          rwa [zero_add, pow_one, ← point]
        rcases search_round dividend divisor before with
          ⟨large, positive, lower, value, eq⟩ | ⟨fitting, rest, eq⟩ | ⟨fitting, rest, upper, value, eq⟩
        · rw [Nat.mod_eq_of_lt fits] at large
          have less := (Nat.div_lt_iff_lt_mul nonzero).mpr large
          rw [eq]
          refine ⟨fun _ j reached => ?_, fun _ => search_exact nonzero low (by omega) ?_⟩
          · cases j with
            | zero => exact zero
            | succ j => exact absurd (later j reached) (by omega)
          · rw [value]
            exact Nat.lt_of_le_of_lt (Nat.mul_le_mul_right _ (Nat.sub_le _ _)) fits
        · rw [Nat.mod_eq_of_lt fits] at fitting rest
          have found : middle a b = dividend.toNat / divisor.toNat := by
            rw [eq_comm, Nat.div_eq_iff nonzero]
            omega
          rw [eq]
          refine ⟨fun _ j reached => ?_, fun _ => found⟩
          cases j with
          | zero => exact zero
          | succ j => exact absurd (later j reached) (by omega)
        · rw [Nat.mod_eq_of_lt fits] at fitting rest
          have more := (Nat.le_div_iff_mul_le nonzero).mpr (show (middle a b + 1) * divisor.toNat ≤
            dividend.toNat by
            rw [Nat.succ_mul]
            omega)
          have shift (j : Nat) : e / 2 / 2 ^ j = e / 2 ^ (j + 1) :=
            by rw [pow_succ', Nat.div_div_eq_div_mul]
          rw [eq, ih _ (by omega) (show upper.toNat = 2 * c + 1 - e / 2 by omega) (by omega)
            (by omega) ?_ rfl]
          · simp only [shift]
            constructor
            · intro all j reached
              cases j with
              | zero => exact zero
              | succ j => exact all j reached
            · exact fun all j reached => all (j + 1) reached
          · intro j reached
            rw [shift] at reached ⊢
            exact mild (j + 1) reached
      · -- the product is cut off, and the search goes on above the quotient
        have cut : middle a b * divisor.toNat < 2 ^ w + dividend.toNat := by
          have bound := mild 0 first
          rwa [zero_add, pow_one, ← point] at bound
        have missed : dividend.toNat / divisor.toNat < middle a b :=
          (Nat.div_lt_iff_lt_mul nonzero).mpr (by omega)
        have product : middle a b * divisor.toNat % 2 ^ w = middle a b * divisor.toNat - 2 ^ w := by
          rw [Nat.mod_eq_sub_mod (by omega), Nat.mod_eq_of_lt (by omega)]
        have wrong : dividend.toNat / divisor.toNat < (search dividend divisor a b).toNat := by
          rcases search_round dividend divisor before with
            ⟨large, -⟩ | ⟨-, -, eq⟩ | ⟨-, -, upper, value, eq⟩
          · omega
          · omega
          · have bound := search_ge dividend divisor upper b
            rw [eq]
            omega
        refine ⟨fun right => absurd right (by omega), fun all => absurd (all 0 first) ?_⟩
        rwa [zero_add, pow_one, ← point]
    · have done := BitVec.not_lt.mp before
      rw [search_done dividend divisor done]
      rw [BitVec.le_def] at done
      refine ⟨fun _ j _ => ?_, fun _ => by omega⟩
      have inner : 2 * c - e / 2 ^ (j + 1) ≤ dividend.toNat / divisor.toNat :=
        Nat.le_trans (Nat.sub_le _ _) (by omega)
      exact Nat.lt_of_le_of_lt (Nat.mul_le_mul_right _ inner) (Nat.lt_of_le_of_lt most small)

/-! ## Shifts and bounds -/

/-- The loop over the shifts stops at the first power that is larger than the divisor. -/
theorem findShift_eq {limit k : Nat} {d : Nat → BitVec w} (within : k ≤ limit)
    (before : ∀ j < k, d j ≤ divisor)
    (stop : k < limit → divisor < d k) : findShift limit d divisor = k := by
  unfold findShift
  rcases Nat.lt_or_eq_of_le within with less | rfl
  · rw [List.find?_range_eq_some.mpr ⟨decide_eq_true (stop less), List.mem_range.mpr less,
      fun j below => ?_⟩]
    · rfl
    · simpa using before j below
  · rw [List.find?_eq_none.mpr]
    · rfl
    · intro j member
      simpa using before j (List.mem_range.mp member)

theorem amount_eq (t : Target) {n : Nat} (small : n < 32) : t.amount (BitVec.ofNat 32 n) = n := by
  cases t <;> simp only [Target.amount, BitVec.toNat_ofNat] <;> omega

/-- The powers of two of the type `unsigned int`. -/
theorem power_eq (t : Target) {n : Nat} (small : n < 32) :
    (t.lsl 1#32 (BitVec.ofNat 32 n)).toNat = 2 ^ n := by
  rw [Target.lsl, amount_eq t small, BitVec.toNat_shiftLeft, BitVec.toNat_ofNat, Nat.shiftLeft_eq,
    Nat.one_mod, Nat.one_mul]
  exact Nat.mod_eq_of_lt (Nat.pow_lt_pow_right (by decide) small)

/-- The powers of two of the type `int`, as long words: the last one is negative, and
from there on they are at most that. -/
theorem intPower_eq (t : Target) :
    (∀ n < 31, ((t.lsl 1#32 (BitVec.ofNat 32 n)).signExtend 64).toNat = 2 ^ n) ∧
      ((t.lsl 1#32 31#32).signExtend 64).toNat = 2 ^ 64 - 2 ^ 31 ∧
      ∀ n < 64, ((t.lsl 1#32 (BitVec.ofNat 32 n)).signExtend 64).toNat ≤ 2 ^ 64 - 2 ^ 31 := by
  cases t <;> decide

/-- The two words of a long shift to the right, where no word is shifted by its size. -/
theorem llsr_eq (t : Target) (val : BitVec 64) {n : Nat} (small : n < 32) (positive : n ≠ 0 ∨ t = .arm) :
    llsr t val (BitVec.ofNat 32 n) = val >>> n := by
  have back : t.amount (32#32 - BitVec.ofNat 32 n) = 32 - n := by
    rcases positive with some | rfl
    · rw [show 32#32 - BitVec.ofNat 32 n = BitVec.ofNat 32 (32 - n) by
        apply BitVec.eq_of_toNat_eq
        rw [BitVec.toNat_sub, BitVec.toNat_ofNat, BitVec.toNat_ofNat, BitVec.toNat_ofNat]
        omega]
      exact amount_eq t (by omega)
    · simp only [Target.amount, BitVec.toNat_sub, BitVec.toNat_ofNat]
      omega
  apply BitVec.eq_of_getLsbD_eq
  intro i bound
  rw [llsr, Target.lsr, Target.lsr, Target.lsl, amount_eq t small, back, BitVec.getLsbD_append,
    BitVec.getLsbD_ushiftRight]
  by_cases low : i < 32
  · rw [if_pos low, BitVec.getLsbD_or, BitVec.getLsbD_ushiftRight, BitVec.getLsbD_shiftLeft,
      BitVec.getLsbD_setWidth,
      BitVec.getLsbD_extractLsb']
    by_cases inside : n + i < 32
    · simp [inside, show i < 32 - n by omega]
    · simp [inside, low, show ¬i < 32 - n by omega, show i - (32 - n) < 32 by omega,
        show 32 + (i - (32 - n)) = n + i by omega]
  · rw [if_neg low, BitVec.getLsbD_ushiftRight, BitVec.getLsbD_extractLsb',
      show 32 + (n + (i - 32)) = n + i by omega]
    by_cases inside : n + (i - 32) < 32
    · simp [inside]
    · simp [inside, BitVec.getLsbD_of_ge val (n + i) (by omega)]

/-! ## The two functions -/

/-- The search that starts from the dividend shifted by `s` does not overflow: it starts
at or below the quotient, and as long as the points `2c - (c + 1) / 2^j` are below it,
the next one times the divisor fits into `w` bits. -/
structure Fits (w s dividend divisor : Nat) : Prop where
  start : dividend / 2 ^ s ≤ dividend / divisor
  products : ∀ j, 2 * (dividend / 2 ^ s) < dividend / divisor + (dividend / 2 ^ s + 1) / 2 ^ j →
    (2 * (dividend / 2 ^ s) - (dividend / 2 ^ s + 1) / 2 ^ (j + 1)) * divisor < 2 ^ w

/-- The search from both shifts of the dividend, when the divisor has `s` bits. -/
theorem search_size_iff {s : Nat} (positive : 0 < s) (large : 2 ^ (s - 1) ≤ divisor.toNat)
    (small : divisor.toNat < 2 ^ s)
    (lower : a.toNat = dividend.toNat / 2 ^ s) (upper : b.toNat = dividend.toNat / 2 ^ (s - 1)) :
    (search dividend divisor a b).toNat = dividend.toNat / divisor.toNat ↔
    Fits w s dividend.toNat divisor.toNat := by
  have nonzero : 0 < divisor.toNat := Nat.lt_of_lt_of_le (Nat.two_pow_pos _) large
  have start : dividend.toNat / 2 ^ s ≤ dividend.toNat / divisor.toNat :=
    Nat.div_le_div_left (Nat.le_of_lt small) nonzero
  have split : 2 ^ s = 2 ^ (s - 1) * 2 := by rw [← pow_succ, Nat.sub_add_cancel positive]
  have mild : 2 * (dividend.toNat / 2 ^ s) * divisor.toNat < 2 ^ w + dividend.toNat := by
    have most := Nat.div_mul_le_self dividend.toNat (2 ^ s)
    have less := Nat.mul_le_mul_left (dividend.toNat / 2 ^ s) (Nat.le_of_lt small)
    have bound := dividend.isLt
    rw [Nat.mul_assoc]
    omega
  rw [search_iff (c := dividend.toNat / 2 ^ s) (e :=
    dividend.toNat / 2 ^ s + 1) nonzero (by omega) (by omega)
    (by rw [upper, split, Nat.div_div_eq_div_mul]) (by omega)
    (by rw [upper]; exact Nat.div_le_div_left large (Nat.two_pow_pos _))
    fun j _ => Nat.lt_of_le_of_lt (Nat.mul_le_mul_right _ (Nat.sub_le _ _)) mild]
  exact ⟨fun products => ⟨start, products⟩, Fits.products⟩

theorem size_facts {divisor : Nat} (nonzero : 0 < divisor) :
    0 < divisor.size ∧ 2 ^ (divisor.size - 1) ≤ divisor ∧ divisor < 2 ^ divisor.size :=
  have positive := Nat.size_pos.mpr nonzero
  ⟨positive, Nat.lt_size.mp (by omega), Nat.lt_size_self _⟩

theorem ofNat_pred {n : Nat} (positive : 0 < n) (small : n < 2 ^ 32) :
    BitVec.ofNat 32 n - 1#32 = BitVec.ofNat 32 (n - 1) := by
  apply BitVec.eq_of_toNat_eq
  rw [BitVec.toNat_sub, BitVec.toNat_ofNat, BitVec.toNat_ofNat, BitVec.toNat_ofNat]
  omega

/-- `div` is right for divisors without their top bit, if no product of the search overflows. -/
theorem div_iff (t : Target) (dividend divisor : BitVec 32) (nonzero : divisor ≠ 0#32) :
    div t dividend divisor = dividend / divisor ↔
      divisor.toNat < 2 ^ 31 ∧ Fits 32 divisor.toNat.size dividend.toNat divisor.toNat := by
  have some : 0 < divisor.toNat := by
    rw [Nat.pos_iff_ne_zero]
    exact fun zero => nonzero (BitVec.eq_of_toNat_eq zero)
  obtain ⟨positive, large, small⟩ := size_facts some
  rw [← BitVec.toNat_inj, BitVec.toNat_udiv]
  by_cases top : divisor.toNat < 2 ^ 31
  · have below : divisor.toNat.size ≤ 31 := Nat.size_le.mpr top
    have shift : findShift 32 (fun shift => t.lsl 1#32 (BitVec.ofNat 32 shift)) divisor =
        divisor.toNat.size := by
      refine findShift_eq (by omega) (fun j before => ?_) fun _ => ?_
      · rw [BitVec.le_def, power_eq t (by omega)]
        exact Nat.lt_size.mp before
      · rw [BitVec.lt_def, power_eq t (by omega)]
        exact small
    rw [div, shift, if_pos (by omega), and_iff_right top]
    refine search_size_iff positive large small ?_ ?_
    · rw [Target.lsr, amount_eq t (by omega), BitVec.toNat_ushiftRight, Nat.shiftRight_eq_div_pow]
    · rw [ofNat_pred positive (by omega), Target.lsr, amount_eq t (by omega),
        BitVec.toNat_ushiftRight, Nat.shiftRight_eq_div_pow]
  · have shift : findShift 32 (fun shift => t.lsl 1#32 (BitVec.ofNat 32 shift)) divisor = 32 := by
      refine findShift_eq (Nat.le_refl _) (fun j before => ?_) fun none => absurd none (Nat.lt_irrefl _)
      rw [BitVec.le_def, power_eq t before]
      exact Nat.le_trans (Nat.pow_le_pow_right (by decide) (Nat.le_of_lt_succ before))
        (Nat.le_of_not_lt top)
    refine ⟨fun right => ?_, fun ⟨less, _⟩ => absurd less top⟩
    rw [div, shift, if_neg (Nat.lt_irrefl _)] at right
    have bound := search_ge dividend divisor 0xffffffff#32 (t.lsr dividend (32#32 - 1#32))
    have quotient : dividend.toNat / divisor.toNat < 2 :=
      (Nat.div_lt_iff_lt_mul some).mpr (by have := dividend.isLt; omega)
    rw [right, BitVec.toNat_ofNat] at bound
    omega

/-- The shift that `divl` finds: at 31 the power is negative, and then larger than
all divisors but the largest ones. -/
theorem longShift_eq (t : Target) (divisor : BitVec 64) :
    findShift 64 (fun shift => (t.lsl 1#32 (BitVec.ofNat 32 shift)).signExtend 64) divisor =
      if divisor.toNat < 2 ^ 64 - 2 ^ 31 then min divisor.toNat.size 31 else 64 := by
  obtain ⟨powers, top, all⟩ := intPower_eq t
  by_cases less : divisor.toNat < 2 ^ 64 - 2 ^ 31
  · rw [if_pos less]
    refine findShift_eq (by omega) (fun j before => ?_) fun _ => ?_
    · rw [BitVec.le_def, powers j (by omega)]
      exact Nat.lt_size.mp (by omega)
    · rw [BitVec.lt_def]
      rcases Nat.lt_or_ge divisor.toNat.size 31 with small | large
      · rw [Nat.min_eq_left (Nat.le_of_lt small), powers _ small]
        exact Nat.lt_size_self _
      · rw [Nat.min_eq_right large, top]
        exact less
  · rw [if_neg less]
    refine findShift_eq (Nat.le_refl _) (fun j before => ?_) fun none => absurd none (Nat.lt_irrefl _)
    rw [BitVec.le_def]
    exact Nat.le_trans (all j before) (Nat.le_of_not_lt less)

/-- The upper end for the divisor 1, on both targets. -/
theorem le_llsr_zero (t : Target) (val : BitVec 64) : val.toNat ≤ (llsr t val 0#32).toNat := by
  have none : t.amount 0#32 = 0 := amount_eq t (by decide)
  have less : (val.setWidth 32).toNat ≤ (val.setWidth 32).toNat |||
      (t.lsl (val.extractLsb' 32 32) (32#32 - 0#32)).toNat :=
    Nat.left_le_or
  rw [llsr, Target.lsr, Target.lsr, none, BitVec.ushiftRight_zero, BitVec.ushiftRight_zero,
    BitVec.toNat_append,
    ← Nat.shiftLeft_add_eq_or_of_lt (BitVec.isLt _), BitVec.toNat_or]
  refine Nat.le_trans ?_ (Nat.add_le_add_left less _)
  rw [BitVec.extractLsb'_toNat, BitVec.toNat_setWidth, Nat.shiftLeft_eq, Nat.shiftRight_eq_div_pow]
  have := val.isLt
  omega

theorem search_one (lower : a.toNat ≤ dividend.toNat) (upper : dividend.toNat ≤ b.toNat)
    (one : divisor.toNat = 1) :
    (search dividend divisor a b).toNat = dividend.toNat / divisor.toNat := by
  refine search_exact (by omega) ?_ ?_ ?_
  · rwa [one, Nat.div_one]
  · rwa [one, Nat.div_one]
  · rw [one, Nat.mul_one]
    exact b.isLt

/-- The search of `divl` for the divisors that are too large for the type `int`. -/
theorem search_large_iff (large : 2 ^ 31 ≤ divisor.toNat) (lower : a.toNat = dividend.toNat / 2 ^ 31)
    (upper : b.toNat = dividend.toNat / 2 ^ 30) :
    (search dividend divisor a b).toNat = dividend.toNat / divisor.toNat ↔
    Fits w 31 dividend.toNat divisor.toNat := by
  have nonzero : 0 < divisor.toNat := Nat.lt_of_lt_of_le (by decide) large
  have most : dividend.toNat / divisor.toNat ≤ dividend.toNat / 2 ^ 31 :=
    Nat.div_le_div_left large (by decide)
  have half : b.toNat / 2 = dividend.toNat / 2 ^ 31 := by
    rw [upper, Nat.div_div_eq_div_mul, ← pow_succ]
  by_cases start : dividend.toNat / 2 ^ 31 ≤ dividend.toNat / divisor.toNat
  · have same := Nat.le_antisymm most start
    rw [search_iff (c := dividend.toNat / 2 ^ 31) (e :=
      dividend.toNat / 2 ^ 31 + 1) nonzero (by omega) (by omega) half
      (by omega) (by omega)]
    · exact ⟨fun products => ⟨start, products⟩, Fits.products⟩
    · -- only the first point is tried before the search comes down to its lower end
      intro j reached
      cases j with
      | zero =>
        have most := Nat.div_mul_le_self dividend.toNat divisor.toNat
        have bound := dividend.isLt
        have less : 2 * (dividend.toNat / 2 ^ 31) - (dividend.toNat / 2 ^ 31 + 1) / 2 ^ (0 + 1) ≤
            2 * (dividend.toNat / divisor.toNat) := by omega
        have scaled := Nat.mul_le_mul_right divisor.toNat less
        rw [Nat.mul_assoc] at scaled
        omega
      | succ j =>
        have less : (dividend.toNat / 2 ^ 31 + 1) / 2 ^ (j + 1) ≤ (dividend.toNat / 2 ^ 31 + 1) / 2 := by
          rw [pow_succ' 2 j, ← Nat.div_div_eq_div_mul]
          exact Nat.div_le_self _ _
        omega
  · have bound := search_ge dividend divisor a b
    exact ⟨fun right => absurd right (by omega), fun fits => absurd fits.start start⟩

theorem divl_iff (t : Target) (dividend divisor : BitVec 64) (nonzero : divisor ≠ 0#64) :
    divl t dividend divisor = dividend / divisor ↔
      divisor.toNat < 2 ^ 64 - 2 ^ 31 ∧
      Fits 64 (min divisor.toNat.size 31) dividend.toNat divisor.toNat := by
  have some : 0 < divisor.toNat := by
    rw [Nat.pos_iff_ne_zero]
    exact fun zero => nonzero (BitVec.eq_of_toNat_eq zero)
  obtain ⟨positive, large, small⟩ := size_facts some
  rw [← BitVec.toNat_inj, BitVec.toNat_udiv, divl, longShift_eq]
  by_cases less : divisor.toNat < 2 ^ 64 - 2 ^ 31
  · rw [if_pos less, if_pos (by omega), ofNat_pred (by omega) (by omega),
      llsr_eq t dividend (by omega) (.inl (by omega)),
      and_iff_right less]
    have lower (n : Nat) : (dividend >>> n).toNat = dividend.toNat / 2 ^ n := by
      rw [BitVec.toNat_ushiftRight, Nat.shiftRight_eq_div_pow]
    by_cases top : divisor.toNat < 2 ^ 31
    · have below : divisor.toNat.size ≤ 31 := Nat.size_le.mpr top
      rw [Nat.min_eq_left below]
      rcases Nat.eq_or_lt_of_le positive with single | several
      · have one : divisor.toNat = 1 := by
          rw [← single] at small
          omega
        have low : (dividend >>> Nat.succ 0).toNat ≤ dividend.toNat := by
          rw [lower]
          exact Nat.div_le_self _ _
        rw [← single]
        refine ⟨fun _ => ⟨?_, fun j _ => ?_⟩, fun _ => search_one low (le_llsr_zero t dividend) one⟩
        · rw [one, Nat.div_one]
          exact Nat.div_le_self _ _
        · have most : 2 * (dividend.toNat / 2 ^ Nat.succ 0) ≤ dividend.toNat :=
            Nat.mul_div_le dividend.toNat 2
          rw [one, Nat.mul_one]
          exact Nat.lt_of_le_of_lt (Nat.le_trans (Nat.sub_le _ _) most) dividend.isLt
      · rw [llsr_eq t dividend (by omega) (.inl (by omega))]
        exact search_size_iff positive large small (lower _) (lower _)
    · have above : 31 < divisor.toNat.size := Nat.lt_size.mpr (Nat.le_of_not_lt top)
      rw [Nat.min_eq_right (by omega), llsr_eq t dividend (by omega) (.inl (by omega))]
      exact search_large_iff (Nat.le_of_not_lt top) (lower 31) (lower 30)
  · rw [if_neg less, if_neg (by decide)]
    refine ⟨fun right => ?_, fun ⟨below, _⟩ => absurd below less⟩
    have bound := search_ge dividend divisor 0xffffffffffffffff#64
      (llsr t dividend (BitVec.ofNat 32 64 - 1#32))
    have quotient : dividend.toNat / divisor.toNat < 2 :=
      (Nat.div_lt_iff_lt_mul some).mpr (by have := dividend.isLt; omega)
    rw [right, BitVec.toNat_ofNat] at bound
    omega

/-- Both functions return the quotient exactly if the divisor is not among the largest ones
and the search does not overflow. -/
theorem quotients_iff (t : Target) :
    (∀ dividend divisor : BitVec 32, divisor ≠ 0#32 → (div t dividend divisor = dividend / divisor ↔
      divisor.toNat < 2 ^ 31 ∧ Fits 32 divisor.toNat.size dividend.toNat divisor.toNat)) ∧
    ∀ dividend divisor : BitVec 64, divisor ≠ 0#64 → (divl t dividend divisor = dividend / divisor ↔
      divisor.toNat < 2 ^ 64 - 2 ^ 31 ∧
      Fits 64 (min divisor.toNat.size 31) dividend.toNat divisor.toNat) :=
  ⟨div_iff t, divl_iff t⟩

/-- The search for a seventh of a hundred starts at 12, and all its products are small. -/
private theorem seventh_fits (wide : 8 ≤ w) : Fits w 3 100 7 where
  start := by decide
  products _ _ := calc
    (2 * (100 / 2 ^ 3) - _) * 7 ≤ 2 * (100 / 2 ^ 3) * 7 := Nat.mul_le_mul_right 7 (Nat.sub_le _ _)
    _ < 2 ^ 8 := by decide
    _ ≤ 2 ^ w := Nat.pow_le_pow_right (by decide) wide

theorem hundred_by_seven : div .arm 100#32 7#32 = 14#32 ∧ divl .aarch64 100#64 7#64 = 14#64 :=
  ⟨((quotients_iff .arm).1 100#32 7#32 (by decide)).mpr ⟨by decide, seventh_fits (by decide)⟩,
    ((quotients_iff .aarch64).2 100#64 7#64 (by decide)).mpr ⟨by decide, seventh_fits (by decide)⟩⟩

/-- A third of the largest number: the first product overflows, and the search leaves the
quotient behind. -/
theorem thirds_lost : ¬∀ t : Target,
    (∀ dividend divisor : BitVec 32, divisor ≠ 0#32 → div t dividend divisor = dividend / divisor) ∧
      ∀ dividend divisor : BitVec 64, divisor ≠ 0#64 → divl t dividend divisor = dividend / divisor := by
  intro all
  obtain ⟨-, fits⟩ := (div_iff .arm 0xffffffff#32 3#32 (by decide)).mp ((all .arm).1 _ _ (by decide))
  have bits : (3#32).toNat.size = 2 := by decide
  have product := fits.products 0 (by rw [bits]; decide)
  rw [bits] at product
  exact absurd product (by decide)

end Adbi.DivisionProofs
