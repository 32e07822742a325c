import Mathlib.Algebra.Group.Int.Defs
import Mathlib.Algebra.Group.Nat.Defs
import Mathlib.Data.List.Basic
import Mathlib.Tactic.Common

/-! Instruction words: matching them against patterns of bits, reading their
fields, and replacing fields of one word by those of another. -/
namespace Adbi.Lib

variable {n : Nat}

/-- A pattern of the characters `0`, `1` and `-`, the most significant bit first. -/
abbrev Pattern := String

-- The characters are taken as bytes, on which the kernel computes much faster than on `Char`.
private def Pattern.bytes (p : Pattern) : List Nat := p.toUTF8.data.toList.map UInt8.toNat

/-- The bits that a pattern fixes: its characters other than `-`. -/
def Pattern.mask (p : Pattern) : Nat := p.bytes.foldl (fun m c => 2 * m + if c = 0x2d then 0 else 1) 0

/-- The values at which it fixes them: its characters `1`. -/
def Pattern.value (p : Pattern) : Nat := p.bytes.foldl (fun m c => 2 * m + if c = 0x31 then 1 else 0) 0

/-- The word has the bits that the pattern fixes. -/
def wordMatches (w : BitVec n) (p : Pattern) : Bool :=
  w &&& BitVec.ofNat n p.mask == BitVec.ofNat n p.value

/-- `length` bits of the word, from bit `low` on. -/
def field (w : BitVec n) (low length : Nat) : BitVec length := w.extractLsb' low length

theorem field_bit (w : BitVec n) (i : Nat) : field w i 1 = BitVec.ofBool (w.getLsbD i) := by
  ext j h
  have zero : j = 0 := by omega
  subst zero
  simp [field]

theorem field_bit_iff {w : BitVec n} {i : Nat} {b : Bool} : field w i 1 = BitVec.ofBool b ↔
    w.getLsbD i = b := by
  rw [field_bit]
  cases w.getLsbD i <;> cases b <;> decide

/-- `dst` with the bits of `mask` taken from `src`. -/
def patch (mask dst src : BitVec n) : BitVec n := (dst &&& ~~~mask) ||| (src &&& mask)

/-- Two patterns that fix some bit differently. -/
def conflict (n : Nat) (p q : Pattern) : Bool :=
  BitVec.ofNat n p.mask &&& BitVec.ofNat n q.mask &&&
    (BitVec.ofNat n p.value ^^^ BitVec.ofNat n q.value) != 0

theorem wordMatches_iff {w : BitVec n} {p : Pattern} :
    wordMatches w p = true ↔ w &&& BitVec.ofNat n p.mask = BitVec.ofNat n p.value := beq_iff_eq

/-- No word has the bits of both. -/
theorem not_matches_of_conflict {w : BitVec n} {p q : Pattern} (has : wordMatches w p = true)
    (conflicts : conflict n p q = true) : wordMatches w q = false := by
  by_contra both
  rw [Bool.not_eq_false, wordMatches_iff] at both
  rw [wordMatches_iff] at has
  rw [conflict, bne_iff_ne] at conflicts
  apply conflicts
  rw [← has, ← both]
  ext i
  simp
  grind

/-- The entry of the first pattern that the word matches. -/
def decodeWith (table : List (Pattern × α)) (w : BitVec n) : Option α :=
  (table.find? fun entry => wordMatches w entry.1).map Prod.snd

/-- What is known about a word rules out entries of a table. -/
theorem decodeWith_filter {table : List (Pattern × α)} {w : BitVec n} {p : Pattern}
    (has : wordMatches w p = true) :
    decodeWith table w = decodeWith (table.filter fun entry => !conflict n p entry.1) w := by
  unfold decodeWith
  congr 1
  induction table with
  | nil => rfl
  | cons entry rest ih =>
    cases out : conflict n p entry.1 with
    | false => simp [out, List.find?_cons, ih]
    | true => simp [out, ih, not_matches_of_conflict has out]

/-- What a pattern fixes, every word that has its bits has in its fields. -/
theorem field_of_matches {w : BitVec n} {p : Pattern} (has : wordMatches w p = true) (low length : Nat)
    (fixed : field (BitVec.ofNat n p.mask) low length = BitVec.allOnes length) :
    field w low length = field (BitVec.ofNat n p.value) low length := by
  rw [wordMatches_iff] at has
  rw [← has]
  unfold field at *
  rw [BitVec.extractLsb'_and, fixed, BitVec.and_allOnes]

/-- Replacing bits that the pattern does not fix. -/
theorem matches_patch {mask dst src : BitVec n} {p : Pattern}
    (apart : BitVec.ofNat n p.mask &&& mask = 0) :
    wordMatches (patch mask dst src) p = wordMatches dst p := by
  have same : patch mask dst src &&& BitVec.ofNat n p.mask = dst &&& BitVec.ofNat n p.mask := by
    ext i h
    have here := congrArg (·.getLsbD i) apart
    simp [patch] at here ⊢
    grind
  rw [wordMatches, wordMatches, same]

theorem field_patch_inside {mask dst src : BitVec n} (low length : Nat)
    (covered : field mask low length = BitVec.allOnes length) :
    field (patch mask dst src) low length = field src low length := by
  unfold field patch at *
  rw [BitVec.extractLsb'_or, BitVec.extractLsb'_and, BitVec.extractLsb'_and, covered]
  ext i h
  have here := congrArg (·.getLsbD i) covered
  simp at here ⊢
  grind

theorem field_patch_outside {mask dst src : BitVec n} (low length : Nat) (bound : low + length ≤ n)
    (apart : field mask low length = 0) :
    field (patch mask dst src) low length = field dst low length := by
  unfold field patch at *
  rw [BitVec.extractLsb'_or, BitVec.extractLsb'_and, BitVec.extractLsb'_and, apart]
  ext i h
  have here := congrArg (·.getLsbD i) apart
  simp at here ⊢
  grind

theorem getLsbD_patch (mask dst src : BitVec n) (i : Nat) :
    (patch mask dst src).getLsbD i = if mask.getLsbD i then src.getLsbD i else dst.getLsbD i := by
  unfold patch
  simp
  grind

/-- Masking with the bits of one field. -/
theorem and_fieldMask (w : BitVec n) (low length : Nat) :
    w &&& ((BitVec.allOnes length).setWidth n <<< low) = (field w low length).setWidth n <<< low := by
  ext i h
  simp [field]
  grind

/-- Sign extension by setting the bits above the sign bit. -/
theorem signExtend_by_or {k : Nat} (x : BitVec k) (n : Nat) (positive : 0 < k) (le : k ≤ n) :
    (if x.setWidth n &&& (1#n <<< (k - 1)) != 0 then x.setWidth n ||| (BitVec.allOnes n <<< (k - 1))
      else x.setWidth n) =
      x.signExtend n := by
  have sign : (x.setWidth n &&& (1#n <<< (k - 1)) != 0) = x.msb := by
    have single : x.setWidth n &&& (1#n <<< (k - 1)) = if x.msb then 1#n <<< (k - 1) else 0 := by
      ext i h
      simp [BitVec.msb_eq_getLsbD_last]
      grind
    rw [single]
    cases x.msb with
    | false => simp
    | true =>
      simp only [↓reduceIte, bne_iff_ne, ne_eq]
      intro zero
      have here := congrArg (·.getLsbD (k - 1)) zero
      simp at here
      omega
  rw [sign]
  ext i h
  rw [BitVec.getElem_signExtend]
  cases msb : x.msb with
  | false =>
    simp
    grind
  | true =>
    rw [BitVec.msb_eq_getLsbD_last] at msb
    simp
    grind

private theorem xor_sub_clear (x sign : BitVec n) (clear : x &&& sign = 0) :
    (x ^^^ sign) - sign = x := by
  have sum : x ^^^ sign = x + sign := by
    rw [BitVec.add_eq_or_of_and_eq_zero x sign clear]
    ext i h
    have here := congrArg (·.getLsbD i) clear
    simp at here ⊢
    grind
  rw [sum, BitVec.add_sub_cancel]

private theorem xor_sub_set (x sign : BitVec n) (set : x &&& sign = sign) :
    (x ^^^ sign) - sign = x - (sign + sign) := by
  have apart : (x ^^^ sign) &&& sign = 0 := by
    ext i h
    have here := congrArg (·.getLsbD i) set
    simp at here ⊢
    grind
  have sum : (x ^^^ sign) + sign = x := by
    rw [BitVec.add_eq_or_of_and_eq_zero _ _ apart]
    ext i h
    have here := congrArg (·.getLsbD i) set
    simp at here ⊢
    grind
  grind

private theorem double_bit (k : Nat) (positive : 0 < k) (small : k < n) :
    (1#n <<< (k - 1)) + (1#n <<< (k - 1)) = 1#n <<< k := by
  have power : 2 ^ k < 2 ^ n := Nat.pow_lt_pow_right (by decide) small
  have twice : 2 ^ k = 2 * 2 ^ (k - 1) := by
    rw [← Nat.pow_succ']
    congr 1
    omega
  have one : 1 % 2 ^ n = 1 := Nat.mod_eq_of_lt (by have := Nat.two_pow_pos (k - 1); omega)
  have half : 2 ^ (k - 1) % 2 ^ n = 2 ^ (k - 1) := Nat.mod_eq_of_lt (by omega)
  apply BitVec.eq_of_toNat_eq
  simp only [BitVec.toNat_add, BitVec.toNat_shiftLeft, BitVec.toNat_ofNat, Nat.shiftLeft_eq, one,
    Nat.one_mul, half]
  congr 1
  omega

/-- Sign extension by flipping the sign bit and subtracting it. -/
theorem signExtend_by_xor {k : Nat} (x : BitVec k) (n : Nat) (positive : 0 < k) (small : k < n) :
    (x.setWidth n ^^^ (1#n <<< (k - 1))) - (1#n <<< (k - 1)) = x.signExtend n := by
  cases msb : x.msb with
  | false =>
    rw [xor_sub_clear]
    · ext i h
      rw [BitVec.getElem_signExtend, msb]
      simp
      grind
    · ext i h
      rw [BitVec.msb_eq_getLsbD_last] at msb
      simp
      grind
  | true =>
    rw [BitVec.msb_eq_getLsbD_last] at msb
    rw [xor_sub_set, double_bit k positive small]
    · have wrap : x.setWidth n - (1#n <<< k) = x.setWidth n + (BitVec.allOnes n <<< k) := by
        rw [BitVec.sub_eq_add_neg, ← BitVec.shiftLeft_neg, BitVec.neg_one_eq_allOnes]
      rw [wrap, BitVec.add_eq_or_of_and_eq_zero]
      · ext i h
        rw [BitVec.getElem_signExtend, BitVec.msb_eq_getLsbD_last, msb]
        simp
        grind
      · ext i h
        simp
        grind
    · ext i h
      simp
      grind

/-- The lowest bits of a word. -/
theorem and_ones_below (w : BitVec n) (k : Nat) (small : k < n) :
    w &&& ((1#n <<< k) - 1#n) = (field w 0 k).setWidth n := by
  have ones : (1#n <<< k) - 1#n = (BitVec.allOnes k).setWidth n <<< 0 := by
    have power : 2 ^ k < 2 ^ n := Nat.pow_lt_pow_right (by decide) small
    have positive : 0 < 2 ^ k := Nat.two_pow_pos k
    have one : 1 % 2 ^ n = 1 := Nat.mod_eq_of_lt (by omega)
    have wrapped : (2 ^ n - 1 + 2 ^ k) % 2 ^ n = 2 ^ k - 1 := by
      rw [show 2 ^ n - 1 + 2 ^ k = 2 ^ k - 1 + 2 ^ n by omega, Nat.add_mod_right,
        Nat.mod_eq_of_lt (by omega)]
    apply BitVec.eq_of_toNat_eq
    simp only [BitVec.toNat_sub, BitVec.toNat_shiftLeft, BitVec.toNat_ofNat, Nat.shiftLeft_eq,
      one, Nat.one_mul,
      Nat.mod_eq_of_lt power, wrapped, BitVec.toNat_setWidth, BitVec.toNat_allOnes,
      Nat.pow_zero, Nat.mul_one]
    rw [Nat.mod_eq_of_lt (by omega : 2 ^ k - 1 < 2 ^ n), Nat.mod_eq_of_lt (by omega : 2 ^ k - 1 < 2 ^ n)]
  rw [ones, and_fieldMask, BitVec.shiftLeft_zero]

/-! ## Putting words together from fields -/

theorem field_or (x y : BitVec n) (low k : Nat) :
    field (x ||| y) low k = field x low k ||| field y low k := by
  ext i h
  simp [field]

theorem field_shifted {k : Nat} (x : BitVec k) (s : Nat) (inside : s + k ≤ n) :
    field (x.setWidth n <<< s) s k = x := by
  ext i h
  simp [field]
  grind

theorem field_shifted_apart {m : Nat} (x : BitVec m) (s low k : Nat)
    (apart : low + k ≤ s ∨ s + m ≤ low) :
    field (x.setWidth n <<< s) low k = 0#k := by
  ext i h
  simp [field]
  grind

/-- A field that the pattern does not fix. -/
theorem matches_or_shifted {k : Nat} {p : Pattern} (w : BitVec n) (x : BitVec k) (s : Nat)
    (free : field (BitVec.ofNat n p.mask) s k = 0) : wordMatches (w ||| (x.setWidth n <<< s)) p =
      wordMatches w p := by
  have apart : x.setWidth n <<< s &&& BitVec.ofNat n p.mask = 0#n := by
    ext i h
    by_cases inside : s ≤ i ∧ i - s < k
    · have clear := congrArg (·.getLsbD (i - s)) free
      simp [field, inside.2, Nat.add_sub_cancel' inside.1, h] at clear
      simp [clear]
    · have above : s ≤ i → x.getLsbD (i - s) = false := fun after => BitVec.getLsbD_of_ge x _ (by omega)
      by_cases after : s ≤ i <;> simp [after, above]
  have same : (w ||| (x.setWidth n <<< s)) &&& BitVec.ofNat n p.mask = w &&& BitVec.ofNat n p.mask := by
    rw [BitVec.and_comm, BitVec.and_or_distrib_left, BitVec.and_comm _ (_ <<< _), apart,
      BitVec.or_zero, BitVec.and_comm]
  rw [wordMatches, wordMatches, same]

/-- The lowest bits of a multiple of a power of two are clear. -/
theorem getLsbD_of_dvd {x : BitVec n} {s i : Nat} (dvd : 2 ^ s ∣ x.toNat) (below : i < s) :
    x.getLsbD i = false := by
  obtain ⟨c, eq⟩ := dvd
  rw [BitVec.getLsbD, eq, Nat.testBit_two_pow_mul]
  simp [Nat.not_le.mpr below]

/-- The bits above those, with zeros in their place. -/
theorem field_append_zero (x : BitVec n) (s k : Nat) (aligned : 2 ^ s ∣ x.toNat) :
    field x s k ++ 0#s = x.setWidth (k + s) := by
  ext i h
  by_cases low : i < s
  · have clear := getLsbD_of_dvd aligned low
    simp [field]
    grind
  · simp [field]
    grind

/-- A number that fits is not changed by being cut off. -/
theorem toInt_setWidth_of_fits {k : Nat} (x : BitVec n) (positive : 0 < k) (le : k ≤ n)
    (low : -2 ^ (k - 1) ≤ x.toInt)
    (high : x.toInt < 2 ^ (k - 1)) : (x.setWidth k).toInt = x.toInt := by
  have width : k - 1 + 1 = k := by omega
  have twice : (2 : Int) ^ k = 2 * 2 ^ (k - 1) := by rw [← Int.pow_succ', width]
  have residue : Int.bmod (x.toNat : Int) (2 ^ k) = Int.bmod x.toInt (2 ^ k) := by
    rw [BitVec.toInt_eq_toNat_bmod, Int.bmod_bmod_of_dvd (by exact_mod_cast Nat.pow_dvd_pow 2 le)]
  rw [BitVec.toInt_setWidth, residue]
  apply Int.bmod_eq_of_le
  · push_cast
    omega
  · push_cast
    omega

end Adbi.Lib
