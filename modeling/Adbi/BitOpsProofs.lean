import Adbi.BitOps
import Adbi.Lib.BitRank

/-! Bits are gathered from a mask and scattered over one by their rank, so the one
undoes the other, on every machine where the shift by 32 gives no bit of the mask. -/
namespace Adbi.BitOpsProofs
open Adbi.Lib Adbi.BitOps
open Adbi.ArmTemplate (Word getBitsLoop setBitsLoop setBitsByMask)

variable {top mask : Word}

/-! ## Counting -/

/-- The model of the counter in the templates. -/
private theorem rank_whole (mask : Word) : TemplateSelect.bitsCount mask = rank mask 32 := rfl

private theorem count_loop (value c : Word) :
    countLoop value c = c + BitVec.ofNat 32 (rank value 32) := by
  fun_induction countLoop value c with
  | case1 c =>
    have none : rank (0 : Word) 32 = 0 := by decide
    rw [none]
    simp
  | case2 value c more ih =>
    obtain ⟨lowest, inside, set, cleared⟩ := clear_lowest more
    rw [ih, rank_clear set cleared 32, if_pos inside, BitVec.add_assoc, BitVec.add_comm 1,
      BitVec.ofNat_add]
    rfl

/-- `bits_count` counts the bits. -/
theorem bits_count (value : Word) : (bitsCount value).toNat = rank value 32 := by
  have few := rank_le value 32
  rw [bitsCount, count_loop]
  simp
  omega

theorem bits_count_eq {mask mask' : Word} : bitsCount mask = bitsCount mask' ↔
    rank mask 32 = rank mask' 32 := by
  rw [← bits_count, ← bits_count, BitVec.toNat_inj]

/-! ## Gathering -/

/-- A bit of the mask goes to the place of its rank, and what was there before goes
above all of them. -/
private theorem get_bits_loop (val mask : Word) {sh : Nat} (word : sh ≤ 32) (ret : Word) :
    (∀ i < sh, mask.getLsbD i = true → (getBitsLoop val mask sh ret).getLsbD (rank mask i) =
      val.getLsbD i) ∧
    ∀ j, (getBitsLoop val mask sh ret).getLsbD (rank mask sh + j) =
      (decide (rank mask sh + j < 32) && ret.getLsbD j) := by
  induction sh generalizing ret with
  | zero =>
    refine ⟨fun i low => absurd low (Nat.not_lt_zero i), fun j => ?_⟩
    by_cases inside : j < 32
    · simp [getBitsLoop, inside]
    · simp [getBitsLoop, inside, BitVec.getLsbD_of_ge ret j (by omega)]
  | succ sh ih =>
    rw [getBitsLoop, rank_succ]
    cases set : mask.getLsbD sh with
    | false =>
      obtain ⟨bits, above⟩ := ih (by omega) ret
      refine ⟨fun i low member => bits i ?_ member, above⟩
      have other : i ≠ sh := fun same => by simp [same, set] at member
      omega
    | true =>
      let ret' := (ret <<< 1) ||| if val.getLsbD sh then 1#32 else 0#32
      have lowest : ret'.getLsbD 0 = val.getLsbD sh := by
        cases bit : val.getLsbD sh <;> simp [ret', bit]
      have shifted (j : Nat) : ret'.getLsbD (j + 1) = (decide (j + 1 < 32) && ret.getLsbD j) := by
        cases bit : val.getLsbD sh <;> simp [ret', bit]
      obtain ⟨bits, above⟩ := ih (by omega) ret'
      refine ⟨fun i low member => ?_, fun j => ?_⟩
      · by_cases here : i = sh
        · have inside : rank mask sh < 32 := by
            have := rank_le mask sh
            omega
          have gathered := above 0
          rw [Nat.add_zero, lowest, decide_eq_true inside, Bool.true_and] at gathered
          rw [here]
          exact gathered
        · exact bits i (by omega) member
      · have raised := above (j + 1)
        have place : rank mask sh + 1 + j = rank mask sh + (j + 1) := by omega
        rw [shifted] at raised
        rw [if_pos rfl, if_pos rfl, place]
        refine raised.trans ?_
        by_cases inside : rank mask sh + (j + 1) < 32
        · simp [inside, (by omega : j + 1 < 32)]
        · simp [inside]

/-! ## Scattering -/

/-- The lowest bit of the value, moved to the place `sh`. -/
private theorem low_bit (val : Word) (sh i : Nat) :
    ((val &&& 1#32) <<< sh).getLsbD i = (decide (i < 32 ∧ i = sh) && val.getLsbD 0) := by
  rw [BitVec.getLsbD_shiftLeft, BitVec.getLsbD_and, BitVec.getLsbD_one]
  by_cases here : i = sh
  · simp [here]
  · by_cases below : i < sh
    · simp [here, below]
    · have higher : i - sh ≠ 0 := by omega
      simp [here, higher]

/-- A bit of the mask takes the bit of the value at its rank. -/
private theorem set_bits_loop (mask : Word) {fuel sh : Nat} (word : sh + fuel = 32) (val ret : Word)
    (fits : rank mask sh + k = rank mask 32) (small : val.toNat < 2 ^ k) :
    ∃ r, setBitsLoop mask fuel sh val ret = some r ∧
      ∀ i, r.getLsbD i =
        (ret.getLsbD i || (decide (sh ≤ i) && mask.getLsbD i &&
          val.getLsbD (rank mask i - rank mask sh))) := by
  induction fuel generalizing sh val ret k with
  | zero =>
    have whole : sh = 32 := by omega
    have none : k = 0 := by rw [whole] at fits; omega
    have zero : val = 0 := BitVec.eq_of_toNat_eq (by simpa [none] using small)
    exact ⟨ret, by simp [setBitsLoop, zero], by simp [zero]⟩
  | succ fuel ih =>
    rw [setBitsLoop]
    by_cases done : val = 0
    · exact ⟨ret, if_pos done, by simp [done]⟩
    have next := rank_succ mask sh
    rw [if_neg done]
    cases set : mask.getLsbD sh with
    | false =>
      simp only [set, Bool.false_eq_true, if_false, Nat.add_zero] at next
      have word' : sh + 1 + fuel = 32 := by omega
      obtain ⟨r, ran, bits⟩ := ih word' val ret (by omega) small
      refine ⟨r, ran, fun i => ?_⟩
      rw [bits, next]
      by_cases here : i = sh
      · simp [here, set]
      · have above : sh + 1 ≤ i ↔ sh ≤ i := by omega
        simp only [above]
    | true =>
      rw [set, if_pos rfl] at next
      obtain ⟨k', rfl⟩ : ∃ k', k = k' + 1 := ⟨k - 1, by have := rank_lt set (by omega : sh < 32); omega⟩
      have half : (val >>> 1).toNat < 2 ^ k' := by
        rw [Nat.pow_succ] at small
        rw [BitVec.toNat_ushiftRight, Nat.shiftRight_eq_div_pow]
        omega
      have word' : sh + 1 + fuel = 32 := by omega
      obtain ⟨r, ran, bits⟩ := ih word' (val >>> 1) (ret ||| ((val &&& 1#32) <<< sh)) (by omega) half
      refine ⟨r, ran, fun i => ?_⟩
      rw [bits, next, BitVec.getLsbD_or, low_bit, BitVec.getLsbD_ushiftRight]
      rcases Nat.lt_trichotomy i sh with below | here | above
      · have lower : ¬ sh + 1 ≤ i ∧ ¬ sh ≤ i ∧ i ≠ sh := by omega
        simp only [lower, and_false, decide_false, Bool.false_and, Bool.or_false]
      · subst here
        have inside : i < 32 := by omega
        simp only [inside, set, and_self, decide_true, Bool.true_and, Nat.le_refl, Nat.sub_self,
          Nat.not_succ_le_self, decide_false, Bool.false_and, Bool.or_false]
      · have later : sh + 1 ≤ i ∧ sh ≤ i ∧ i ≠ sh := by omega
        cases member : mask.getLsbD i with
        | false => simp [later]
        | true =>
          have ranks := rank_lt set above
          have place : 1 + (rank mask i - (rank mask sh + 1)) = rank mask i - rank mask sh := by omega
          simp [later, place]

/-! ## The laws -/

/-- The bits of `src` in one mask are in `r` the bits in the other one, in their order;
all the other bits of `r` are those of `dst`. -/
def Copied (src dst mask1 mask2 r : Word) : Prop :=
  (∀ i j, mask1.getLsbD i = true → mask2.getLsbD j = true → rank mask1 i = rank mask2 j →
    r.getLsbD j = src.getLsbD i) ∧
    ∀ j, mask2.getLsbD j = false → r.getLsbD j = dst.getLsbD j

/-- What the functions do for a mask, where no bit is scattered beyond the word. -/
structure Inverse (top mask : Word) : Prop where
  scatter : ∀ val, setBitsByMask (getBitsByMask top val mask) mask = some (val &&& mask)
  gather : ∀ val : Word, val.toNat < 2 ^ (bitsCount mask).toNat →
    ∃ s, setBitsByMask val mask = some s ∧ getBitsByMask top s mask = val
  copy : ∀ src dst mask2, bitsCount mask = bitsCount mask2 →
    ∃ r, patchByMask top src dst mask mask2 = some r ∧ Copied src dst mask mask2 r

/-- The bit at the shift by 32 does not get into the word. -/
def Clean (top mask : Word) : Prop := mask &&& top = 0 ∨ mask = BitVec.allOnes 32

/-- The value that is gathered, bit by bit. -/
theorem gathered (clean : Clean top mask) (val : Word) :
    (∀ i, mask.getLsbD i = true → (getBitsByMask top val mask).getLsbD (rank mask i) = val.getLsbD i) ∧
    ∀ b, rank mask 32 ≤ b → (getBitsByMask top val mask).getLsbD b = false := by
  obtain ⟨bits, above⟩ := get_bits_loop val mask (Nat.le_refl 32) (firstRound top val mask)
  refine ⟨fun i set => bits i (BitVec.lt_of_getLsbD set) set, fun b high => ?_⟩
  obtain ⟨j, rfl⟩ : ∃ j, b = rank mask 32 + j := ⟨b - rank mask 32, by omega⟩
  refine (above j).trans ?_
  rcases clean with apart | full
  · simp [firstRound, apart]
  · have whole : rank mask 32 = 32 := by
      rw [full]
      decide
    have outside : ¬ rank mask 32 + j < 32 := by omega
    rw [decide_eq_false outside, Bool.false_and]

private theorem gathered_lt (clean : Clean top mask) (val : Word) :
    (getBitsByMask top val mask).toNat < 2 ^ rank mask 32 :=
  Nat.lt_pow_two_of_testBit _ fun b high => (gathered clean val).2 b high

/-- The value that is scattered, bit by bit, where the mask has a place for each of its bits. -/
theorem scattered {val : Word} (small : val.toNat < 2 ^ rank mask 32) :
    ∃ s, setBitsByMask val mask = some s ∧
    ∀ i, s.getLsbD i = (mask.getLsbD i && val.getLsbD (rank mask i)) := by
  obtain ⟨s, ran, bits⟩ := set_bits_loop mask (by decide : 0 + 32 = 32) val 0
    (Nat.zero_add (rank mask 32)) small
  exact ⟨s, ran, fun i => by simpa using bits i⟩

/-- The laws hold where the first round adds nothing. -/
theorem inverse_of_clean (clean : Clean top mask) : Inverse top mask where
  scatter val := by
    obtain ⟨s, ran, bits⟩ := scattered (gathered_lt clean val)
    rw [ran, Option.some.injEq]
    apply BitVec.eq_of_getLsbD_eq
    intro i _
    rw [bits, BitVec.getLsbD_and]
    cases set : mask.getLsbD i with
    | false => simp
    | true => simp [(gathered clean val).1 i set]
  gather val small := by
    rw [bits_count] at small
    obtain ⟨s, ran, bits⟩ := scattered small
    refine ⟨s, ran, ?_⟩
    obtain ⟨inside, outside⟩ := gathered clean s
    apply BitVec.eq_of_getLsbD_eq
    intro b _
    by_cases low : b < rank mask 32
    · obtain ⟨i, _, set, rfl⟩ := exists_rank low
      rw [inside i set, bits, set, Bool.true_and]
    · have clear : val.toNat < 2 ^ b :=
        Nat.lt_of_lt_of_le small (Nat.pow_le_pow_right (by decide) (by omega))
      rw [outside b (by omega)]
      exact (Nat.testBit_lt_two_pow clear).symm
  copy src dst mask2 same := by
    obtain ⟨inside, _⟩ := gathered clean src
    have small := gathered_lt clean src
    rw [bits_count_eq.mp same] at small
    obtain ⟨s, ran, bits⟩ := scattered small
    refine ⟨(dst &&& ~~~mask2) ||| s, ?_, fun i j set set2 ranks => ?_, fun j clear => ?_⟩
    · rw [patchByMask, if_pos same, ran, Option.map_some]
    · have copied := inside i set
      rw [ranks] at copied
      simp [bits, set2, copied]
    · by_cases word : j < 32
      · rw [BitVec.getLsbD_or, BitVec.getLsbD_and, BitVec.getLsbD_not, bits, clear]
        simp [word]
      · rw [BitVec.getLsbD_of_ge _ j (by omega), BitVec.getLsbD_of_ge _ j (by omega)]

/-- The number of as many ones as the mask has bits. -/
private theorem ones_bit (mask : Word) (b : Nat) :
    (BitVec.ofNat 32 (2 ^ rank mask 32 - 1)).getLsbD b = decide (b < rank mask 32) := by
  have few := rank_le mask 32
  rw [BitVec.getLsbD_ofNat, Nat.testBit_two_pow_sub_one]
  by_cases low : b < rank mask 32
  · have word : b < 32 := by omega
    simp [low, word]
  · simp [low]

/-- Where it adds a bit, the mask itself is not gathered to ones. -/
private theorem clean_of_gather (gather : ∀ val : Word, val.toNat < 2 ^ (bitsCount mask).toNat →
    ∃ s, setBitsByMask val mask = some s ∧ getBitsByMask top s mask = val) : Clean top mask := by
  by_contra dirty
  obtain ⟨meets, partly⟩ := not_or.mp dirty
  have few : rank mask 32 < 32 := by
    refine Nat.lt_of_le_of_ne (rank_le mask 32) fun full =>
      partly (BitVec.eq_of_getLsbD_eq fun i word => ?_)
    rw [set_of_rank_full full word, BitVec.getLsbD_allOnes, decide_eq_true word]
  have power : 2 ^ rank mask 32 < 2 ^ 32 := Nat.pow_lt_pow_right (by decide) few
  have positive := Nat.two_pow_pos (rank mask 32)
  have small : (BitVec.ofNat 32 (2 ^ rank mask 32 - 1)).toNat < 2 ^ rank mask 32 := by
    rw [BitVec.toNat_ofNat]
    omega
  obtain ⟨s, ran, back⟩ := gather (BitVec.ofNat 32 (2 ^ rank mask 32 - 1))
    (by rw [bits_count]; exact small)
  obtain ⟨s', ran', bits⟩ := scattered small
  obtain rfl : s = s' := Option.some.inj (ran.symm.trans ran')
  have whole : s = mask := by
    apply BitVec.eq_of_getLsbD_eq
    intro i word
    rw [bits, ones_bit]
    cases set : mask.getLsbD i with
    | false => rfl
    | true => simp [rank_lt set word]
  have first : firstRound top mask mask = 1 := by rw [firstRound, if_pos meets, if_pos meets]
  have kept := (get_bits_loop mask mask (Nat.le_refl 32) (firstRound top mask mask)).2 0
  have read : getBitsLoop mask mask 32 (firstRound top mask mask) =
      BitVec.ofNat 32 (2 ^ rank mask 32 - 1) := by
    rw [← back, whole, getBitsByMask]
  rw [read, ones_bit, first, Nat.add_zero] at kept
  simp [few] at kept

/-- The laws hold exactly for the masks that have no bit in common with what the
machine makes of the shift by 32, and for the full mask, which loses it again. -/
theorem inverse_iff (top mask : Word) : Inverse top mask ↔ mask &&& top = 0 ∨ mask = BitVec.allOnes 32 :=
  ⟨fun laws => clean_of_gather laws.gather, inverse_of_clean⟩

/-- Where the shift is taken modulo 32, the lowest bit is gathered twice, and
scattering the two does not end within the word. -/
theorem bit_gathered_twice :
    getBitsByMask 1 1 1 = 3 ∧ setBitsByMask (getBitsByMask 1 1 1) 1 = none ∧ (1 : Word) &&& 1 = 1 ∧
      ¬ Inverse 1 1 := by
  have twice : getBitsByMask 1 1 1 = 3 := by decide
  have endless : setBitsByMask (getBitsByMask 1 1 1) 1 = none := by decide
  refine ⟨twice, endless, by decide, fun laws => ?_⟩
  have scattered := laws.scatter 1
  rw [endless] at scattered
  exact absurd scattered (by simp)

/-! ## ARM -/

/-- On ARM the templates use these functions, for which the laws hold without exception. -/
theorem inverse_arm (mask : Word) : Inverse 0 mask := inverse_of_clean (.inl (by simp))

theorem get_bits_by_mask_arm (val mask : Word) :
    ArmTemplate.getBitsByMask val mask = getBitsByMask 0 val mask := by
  have first : firstRound 0 val mask = 0 := by simp [firstRound]
  rw [ArmTemplate.getBitsByMask, getBitsLoop, BitVec.getLsbD_of_ge mask 32 (Nat.le_refl 32),
    getBitsByMask, first]
  rfl

theorem patch_by_mask_arm (src dst mask1 mask2 : Word) :
    ArmTemplate.patchByMask src dst mask1 mask2 = patchByMask 0 src dst mask1 mask2 := by
  have counts : TemplateSelect.bitsCount mask1 = TemplateSelect.bitsCount mask2 ↔
      bitsCount mask1 = bitsCount mask2 :=
    bits_count_eq.symm
  rw [ArmTemplate.patchByMask, patchByMask, get_bits_by_mask_arm]
  simp only [counts]

end Adbi.BitOpsProofs
