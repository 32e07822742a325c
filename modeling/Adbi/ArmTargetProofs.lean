import Mathlib.Tactic.IntervalCases
import Adbi.Lib.Encodings
import Adbi.ArmTemplate

/-! The branch targets and literal addresses that `template_fillout` stores for
ARM and Thumb instructions, against those of the architecture. The decoders of
three Thumb encodings sign extend from the wrong bit, or drop a field. -/
namespace Adbi.ArmTargetProofs
open Adbi.Lib Adbi.ArmTemplate

variable {insn : Word}

/-! ## The architecture -/

/-- The instructions whose target or address a field holds. -/
def encodes (insn : Word) : Field → Bool
  | .bA1Target => wordMatches insn "----1010------------------------" &&
    !wordMatches insn "1111----------------------------"
  | .blImmA1Target =>
    wordMatches insn "----1011------------------------" &&
      !wordMatches insn "1111----------------------------"
  | .blxImmA2Target => wordMatches insn "1111101-------------------------"
  | .cbzT1Target => wordMatches insn "00000000000000001011-0-1--------"
  | .adrT1Val => wordMatches insn "000000000000000010100-----------"
  | .adrT2Val => wordMatches insn "11110-10101011110---------------"
  | .adrT3Val => wordMatches insn "11110-10000011110---------------"
  | .ldrLitT1Address => wordMatches insn "000000000000000001001-----------"
  | .ldrLitT2Address => wordMatches insn "11111000-1011111----------------"
  | .bT1Target =>
    wordMatches insn "00000000000000001101------------" && !wordMatches insn "1101111---------"
  | .bT2Target => wordMatches insn "000000000000000011100-----------"
  | .bT3Target =>
    wordMatches insn "11110-----------10-0------------" &&
      !wordMatches insn "11110-111-------10-0------------"
  | .bT4Target => wordMatches insn "11110-----------10-1------------"
  | .blT1Target => wordMatches insn "11110-----------11-1------------"
  | .blxT2Target => wordMatches insn "11110-----------11-0-----------0"
  | _ => false

/-- `Align(value, 4)`. -/
def align (value : Word) : Word := value &&& ~~~3#32

/-- The offset of the conditional 32-bit Thumb branch: `SignExtend(S:J2:J1:imm6:imm11:'0')`. -/
def offsetT3 (insn : Word) : Word :=
  (field insn 26 1 ++ field insn 11 1 ++ field insn 13 1 ++ field insn 16 6 ++ field insn 0 11 ++
    0#1).signExtend 32

/-- The offset of the other 32-bit Thumb branches: `SignExtend(S:I1:I2:imm10:imm11:'0')`,
with `I1 = NOT(J1 EOR S)` and `I2 = NOT(J2 EOR S)`. -/
def offsetT4 (insn : Word) : Word :=
  let s := field insn 26 1
  let i1 := ~~~(field insn 13 1 ^^^ s)
  let i2 := ~~~(field insn 11 1 ^^^ s)
  (s ++ i1 ++ i2 ++ field insn 16 10 ++ field insn 0 11 ++ 0#1).signExtend 32

/-- The target of a branch, with the bit for the Thumb instruction set, or the
address of a literal, of the instruction at `pc`. -/
def architecturalValue (pc insn : Word) : Field → Word
  | .bA1Target | .blImmA1Target => pc + 8#32 + (field insn 0 24 ++ 0#2).signExtend 32
  | .blxImmA2Target => (pc + 8#32 + (field insn 0 24 ++ field insn 24 1 ++ 0#1).signExtend 32) ||| 1#32
  | .cbzT1Target => (pc + 4#32 + (field insn 9 1 ++ field insn 3 5 ++ 0#1).setWidth 32) ||| 1#32
  | .adrT1Val | .ldrLitT1Address => align (pc + 4#32) + (field insn 0 8 ++ 0#2).setWidth 32
  | .adrT2Val => align (pc + 4#32) - (field insn 26 1 ++ field insn 12 3 ++ field insn 0 8).setWidth 32
  | .adrT3Val => align (pc + 4#32) + (field insn 26 1 ++ field insn 12 3 ++ field insn 0 8).setWidth 32
  | .ldrLitT2Address =>
    if insn.getLsbD 23 then align (pc + 4#32) + (field insn 0 12).setWidth 32
    else align (pc + 4#32) - (field insn 0 12).setWidth 32
  | .bT1Target => (pc + 4#32 + (field insn 0 8 ++ 0#1).signExtend 32) ||| 1#32
  | .bT2Target => (pc + 4#32 + (field insn 0 11 ++ 0#1).signExtend 32) ||| 1#32
  | .bT3Target => (pc + 4#32 + offsetT3 insn) ||| 1#32
  | .bT4Target | .blT1Target => (pc + 4#32 + offsetT4 insn) ||| 1#32
  | .blxT2Target => align (pc + 4#32) + offsetT4 insn
  | _ => 0

/-- The encodings that are decoded as the architecture has it: a conditional
32-bit Thumb branch whose offset has twelve bits and its sign, and another
32-bit Thumb branch whose offset has 23 bits and its sign. -/
def Decoded (insn : Word) : Field → Prop
  | .bT3Target =>
    insn.getLsbD 13 = insn.getLsbD 26 ∧ insn.getLsbD 11 = insn.getLsbD 26 ∧
      ∀ i < 6, insn.getLsbD (16 + i) = insn.getLsbD 26
  | .bT4Target | .blT1Target | .blxT2Target => insn.getLsbD 13 = true
  | _ => True

/-! ## Decoding offsets -/

/-- `sign_extend` extends the sign of the lowest bits, as many as its second argument says. -/
private theorem signExtend_eq (value : Word) (k : Nat) (positive : 0 < k) (small : k < 32) :
    signExtend value k = (field value 0 k).signExtend 32 := by
  show ((value &&& ((1#32 <<< k) - 1#32)) ^^^ (1#32 <<< (k - 1))) - (1#32 <<< (k - 1)) = _
  rw [and_ones_below value k small, signExtend_by_xor _ 32 positive small]

private theorem offset_arm (insn : Word) :
    signExtend ((insn &&& 0x00ffffff#32) <<< 2) 26 = (field insn 0 24 ++ 0#2).signExtend 32 := by
  rw [signExtend_eq _ 26 (by decide) (by decide)]
  congr 1
  ext i h
  rw [show 0x00ffffff#32 = (BitVec.allOnes 24).setWidth 32 <<< 0 by decide, and_fieldMask]
  simp [field]
  grind

private theorem offset_blx (insn : Word) :
    signExtend (((insn &&& 0x00ffffff#32) <<< 2) ||| (if insn.getLsbD 24 then 2#32 else 0#32)) 26 =
      (field insn 0 24 ++ field insn 24 1 ++ 0#1).signExtend 32 := by
  have two : (if insn.getLsbD 24 then 2#32 else 0#32) = (field insn 24 1).setWidth 32 <<< 1 := by
    rw [field_bit]
    cases insn.getLsbD 24 <;> rfl
  rw [signExtend_eq _ 26 (by decide) (by decide), two]
  congr 1
  ext i h
  rw [show 0x00ffffff#32 = (BitVec.allOnes 24).setWidth 32 <<< 0 by decide, and_fieldMask]
  simp [field]
  grind

private theorem offset_bT1 (insn : Word) :
    signExtend ((field insn 0 8).setWidth 32 <<< 1) 9 = (field insn 0 8 ++ 0#1).signExtend 32 := by
  rw [signExtend_eq _ 9 (by decide) (by decide)]
  congr 1
  ext i h
  simp [field]
  grind

private theorem offset_bT2 (insn : Word) :
    signExtend ((field insn 0 11).setWidth 32 <<< 1) 12 = (field insn 0 11 ++ 0#1).signExtend 32 := by
  rw [signExtend_eq _ 12 (by decide) (by decide)]
  congr 1
  ext i h
  simp [field]
  grind

private theorem offset_cbz (insn : Word) :
    (((((insn >>> 9) &&& 0x1#32) <<< 5) ||| ((insn >>> 3) &&& 0x1f#32)) <<< 1) =
      (field insn 9 1 ++ field insn 3 5 ++ 0#1).setWidth 32 := by
  ext i h
  rw [show 0x1#32 = (BitVec.allOnes 1).setWidth 32 <<< 0 by decide, and_fieldMask,
    show 0x1f#32 = (BitVec.allOnes 5).setWidth 32 <<< 0 by decide, and_fieldMask]
  simp [field]
  grind

private theorem offset_imm8 (insn : Word) :
    (insn &&& 0xff#32) <<< 2 = (field insn 0 8 ++ 0#2).setWidth 32 := by
  ext i h
  rw [show 0xff#32 = (BitVec.allOnes 8).setWidth 32 <<< 0 by decide, and_fieldMask]
  simp [field]
  grind

private theorem offset_adr (insn : Word) :
    ((field insn 26 1).setWidth 32 <<< 11) ||| ((field insn 12 3).setWidth 32 <<< 8) |||
      (field insn 0 8).setWidth 32 =
      (field insn 26 1 ++ field insn 12 3 ++ field insn 0 8).setWidth 32 := by
  ext i h
  simp [field]
  grind

/-- What `template_fillout` decodes for the conditional branch: without `imm6`, and without the sign. -/
private theorem decoded_bT3 (insn : Word) :
    signExtend (((field insn 0 11).setWidth 32 ||| ((field insn 13 1).setWidth 32 <<< 11) |||
        ((field insn 11 1).setWidth 32 <<< 12) ||| ((field insn 26 1).setWidth 32 <<< 13)) <<< 1) 14 =
      (field insn 11 1 ++ field insn 13 1 ++ field insn 0 11 ++ 0#1).signExtend 32 := by
  rw [signExtend_eq _ 14 (by decide) (by decide)]
  congr 1
  ext i h
  simp [field]
  grind

/-- What it decodes for the other branches: without the sign. -/
private theorem decoded_bT4 (insn : Word) :
    thumb2BranchDecode insn = (~~~(field insn 13 1 ^^^ field insn 26 1) ++
      ~~~(field insn 11 1 ^^^ field insn 26 1) ++
      field insn 16 10 ++ field insn 0 11 ++ 0#1).signExtend 32 := by
  rw [thumb2BranchDecode, signExtend_eq _ 24 (by decide) (by decide)]
  congr 1
  ext i h
  simp [field]
  grind

private theorem add_bit_zero (x y : Word) : (x + y).getLsbD 0 = (x.getLsbD 0 ^^ y.getLsbD 0) := by
  rw [BitVec.getLsbD_add (by decide), BitVec.carry_zero, Bool.xor_false]

/-- Even offsets lead to different targets if they are different. -/
private theorem target_inj (pc x y : Word) (first : x.getLsbD 0 = false) (second : y.getLsbD 0 = false) :
    ((pc + x) ||| 1#32 = (pc + y) ||| 1#32) ↔ x = y := by
  constructor
  · intro same
    have sums : pc + x = pc + y := by
      apply BitVec.eq_of_getLsbD_eq
      intro i h
      by_cases zero : i = 0
      · subst zero
        rw [add_bit_zero, add_bit_zero, first, second]
      · have one : (1#32).getLsbD i = false := by
          rw [BitVec.getLsbD_one]
          simp [zero]
        have here := congrArg (·.getLsbD i) same
        simpa [one] using here
    exact (BitVec.add_right_inj pc).mp sums
  · rintro rfl
    rfl

/-- The bits of a sign extended offset. -/
private theorem signExtend_bit {k : Nat} (x : BitVec k) (i : Nat) (h : i < 32) :
    (x.signExtend 32).getLsbD i = if i < k then x.getLsbD i else x.getLsbD (k - 1) := by
  rw [BitVec.getLsbD_signExtend, BitVec.msb_eq_getLsbD_last]
  simp [h]

private theorem decoded_bT3_bit (insn : Word) (i : Nat) (h : i < 32) :
    ((field insn 11 1 ++ field insn 13 1 ++ field insn 0 11 ++ 0#1).signExtend 32).getLsbD i =
      if i = 0 then false else if i < 12 then insn.getLsbD (i - 1) else if i = 12 then insn.getLsbD 13
      else insn.getLsbD 11 := by
  simp only [signExtend_bit _ _ h, BitVec.getLsbD_append, field, BitVec.getLsbD_extractLsb']
  interval_cases i <;> rfl

private theorem offsetT3_bit (insn : Word) (i : Nat) (h : i < 32) :
    (offsetT3 insn).getLsbD i =
      if i = 0 then false else if i < 12 then insn.getLsbD (i - 1)
        else if i < 18 then insn.getLsbD (16 + (i - 12))
      else if i = 18 then insn.getLsbD 13 else if i = 19 then insn.getLsbD 11 else insn.getLsbD 26 := by
  unfold offsetT3
  simp only [signExtend_bit _ _ h, BitVec.getLsbD_append, field, BitVec.getLsbD_extractLsb']
  interval_cases i <;> rfl

private theorem offsets_bT3 (insn : Word) :
    (field insn 11 1 ++ field insn 13 1 ++ field insn 0 11 ++ 0#1).signExtend 32 = offsetT3 insn ↔
      Decoded insn .bT3Target := by
  constructor
  · intro same
    have sign := decoded_bT3_bit insn 20 (by decide)
    rw [same, offsetT3_bit insn 20 (by decide)] at sign
    have first := decoded_bT3_bit insn 18 (by decide)
    rw [same, offsetT3_bit insn 18 (by decide)] at first
    have lowest := decoded_bT3_bit insn 12 (by decide)
    rw [same, offsetT3_bit insn 12 (by decide)] at lowest
    simp only [Nat.reduceLT, Nat.reduceEqDiff, ↓reduceIte] at sign first lowest
    refine ⟨by rw [first, sign], sign.symm, ?_⟩
    intro i small
    have here := decoded_bT3_bit insn (12 + i) (by omega)
    rw [same, offsetT3_bit insn (12 + i) (by omega)] at here
    grind
  · rintro ⟨j1, j2, imm6⟩
    apply BitVec.eq_of_getLsbD_eq
    intro i h
    have imm6 := imm6 (i - 12)
    rw [decoded_bT3_bit insn i h, offsetT3_bit insn i h]
    grind

private theorem decoded_bT4_bit (insn : Word) (i : Nat) (h : i < 32) :
    (thumb2BranchDecode insn).getLsbD i =
      if i < 23 then (offsetT4 insn).getLsbD i else !(insn.getLsbD 13 ^^ insn.getLsbD 26) := by
  rw [decoded_bT4]
  unfold offsetT4
  simp only [signExtend_bit _ _ h, BitVec.getLsbD_append, field, BitVec.getLsbD_extractLsb',
    BitVec.getLsbD_not,
    BitVec.getLsbD_xor]
  interval_cases i <;> rfl

private theorem offsetT4_bit (insn : Word) (i : Nat) (h : i < 32) (high : 24 ≤ i) :
    (offsetT4 insn).getLsbD i = insn.getLsbD 26 := by
  unfold offsetT4
  simp only [signExtend_bit _ _ h, BitVec.getLsbD_append, field, BitVec.getLsbD_extractLsb',
    BitVec.getLsbD_not,
    BitVec.getLsbD_xor]
  interval_cases i <;> rfl

private theorem offsetT4_bit_23 (insn : Word) :
    (offsetT4 insn).getLsbD 23 = !(insn.getLsbD 13 ^^ insn.getLsbD 26) := by
  unfold offsetT4
  simp only [signExtend_bit _ 23 (by decide), BitVec.getLsbD_append, field,
    BitVec.getLsbD_extractLsb', BitVec.getLsbD_not,
    BitVec.getLsbD_xor]
  rfl

private theorem offsets_bT4 (insn : Word) : thumb2BranchDecode insn = offsetT4 insn ↔
    insn.getLsbD 13 = true := by
  constructor
  · intro same
    have sign := decoded_bT4_bit insn 24 (by decide)
    rw [same, offsetT4_bit insn 24 (by decide) (by decide)] at sign
    simp only [Nat.reduceLT, ↓reduceIte] at sign
    cases j1 : insn.getLsbD 13 with
    | true => rfl
    | false =>
      rw [j1] at sign
      cases insn.getLsbD 26 <;> simp at sign
  · intro j1
    apply BitVec.eq_of_getLsbD_eq
    intro i h
    rw [decoded_bT4_bit insn i h]
    by_cases low : i < 23
    · simp [low]
    · rw [if_neg low]
      by_cases top : i = 23
      · subst top
        rw [offsetT4_bit_23]
      · rw [offsetT4_bit insn i h (by omega), j1]
        simp

/-! ## Alignment -/

private theorem three_bit (i : Nat) (h : i < 32) : (3#32).getLsbD i = decide (i < 2) := by
  interval_cases i <;> rfl

private theorem and_three {x : Word} (zero : x.getLsbD 0 = false) (one : x.getLsbD 1 = false) :
    x &&& 3#32 = 0#32 := by
  apply BitVec.eq_of_getLsbD_eq
  intro i h
  rw [BitVec.getLsbD_and, three_bit i h]
  by_cases low : i < 2
  · interval_cases i
    · simpa using zero
    · simpa using one
  · simp [low]

private theorem multiple_of_four {x : Word} (clear : x &&& 3#32 = 0#32) : (x >>> 2) <<< 2 = x := by
  ext i h
  have here := congrArg (·.getLsbD i) clear
  have three := three_bit i h
  simp [three] at here ⊢
  grind

private theorem add_aligned {x y : Word} (first : x &&& 3#32 = 0#32) (second : y &&& 3#32 = 0#32) :
    x + y &&& 3#32 = 0#32 := by
  rw [← multiple_of_four first, ← multiple_of_four second, ← BitVec.shiftLeft_add_distrib]
  generalize x >>> 2 + y >>> 2 = z
  apply and_three <;> simp

private theorem align_aligned (x : Word) : align x &&& 3#32 = 0#32 := by
  apply and_three <;> simp [align]

private theorem offset_aligned (even : insn.getLsbD 0 = false) :
    thumb2BranchDecode insn &&& 3#32 = 0#32 := by
  rw [decoded_bT4]
  apply and_three
  · simp only [signExtend_bit _ 0 (by decide), BitVec.getLsbD_append]
    rfl
  · simp only [signExtend_bit _ 1 (by decide), BitVec.getLsbD_append, field, BitVec.getLsbD_extractLsb']
    exact even

/-- A `blx` with a clear lowest bit leads to an aligned target. -/
theorem blx_target_aligned (pc : Word) (even : insn.getLsbD 0 = false) :
    ((pc + 4#32) &&& 0xfffffffc#32) + thumb2BranchDecode insn &&& 3#32 = 0#32 :=
  add_aligned (align_aligned (pc + 4#32)) (offset_aligned even)

/-! ## The targets -/

private theorem align_eq (x : Word) : x &&& 0xfffffffc#32 = align x := rfl

private theorem mul_four (x : Word) : x * 4#32 = x <<< 2 := by
  rw [show 4#32 = BitVec.twoPow 32 2 by decide, BitVec.mul_twoPow_eq_shiftLeft]

private theorem decoded_bT3_even (insn : Word) :
    ((field insn 11 1 ++ field insn 13 1 ++ field insn 0 11 ++ 0#1).signExtend 32).getLsbD 0 = false :=
  decoded_bT3_bit insn 0 (by decide)

private theorem offsetT3_even (insn : Word) : (offsetT3 insn).getLsbD 0 = false :=
  offsetT3_bit insn 0 (by decide)

private theorem offsetT4_even (insn : Word) : (offsetT4 insn).getLsbD 0 = false := by
  unfold offsetT4
  simp only [signExtend_bit _ 0 (by decide), BitVec.getLsbD_append]
  rfl

private theorem decoded_bT4_even (insn : Word) : (thumb2BranchDecode insn).getLsbD 0 = false := by
  rw [decoded_bT4_bit insn 0 (by decide), if_pos (by decide), offsetT4_even]

/-- The value of a field, by the bits that hold its offset. -/
theorem fieldValue_iff_decoded (values : Values) (target : Field)
    (instruction : encodes values.insn target = true) :
    fieldValue values target = some (architecturalValue values.pc values.insn target) ↔
    Decoded values.insn target := by
  obtain ⟨handler, pc, next, insn, kind⟩ := values
  cases target with
  | bA1Target => simp only [fieldValue, architecturalValue, offset_arm, Decoded]
  | blImmA1Target => simp only [fieldValue, architecturalValue, offset_arm, Decoded]
  | blxImmA2Target => simp only [fieldValue, architecturalValue, offset_blx, Decoded]
  | cbzT1Target =>
    have has : wordMatches insn "1011-0-1--------" = true := matches_of_inside instruction (by decide)
    simp only [fieldValue, has, ↓reduceIte, architecturalValue, offset_cbz, Decoded]
  | adrT1Val =>
    have has : wordMatches insn "10100-----------" = true := matches_of_inside instruction (by decide)
    simp only [fieldValue, has, ↓reduceIte, architecturalValue, offset_imm8, align_eq, Decoded]
  | adrT2Val =>
    have has : wordMatches insn "11110-10101011110---------------" = true := instruction
    simp only [fieldValue, has, Bool.true_or, ↓reduceIte, architecturalValue, offset_adr,
      align_eq, Decoded]
  | adrT3Val =>
    have has : wordMatches insn "11110-10000011110---------------" = true := instruction
    have other : wordMatches insn "11110-10101011110---------------" = false :=
      not_matches_of_conflict has (by decide)
    simp only [fieldValue, has, other, Bool.or_true, Bool.false_eq_true, ↓reduceIte,
      architecturalValue, offset_adr,
      align_eq, Decoded]
  | ldrLitT1Address =>
    have has : wordMatches insn "01001-----------" = true := matches_of_inside instruction (by decide)
    simp only [fieldValue, has, ↓reduceIte, architecturalValue, mul_four, offset_imm8, align_eq, Decoded]
  | ldrLitT2Address =>
    have has : wordMatches insn "11111000-1011111----------------" = true := instruction
    simp only [fieldValue, has, ↓reduceIte, architecturalValue, align_eq, Decoded]
  | bT1Target =>
    simp only [encodes, Bool.and_eq_true, Bool.not_eq_true'] at instruction
    have has : wordMatches insn "1101------------" = true := matches_of_inside instruction.1 (by decide)
    simp only [fieldValue, has, instruction.2, Bool.not_false, Bool.and_true, ↓reduceIte,
      architecturalValue, offset_bT1, Decoded]
  | bT2Target =>
    have has : wordMatches insn "11100-----------" = true := matches_of_inside instruction (by decide)
    simp only [fieldValue, has, ↓reduceIte, architecturalValue, offset_bT2, Decoded]
  | bT3Target =>
    simp only [encodes, Bool.and_eq_true] at instruction
    simp only [fieldValue, instruction.1, ↓reduceIte, architecturalValue, decoded_bT3, Option.some.injEq]
    rw [target_inj _ _ _ (decoded_bT3_even insn) (offsetT3_even insn), offsets_bT3]
  | bT4Target =>
    simp only [fieldValue, architecturalValue, Option.some.injEq]
    rw [target_inj _ _ _ (decoded_bT4_even insn) (offsetT4_even insn), offsets_bT4]
    rfl
  | blT1Target =>
    simp only [fieldValue, architecturalValue, Option.some.injEq]
    rw [target_inj _ _ _ (decoded_bT4_even insn) (offsetT4_even insn), offsets_bT4]
    rfl
  | blxT2Target =>
    have has : wordMatches insn "11110-----------11--------------" = true :=
      matches_of_inside instruction (by decide)
    have even : insn.getLsbD 0 = false := by
      have low : field insn 0 1 = 0#1 := field_of_matches instruction 0 1 (by decide)
      rw [field_bit] at low
      cases bit : insn.getLsbD 0 with
      | false => rfl
      | true => simp [bit] at low
    have aligned : align (pc + 4#32) + thumb2BranchDecode insn &&& 3#32 = 0#32 :=
      blx_target_aligned pc even
    simp only [fieldValue, has, even, align_eq, aligned, Bool.not_false, Bool.and_true,
      decide_true, ↓reduceIte,
      architecturalValue, Option.some.injEq, BitVec.add_right_inj]
    exact offsets_bT4 insn
  | insn => cases instruction
  | handlerAddress => cases instruction
  | origPc => cases instruction
  | readPc => cases instruction
  | nextPc => cases instruction
  | patchCond => cases instruction
  | patch dst src => cases instruction
  | patchTemporary dst => cases instruction

/-- The value stored for a field is the target or address of the architecture,
exactly if the instruction is not one of those whose offset is decoded wrongly. -/
theorem field_value_architectural_iff (values : Values) (target : Field)
    (instruction : encodes values.insn target = true) :
    fieldValue values target = some (architecturalValue values.pc values.insn target) ↔
    Decoded values.insn target :=
  fieldValue_iff_decoded values target instruction

/-- A `bl` four bytes ahead, at 0x8000. -/
theorem short_bl_target_architectural :
    fieldValue ⟨0, 0x8000#32, 0x8004#32, 0xf000f802#32, .thumb2⟩ .blT1Target =
      some (architecturalValue 0x8000#32 0xf000f802#32 .blT1Target) :=
  (field_value_architectural_iff ⟨0, 0x8000#32, 0x8004#32, 0xf000f802#32, .thumb2⟩ .blT1Target
    (by decide)).mpr
    (show (0xf000f802#32).getLsbD 13 = true by decide)

/-- A `beq.w` ahead by 4096 bytes, at 0x8000: the offset is lost. -/
theorem far_beq_target_not_architectural :
    encodes 0xf0018000#32 .bT3Target = true ∧
      fieldValue ⟨0, 0x8000#32, 0x8004#32, 0xf0018000#32, .thumb2⟩ .bT3Target = some 0x8005#32 ∧
      architecturalValue 0x8000#32 0xf0018000#32 .bT3Target = 0x9005#32 := by
  refine ⟨by decide, by decide, by decide⟩

end Adbi.ArmTargetProofs
