import Mathlib.Data.Finset.Card
import Mathlib.Tactic.IntervalCases
import Adbi.Lib.Encodings
import Adbi.BitOpsProofs

/-! Patching one instruction's fields into another one succeeds: a field of as
many bits takes the value, and among the low registers there is always a
temporary one. -/
namespace Adbi.ArmPatchProofs
open Adbi.Lib Adbi.TemplateSelect Adbi.ArmTemplate

variable {mask : Word}

/-- As many bits fit in as were taken. -/
theorem patchByMask_isSome (src dst : Word) {mask1 mask2 : Word}
    (same : bitsCount mask1 = bitsCount mask2) :
    (patchByMask src dst mask1 mask2).isSome = true := by
  obtain ⟨r, ran, _⟩ := (BitOpsProofs.inverse_arm mask1).copy src dst mask2
    (BitOpsProofs.bits_count_eq.mpr same)
  rw [BitOpsProofs.patch_by_mask_arm, ran, Option.isSome_some]

/-- Four registers do not take up all eight. -/
private theorem temporary_left (rd rt rn rm : Word) :
    ([0, 1, 2, 3, 4, 5, 6, 7].find? fun rc : Word => rc ≠ rd && rc ≠ rt && rc ≠ rn &&
      rc ≠ rm).isSome = true := by
  by_contra none
  have all : (Finset.range 8).image (BitVec.ofNat 32) ⊆ {rd, rt, rn, rm} := by
    intro rc member
    obtain ⟨k, small, rfl⟩ := Finset.mem_image.mp member
    have listed : BitVec.ofNat 32 k ∈ ([0, 1, 2, 3, 4, 5, 6, 7] : List Word) := by
      have := Finset.mem_range.mp small
      interval_cases k <;> simp
    have taken := List.find?_eq_none.mp (Option.not_isSome_iff_eq_none.mp none) _ listed
    simp only [Bool.and_eq_true, decide_eq_true_eq, not_and_or, not_not] at taken
    simp only [Finset.mem_insert, Finset.mem_singleton]
    tauto
  have few := Finset.card_le_card all
  have four : Finset.card {rd, rt, rn, rm} ≤ 4 := Finset.card_le_four
  rw [show Finset.card ((Finset.range 8).image (BitVec.ofNat 32)) = 8 by decide] at few
  omega

theorem selectTemporaryReg_isSome (insn : Word) (masks : Masks) :
    (selectTemporaryReg insn masks).isSome = true :=
  temporary_left _ _ _ _

/-! ## Fields -/

/-- A field that can be filled in any code of the given size, and leaves it at this size. -/
def Fills (values : Values) (size : Nat) (field : Field × Nat) : Prop :=
  ∀ code : Code, code.length = size →
  ∃ filled, fillField values code field.2 field.1 = some filled ∧ filled.length = size

theorem fillout_of_fills {values : Values} {size : Nat} {fields : List (Field × Nat)}
    (each : ∀ field ∈ fields, Fills values size field) (code : Code) (long : code.length = size) :
    (fields.foldlM (fun code field => fillField values code field.2 field.1) code).isSome = true := by
  induction fields generalizing code with
  | nil => rfl
  | cons field rest ih =>
    obtain ⟨filled, ran, same⟩ := each field List.mem_cons_self code long
    rw [List.foldlM_cons, ran]
    exact ih (fun field member => each field (List.mem_cons_of_mem _ member)) filled same

private theorem insertU32_fits {code : Code} {offset : Nat} (value : Word)
    (fits : offset + 4 ≤ 2 * code.length) :
    ∃ filled, insertU32 code offset value = some filled ∧ filled.length = code.length := by
  simp [insertU32, fits]

/-- A field that holds a value. -/
theorem fill_value {values : Values} {kind : Field} {value : Word}
    (is : fieldValue values kind = some value) (code : Code) (offset : Nat) :
    fillField values code offset kind = insertU32 code offset value := by
  unfold fillField
  split
  all_goals first | cases is | simp [is]

theorem fills_value {values : Values} {kind : Field} {size offset : Nat}
    (known : (fieldValue values kind).isSome = true)
    (fits : offset + 4 ≤ 2 * size) : Fills values size (kind, offset) := by
  rintro code rfl
  obtain ⟨value, is⟩ := Option.isSome_iff_exists.mp known
  rw [fill_value is]
  exact insertU32_fits value fits

/-! ## ARM -/

private theorem bitsCount_arm (insn : Word) (r : Reg) :
    bitsCount ((getInsnMasks insn .arm).of r) = 4 := by
  cases r <;>
  · simp only [getInsnMasks, Masks.of]
    decide

/-- On ARM every field to patch has four bits, whatever the instructions are. -/
private theorem patchedInsn_arm {values : Values} (arm : values.kind = .arm) (dstInsn : Word)
    {kind : Field}
    (patches : kind = .patchCond ∨ (∃ d s, kind = .patch d s) ∨ ∃ d, kind = .patchTemporary d) :
    (patchedInsn values dstInsn .arm kind).isSome = true := by
  rcases patches with rfl | ⟨d, s, rfl⟩ | ⟨d, rfl⟩
  · simp only [patchedInsn, arm, Option.isSome_map]
    exact patchByMask_isSome _ _ rfl
  · simp only [patchedInsn, arm, Option.isSome_map]
    exact patchByMask_isSome _ _ (by rw [bitsCount_arm, bitsCount_arm])
  · obtain ⟨temporary, found⟩ := Option.isSome_iff_exists.mp
      (selectTemporaryReg_isSome values.insn (getInsnMasks dstInsn .arm))
    simp only [patchedInsn, bitsCount_arm, found, Option.bind_some, Option.isSome_map,
      OfNat.ofNat_ne_zero,
      if_false]
    exact patchByMask_isSome _ _ (by rw [bitsCount_arm]; decide)

/-- The fields of the ARM templates. -/
def armField : Field → Bool
  | .insn | .handlerAddress | .origPc | .readPc | .nextPc => true
  | .patchCond | .patch _ _ | .patchTemporary _ => true
  | .bA1Target | .blImmA1Target | .blxImmA2Target => true
  | _ => false

private theorem fills_arm {values : Values} (arm : values.kind = .arm) {kind : Field} {size offset : Nat}
    (listed : armField kind = true) (fits : offset + 4 ≤ 2 * size) :
    Fills values size (kind, offset) := by
  have patched : (kind = .patchCond ∨ (∃ d s, kind = .patch d s) ∨ ∃ d, kind = .patchTemporary d) →
      Fills values size (kind, offset) := by
    rintro patches code rfl
    obtain ⟨⟨insn, mask⟩, ran⟩ :=
      Option.isSome_iff_exists.mp (patchedInsn_arm arm (readU32 code offset) patches)
    have filled : fillField values code offset kind =
        insertU32 code offset (patch mask (readU32 code offset) insn) := by
      rcases patches with rfl | ⟨d, s, rfl⟩ | ⟨d, rfl⟩ <;> simp [fillField, patchInsn,
        templateInsn, arm, ran]
    rw [filled]
    exact insertU32_fits _ fits
  cases kind with
  | insn =>
    rintro code rfl
    simp only [fillField, arm]
    exact insertU32_fits _ fits
  | patchCond => exact patched (.inl rfl)
  | patch d s => exact patched (.inr (.inl ⟨d, s, rfl⟩))
  | patchTemporary d => exact patched (.inr (.inr ⟨d, rfl⟩))
  | handlerAddress | origPc | readPc | nextPc | bA1Target | blImmA1Target | blxImmA2Target =>
    exact fills_value rfl fits
  | _ => cases listed

/-- The templates for ARM instructions. -/
def armTemplate : Template → Bool
  | .armGeneric | .armDpRn | .armDpRm | .armDpRn2 | .armDpRm2 | .armDpRnRm | .armDpRnRm2 => true
  | .armDpRdRn | .armDpRdRm | .armDpRdRnRm | .bA1 | .blImmA1 | .blxImmA2 | .blxRegA1 => true
  | _ => false

/-- The template has the given fields only, and room for them. -/
def roomFor (listed : Field → Bool) (template : TemplateCode) : Bool :=
  template.fields.all fun field => listed field.1 && decide (field.2 + 4 ≤ 2 * template.code.length)

theorem arm_completes {template : Template} (arm : armTemplate template = true)
    (address handler insn : Word) :
    (templateGetHandler template address handler insn .arm).isSome = true := by
  have room : roomFor armField (templateCode template) = true := by
    cases template with
    | armGeneric | armDpRn | armDpRm | armDpRn2 | armDpRm2 | armDpRnRm | armDpRnRm2 => decide
    | armDpRdRn | armDpRdRm | armDpRdRnRm | bA1 | blImmA1 | blxImmA2 | blxRegA1 => decide
    | _ => cases arm
  apply fillout_of_fills _ _ rfl
  intro field member
  have here := List.all_eq_true.mp room field member
  rw [Bool.and_eq_true, decide_eq_true_eq] at here
  exact fills_arm rfl here.1 here.2

/-! ## Thumb -/

/-- A patch whose fields have as many bits in the original as in the template. -/
private theorem patchedInsn_masks {values : Values} {dstInsn : Word} {dstKind : Kind} {d s : Reg}
    (same : bitsCount ((getInsnMasks values.insn values.kind).of s) =
      bitsCount ((getInsnMasks dstInsn dstKind).of d)) :
    ∃ insn, patchedInsn values dstInsn dstKind (.patch d s) =
      some (insn, (getInsnMasks dstInsn dstKind).of d) := by
  obtain ⟨insn, ran⟩ := Option.isSome_iff_exists.mp (patchByMask_isSome values.insn dstInsn same)
  exact ⟨insn, by simp [patchedInsn, ran]⟩

private theorem patchedInsn_cond {values : Values} {dstInsn : Word} {dstKind : Kind}
    (same : bitsCount (getInsnMasks values.insn values.kind).cond =
      bitsCount (getInsnMasks dstInsn dstKind).cond) :
    ∃ insn, patchedInsn values dstInsn dstKind .patchCond =
      some (insn, (getInsnMasks dstInsn dstKind).cond) := by
  obtain ⟨insn, ran⟩ := Option.isSome_iff_exists.mp (patchByMask_isSome values.insn dstInsn same)
  exact ⟨insn, by simp [patchedInsn, ran]⟩

/-- A patch of a 16-bit instruction of the template. -/
theorem patchInsn_thumb {values : Values} (thumb : values.kind ≠ .arm) {code : Code} {offset : Nat}
    {kind : Field}
    {insn mask : Word} (short : (readU16 code offset).toNat < 0xe800)
    (fits : offset + 2 ≤ 2 * code.length)
    (ran : patchedInsn values ((readU16 code offset).setWidth 32) .thumb kind = some (insn, mask)) :
    patchInsn values code offset kind =
      some (code.set (offset / 2)
        (patch (field mask 0 16) (readU16 code offset) (field insn 0 16))) := by
  have narrow : templateInsn code offset values.kind = ((readU16 code offset).setWidth 32, .thumb) := by
    have : ¬0xe800#16 ≤ readU16 code offset := by
      rw [BitVec.le_def]
      exact Nat.not_le.mpr short
    unfold templateInsn
    split
    · contradiction
    · simp [this]
  simp [patchInsn, narrow, ran, insertU16, fits]

/-- A patch of a 32-bit instruction of the template. -/
theorem patchInsn_thumb2 {values : Values} (thumb : values.kind ≠ .arm) {code : Code} {offset : Nat}
    {kind : Field}
    {insn mask : Word} (long : 0xe800 ≤ (readU16 code offset).toNat)
    (ran : patchedInsn values (thumb2SwapHalfwords (readU32 code offset)) .thumb2 kind =
      some (insn, mask)) :
    patchInsn values code offset kind =
      insertU32 code offset (patch (thumb2SwapHalfwords mask) (readU32 code offset)
        (thumb2SwapHalfwords insn)) := by
  have wide : templateInsn code offset values.kind = (thumb2SwapHalfwords (readU32 code offset),
      .thumb2) := by
    have : 0xe800#16 ≤ readU16 code offset := by
      rw [BitVec.le_def]
      exact long
    unfold templateInsn
    split
    · contradiction
    · simp [this]
  simp [patchInsn, wide, ran]

/-- The masks of an instruction with a known opcode other than those of the branches. -/
theorem masks_of_opcode {insn : Word} (opcode : BitVec 5) (here : field insn 11 5 = opcode)
    (branch : wordMatches opcode "1101-" = false ∧ wordMatches opcode "1011-" = false) (sample : Word)
    (there : field sample 11 5 = opcode) : getInsnMasks insn .thumb = getInsnMasks sample .thumb := by
  have notCbz (insn : Word) (here : field insn 11 5 = opcode) :
      wordMatches insn "1011-0-1--------" = false := by
    by_contra cbz
    have op : wordMatches (field insn 11 5) "1011-" = true := by
      rw [wordMatches_field 11 5 (by decide) (by decide) (by decide)]
      exact wordMatches_bits.mp (matches_of_inside (q :=
        "1011------------") (by simpa using cbz) (by decide))
    rw [here, branch.2] at op
    cases op
  simp only [getInsnMasks, here, there, notCbz insn here, notCbz sample there]

theorem masks_of_cbz {insn : Word} (cbz : wordMatches insn "1011-0-1--------" = true) :
    getInsnMasks insn .thumb = ⟨bitMask 11 11, 0, 0, 0, bitMask 0 2⟩ := by
  have opcode : wordMatches (field insn 11 5) "1101-" = false := by
    by_contra b
    rw [Bool.not_eq_false, wordMatches_field 11 5 (by decide) (by decide) (by decide)] at b
    have branch : wordMatches insn "1101------------" = true := wordMatches_bits.mpr b
    rw [not_matches_of_conflict cbz (by decide)] at branch
    cases branch
  simp [getInsnMasks, opcode, cbz]

theorem masks_of_bT1 {insn : Word} (b : wordMatches insn "1101------------" = true) :
    (getInsnMasks insn .thumb).cond = bitMask 8 11 := by
  have opcode : wordMatches (field insn 11 5) "1101-" = true := by
    rw [wordMatches_field 11 5 (by decide) (by decide) (by decide)]
    exact wordMatches_bits.mp b
  simp [getInsnMasks, opcode]

/-- What the patch of an instruction of `size` halfwords leaves behind: code of the same length, in
which no other instruction differs, and the first halfword of this one only in `mask`. -/
structure Patched (code filled : Code) (offset size : Nat) (mask : BitVec 16) : Prop where
  length : filled.length = code.length
  here : ∃ bits, readU16 filled offset = patch mask (readU16 code offset) bits
  others : ∀ other, other / 2 < offset / 2 ∨ offset / 2 + size ≤ other / 2 →
      readU16 filled other = readU16 code other

private theorem readU16_set_self {code : Code} {offset : Nat} (value : BitVec 16)
    (fits : offset / 2 < code.length) :
    readU16 (code.set (offset / 2) value) offset = value := by
  simp [readU16, List.getD_eq_getElem?_getD, fits]

private theorem readU16_set_other {code : Code} {offset place : Nat} (value : BitVec 16)
    (other : offset / 2 ≠ place) :
    readU16 (code.set place value) offset = readU16 code offset := by
  simp [readU16, List.getD_eq_getElem?_getD, List.getElem?_set_ne other.symm]

private theorem patched_set {code : Code} {offset : Nat} {mask bits : BitVec 16}
    (fits : offset + 2 ≤ 2 * code.length) :
    Patched code (code.set (offset / 2) (patch mask (readU16 code offset) bits)) offset 1 mask where
  length := List.length_set
  here := ⟨bits, readU16_set_self _ (by omega)⟩
  others := fun other apart => readU16_set_other _ (by omega)

private theorem patched_set_wide {code : Code} {offset : Nat} {mask bits : Word}
    (fits : offset + 4 ≤ 2 * code.length) :
    Patched code
      ((code.set (offset / 2) (field (patch mask (readU32 code offset) bits) 0 16)).set (offset / 2 + 1)
        (field (patch mask (readU32 code offset) bits) 16 16))
      offset 2 (field mask 0 16) where
  length := by simp
  here := by
    have low : field (patch mask (readU32 code offset) bits) 0 16 =
        patch (field mask 0 16) (readU16 code offset) (field bits 0 16) := by
      ext i h
      simp [field, patch, readU32]
      grind
    refine ⟨field bits 0 16, ?_⟩
    rw [readU16_set_other _ (by omega), readU16_set_self _ (by omega), low]
  others := by
    intro other apart
    rw [readU16_set_other _ (by omega), readU16_set_other _ (by omega)]

/-- A register patch of a 16-bit instruction of the template. -/
private theorem fill_patch (values : Values) (code : Code) (offset : Nat) (d s : Reg)
    (thumb : values.kind ≠ .arm)
    (short : (readU16 code offset).toNat < 0xe800) (fits : offset + 2 ≤ 2 * code.length)
    (same : bitsCount ((getInsnMasks values.insn values.kind).of s) =
      bitsCount ((getInsnMasks ((readU16 code offset).setWidth 32) .thumb).of d)) :
    ∃ filled, fillField values code offset (.patch d s) = some filled ∧
      Patched code filled offset 1
        (field ((getInsnMasks ((readU16 code offset).setWidth 32) .thumb).of d) 0 16) := by
  obtain ⟨insn, ran⟩ := patchedInsn_masks same
  exact ⟨_, patchInsn_thumb thumb short fits ran, patched_set fits⟩

/-- A patch of the condition of a 16-bit instruction of the template. -/
private theorem fill_cond (values : Values) (code : Code) (offset : Nat) (thumb : values.kind ≠ .arm)
    (short : (readU16 code offset).toNat < 0xe800) (fits : offset + 2 ≤ 2 * code.length)
    (same : bitsCount (getInsnMasks values.insn values.kind).cond =
      bitsCount (getInsnMasks ((readU16 code offset).setWidth 32) .thumb).cond) :
    ∃ filled, fillField values code offset .patchCond = some filled ∧
      Patched code filled offset 1
        (field (getInsnMasks ((readU16 code offset).setWidth 32) .thumb).cond 0 16) := by
  obtain ⟨insn, ran⟩ := patchedInsn_cond same
  exact ⟨_, patchInsn_thumb thumb short fits ran, patched_set fits⟩

private theorem bitsCount_thumb2 (insn : Word) (r : Reg) :
    bitsCount ((getInsnMasks insn .thumb2).of r) = 4 := by
  cases r <;>
  · simp only [getInsnMasks, Masks.of]
    decide

/-- A register patch of a 32-bit instruction of the template, by a 32-bit instruction. -/
private theorem fill_patch_wide (values : Values) (code : Code) (offset : Nat) (d s : Reg)
    (thumb : values.kind = .thumb2)
    (long : 0xe800 ≤ (readU16 code offset).toNat) (fits : offset + 4 ≤ 2 * code.length) :
    ∃ filled, fillField values code offset (.patch d s) = some filled ∧
      Patched code filled offset 2
        (field (thumb2SwapHalfwords ((getInsnMasks 0 .thumb2).of d)) 0 16) := by
  have same : bitsCount ((getInsnMasks values.insn values.kind).of s) =
      bitsCount ((getInsnMasks (thumb2SwapHalfwords (readU32 code offset)) .thumb2).of d) := by
    rw [thumb, bitsCount_thumb2, bitsCount_thumb2]
  obtain ⟨insn, ran⟩ := patchedInsn_masks same
  have filled := patchInsn_thumb2 (by simp [thumb]) long ran
  rw [show (getInsnMasks (thumb2SwapHalfwords (readU32 code offset)) .thumb2).of d =
    (getInsnMasks 0 .thumb2).of d by
    cases d <;> rfl] at filled
  rw [insertU32, if_pos fits] at filled
  exact ⟨_, filled, patched_set_wide fits⟩

variable {values : Values}

/-- The next field of a template. -/
theorem fillout_next {fields : List (Field × Nat)} {code filled : Code} {kind : Field} {offset : Nat}
    (ran : fillField values code offset kind = some filled) :
    ((kind, offset) :: fields).foldlM (fun code field => fillField values code field.2 field.1) code =
      fields.foldlM (fun code field => fillField values code field.2 field.1) filled := by
  rw [List.foldlM_cons, ran]
  rfl

private theorem fillout_step {fields : List (Field × Nat)} {code filled : Code} {kind : Field}
    {offset : Nat}
    (ran : fillField values code offset kind = some filled)
    (rest : (fields.foldlM (fun code field => fillField values code field.2 field.1)
      filled).isSome = true) :
    (((kind, offset) :: fields).foldlM (fun code field => fillField values code field.2 field.1)
      code).isSome = true := by
  rwa [fillout_next ran]

/-- The rest of a template, after its patches. -/
private theorem fillout_rest {fields : List (Field × Nat)} {code : Code} (size : Nat)
    (long : code.length = size)
    (each : ∀ field ∈ fields, (fieldValue values field.1).isSome = true ∧ field.2 + 4 ≤ 2 * size) :
    (fields.foldlM (fun code field => fillField values code field.2 field.1) code).isSome = true :=
  fillout_of_fills (fun field member => fills_value (each field member).1 (each field member).2)
    code long

theorem adrT1_completes (thumb : values.kind = .thumb)
    (adr : wordMatches values.insn "10100-----------" = true) :
    (templateFillout .adrT1 values).isSome = true := by
  have source := masks_of_opcode 0b10100#5 (field_of_matches adr 11 5 (by decide)) (by decide)
    0xa000#32 rfl
  have three : bitsCount ((getInsnMasks values.insn values.kind).of .rd) = 3 := by
    rw [thumb, source]
    decide
  obtain ⟨filled, ran, patched⟩ :=
    fill_patch values (templateCode .adrT1).code 0 .rd .rd (by simp [thumb]) (by decide)
      (by decide) three
  apply fillout_step ran
  apply fillout_rest _ patched.length
  simp [fieldValue, adr, templateCode, thumbCode, bad]

theorem bT1_completes (thumb : values.kind = .thumb)
    (b : wordMatches values.insn "1101------------" = true)
    (conditional : wordMatches values.insn "1101111---------" = false) :
    (templateFillout .bT1 values).isSome = true := by
  have four : bitsCount (getInsnMasks values.insn values.kind).cond = 4 := by
    rw [thumb, masks_of_bT1 b]
    decide
  obtain ⟨filled, ran, patched⟩ :=
    fill_cond values (templateCode .bT1).code 0 (by simp [thumb]) (by decide) (by decide) four
  apply fillout_step ran
  apply fillout_rest _ patched.length
  simp [fieldValue, b, conditional, templateCode, thumbCode, bad]

theorem field_setWidth (w : BitVec 16) (low length : Nat) (inside : low + length ≤ 16) :
    field (w.setWidth 32) low length = field w low length := by
  ext i h
  simp [field]
  omega

/-- A halfword whose highest bits are known. -/
theorem toNat_high {w : BitVec 16} {k : Nat} {v : BitVec k} (low : Nat) (whole : low + k = 16)
    (high : field w low k = v) : w.toNat / 2 ^ low = v.toNat := by
  have small : w.toNat / 2 ^ low < 2 ^ k := by
    rw [Nat.div_lt_iff_lt_mul (Nat.two_pow_pos low), ← Nat.pow_add, Nat.add_comm, whole]
    exact w.isLt
  rw [← high]
  simp only [field, BitVec.extractLsb'_toNat, Nat.shiftRight_eq_div_pow, Nat.mod_eq_of_lt small]

theorem wordMatches_setWidth (w : BitVec 16) (p : Pattern) (mask : p.mask < 2 ^ 16)
    (value : p.value < 2 ^ 16) :
    wordMatches (w.setWidth 32) p = wordMatches w p := by
  have same : field (w.setWidth 32) 0 16 = w := by
    rw [field_setWidth w 0 16 (by decide)]
    simp [field]
  have whole := wordMatches_field (w := w.setWidth 32) 0 16 (by decide) mask value
  rw [same] at whole
  rw [Bool.eq_iff_iff, whole, wordMatches_bits]
  simp only [Bits.shift, Nat.shiftLeft_zero, Pattern.bits]

theorem ldrLitT1_completes (thumb : values.kind = .thumb)
    (ldr : wordMatches values.insn "01001-----------" = true) :
    (templateFillout .ldrLitT1 values).isSome = true := by
  have source := masks_of_opcode 0b01001#5 (field_of_matches ldr 11 5 (by decide)) (by decide)
    0x4800#32 rfl
  have three : bitsCount ((getInsnMasks values.insn values.kind).of .rt) = 3 := by
    rw [thumb, source]
    decide
  have narrow : values.kind ≠ .arm := by simp [thumb]
  obtain ⟨code1, ran1, patched1⟩ :=
    fill_patch values (templateCode .ldrLitT1).code 0 .rt .rt narrow (by decide) (by decide) three
  apply fillout_step ran1
  have load : readU16 code1 2 = 0x6808#16 := patched1.others 2 (by decide)
  have long1 : code1.length = 13 := patched1.length
  obtain ⟨code2, ran2, patched2⟩ :=
    fill_patch values code1 2 .rn .rt narrow (by rw [load]; decide) (by omega)
    (by rw [load, three]; decide)
  apply fillout_step ran2
  -- the base register is patched in before the target register, below the opcode
  have opcode : field (readU16 code2 2) 11 5 = 0b01101#5 := by
    obtain ⟨bits, here⟩ := patched2.here
    rw [here, load, field_patch_outside 11 5 (by decide) (by decide)]
    decide
  have masks := masks_of_opcode 0b01101#5 (by rw [field_setWidth _ 11 5 (by decide), opcode])
    (by decide) 0x6800#32 rfl
  have short : (readU16 code2 2).toNat < 0xe800 := by
    have : (readU16 code2 2).toNat / 2048 = 13 := toNat_high 11 rfl opcode
    omega
  obtain ⟨code3, ran3, patched3⟩ :=
    fill_patch values code2 2 .rt .rt narrow short (by rw [patched2.length]; omega)
    (by rw [masks, three]; decide)
  apply fillout_step ran3
  apply fillout_rest 13 (by rw [patched3.length, patched2.length, long1])
  simp [fieldValue, ldr]

theorem cbzT1_completes (thumb : values.kind = .thumb)
    (cbz : wordMatches values.insn "1011-0-1--------" = true) :
    (templateFillout .cbzT1 values).isSome = true := by
  have source := masks_of_cbz cbz
  have narrow : values.kind ≠ .arm := by simp [thumb]
  obtain ⟨code1, ran1, patched1⟩ :=
    fill_cond values (templateCode .cbzT1).code 0 narrow (by decide) (by decide)
    (by rw [thumb, source]; decide)
  apply fillout_step ran1
  have long1 : code1.length = 13 := patched1.length
  obtain ⟨bits, here⟩ := patched1.here
  have still : wordMatches (readU16 code1 0) "1011-0-1--------" = true := by
    rw [here, matches_patch (by decide)]
    decide
  have masks := masks_of_cbz ((wordMatches_setWidth _ "1011-0-1--------" (by decide)
    (by decide)).trans still)
  have short : (readU16 code1 0).toNat < 0xe800 := by
    have : (readU16 code1 0).toNat / 4096 = 11 :=
      toNat_high 12 rfl (field_of_matches still 12 4 (by decide))
    omega
  obtain ⟨code2, ran2, patched2⟩ :=
    fill_patch values code1 0 .rn .rn narrow short (by omega) (by rw [thumb, source, masks])
  apply fillout_step ran2
  apply fillout_rest 13 (by rw [patched2.length, long1])
  simp [fieldValue, cbz]

/-! ## Thumb, 32 bits -/

theorem adrT2_completes (thumb : values.kind = .thumb2)
    (adr : wordMatches values.insn "11110-10101011110---------------" = true) :
    (templateFillout .adrT2 values).isSome = true := by
  obtain ⟨filled, ran, patched⟩ :=
    fill_patch_wide values (templateCode .adrT2).code 0 .rt .rd thumb (by decide) (by decide)
  apply fillout_step ran
  apply fillout_rest 13 patched.length
  simp [fieldValue, adr]

theorem adrT3_completes (thumb : values.kind = .thumb2)
    (adr : wordMatches values.insn "11110-10000011110---------------" = true) :
    (templateFillout .adrT3 values).isSome = true := by
  obtain ⟨filled, ran, patched⟩ :=
    fill_patch_wide values (templateCode .adrT3).code 0 .rt .rd thumb (by decide) (by decide)
  apply fillout_step ran
  apply fillout_rest 13 patched.length
  simp [fieldValue, adr]

theorem ldrLitT2_completes (thumb : values.kind = .thumb2)
    (ldr : wordMatches values.insn "11111000-1011111----------------" = true) :
    (templateFillout .ldrLitT2 values).isSome = true := by
  obtain ⟨code1, ran1, patched1⟩ :=
    fill_patch_wide values (templateCode .ldrLitT2).code 0 .rt .rt thumb (by decide) (by decide)
  apply fillout_step ran1
  have load : readU16 code1 4 = 0xf8d1#16 := patched1.others 4 (by decide)
  have long1 : code1.length = 15 := patched1.length
  obtain ⟨code2, ran2, patched2⟩ :=
    fill_patch_wide values code1 4 .rn .rt thumb (by rw [load]; decide) (by omega)
  apply fillout_step ran2
  have long2 : code2.length = 15 := patched2.length.trans long1
  -- the base register stands below the opcode
  have opcode : field (readU16 code2 4) 11 5 = 0b11111#5 := by
    obtain ⟨bits, here⟩ := patched2.here
    rw [here, load, field_patch_outside 11 5 (by decide) (by decide)]
    decide
  have wide : 0xe800 ≤ (readU16 code2 4).toNat := by
    have : (readU16 code2 4).toNat / 2048 = 31 := toNat_high 11 rfl opcode
    omega
  obtain ⟨code3, ran3, patched3⟩ := fill_patch_wide values code2 4 .rt .rt thumb wide (by omega)
  apply fillout_step ran3
  apply fillout_rest 15 (patched3.length.trans long2)
  simp [fieldValue, ldr]

theorem bT3_completes (thumb : values.kind = .thumb2)
    (b : wordMatches values.insn "11110-----------10-0------------" = true) :
    (templateFillout .bT3 values).isSome = true := by
  have same : bitsCount (getInsnMasks values.insn values.kind).cond =
      bitsCount (getInsnMasks (thumb2SwapHalfwords (readU32 (templateCode .bT3).code 0))
        .thumb2).cond := by
    rw [thumb]
    simp only [getInsnMasks, b, ↓reduceIte]
    decide
  obtain ⟨insn, ran⟩ := patchedInsn_cond same
  obtain ⟨filled, wrote, long⟩ := insertU32_fits
    (patch (thumb2SwapHalfwords (getInsnMasks
      (thumb2SwapHalfwords (readU32 (templateCode .bT3).code 0)) .thumb2).cond)
      (readU32 (templateCode .bT3).code 0) (thumb2SwapHalfwords insn))
    (by decide : 0 + 4 ≤ 2 * (templateCode .bT3).code.length)
  have field : fillField values (templateCode .bT3).code 0 .patchCond = some filled :=
    (patchInsn_thumb2 (by simp [thumb]) (by decide) ran).trans wrote
  apply fillout_step field
  apply fillout_rest _ long
  simp [fieldValue, b, templateCode, thumbCode, bad]

/-- The template only holds values and perhaps the instruction itself. -/
theorem values_complete {template : Template}
    (each : ∀ field ∈ (templateCode template).fields, (fieldValue values field.1).isSome = true ∧
      field.2 + 4 ≤ 2 * (templateCode template).code.length) :
      (templateFillout template values).isSome = true :=
  fillout_rest _ rfl each

theorem thumbGeneric_completes (thumb : values.kind = .thumb) (narrow : values.insn >>> 16 = 0) :
    (templateFillout .thumbGeneric values).isSome = true := by
  have filled : fillField values (templateCode .thumbGeneric).code 0 .insn =
      some ((templateCode .thumbGeneric).code.set 0 (field values.insn 0 16)) := by
    simp [fillField, thumb, narrow, insertU16, templateCode, thumbCode, bad]
  apply fillout_step filled
  apply fillout_rest 9 (by simp [templateCode, thumbCode, bad])
  simp [fieldValue]

theorem thumb2Generic_completes (thumb : values.kind = .thumb2) :
    (templateFillout .thumb2Generic values).isSome = true := by
  obtain ⟨filled, ran, long⟩ := insertU32_fits (thumb2SwapHalfwords values.insn)
    (by decide : 0 + 4 ≤ 2 * (templateCode .thumb2Generic).code.length)
  have field : fillField values (templateCode .thumb2Generic).code 0 .insn = some filled := by
    simp [fillField, thumb, ran]
  apply fillout_step field
  apply fillout_rest _ long
  simp [fieldValue, templateCode, thumbCode, bad]

/-! ## Masks of one field -/

/-- The mask has the `k` bits from `low` on. -/
def FieldMask (mask : Word) (low k : Nat) : Prop :=
  ∀ i < 32, mask.getLsbD i = decide (low ≤ i ∧ i < low + k)

instance (mask : Word) (low k : Nat) : Decidable (FieldMask mask low k) :=
  inferInstanceAs (Decidable (∀ i < 32, _))

section FieldMask

variable {mask val : Word} {low k : Nat}

private theorem FieldMask.bit (isField : FieldMask mask low k) (inside : low + k ≤ 32) (i : Nat) :
    mask.getLsbD i = decide (low ≤ i ∧ i < low + k) := by
  by_cases small : i < 32
  · exact isField i small
  · rw [BitVec.getLsbD_of_ge mask i (by omega)]
    simp
    omega

/-- In a field the ranks are counted from its lowest bit. -/
private theorem FieldMask.rank (isField : FieldMask mask low k) (inside : low + k ≤ 32) {j : Nat}
    (within : j ≤ k) :
    Lib.rank mask (low + j) = j := by
  have bits := isField.bit inside
  have none : Lib.rank mask (0 + low) = Lib.rank mask 0 := rank_of_clear low fun i _ high => by
    rw [bits]
    simp
    omega
  have all : Lib.rank mask (low + j) = Lib.rank mask low + j := rank_of_set j fun i from_low high => by
    rw [bits]
    simp
    omega
  rw [Nat.zero_add] at none
  rw [all, none, rank_zero, Nat.zero_add]

private theorem FieldMask.rank_whole (isField : FieldMask mask low k) (inside : low + k ≤ 32) :
    Lib.rank mask 32 = k := by
  have rest : Lib.rank mask (low + k + (32 - (low + k))) = Lib.rank mask (low + k) :=
    rank_of_clear (32 - (low + k)) fun i from_high _ => by
      rw [isField.bit inside]
      simp
      omega
  rw [Nat.add_sub_cancel' inside] at rest
  rw [rest, isField.rank inside (Nat.le_refl k)]

/-- The bits of one field are taken as its number. -/
theorem getBitsByMask_field (isField : FieldMask mask low k) (inside : low + k ≤ 32) :
    getBitsByMask val mask = (field val low k).setWidth 32 := by
  have clean : BitOpsProofs.Clean 0 mask := .inl (by simp)
  obtain ⟨taken, above⟩ := BitOpsProofs.gathered clean val
  rw [BitOpsProofs.get_bits_by_mask_arm]
  apply BitVec.eq_of_getLsbD_eq
  intro b word
  by_cases low_bit : b < k
  · have set : mask.getLsbD (low + b) = true := by
      rw [isField.bit inside]
      simp
      omega
    have bit := taken (low + b) set
    rw [isField.rank inside (by omega)] at bit
    rw [bit]
    simp [field, low_bit, word]
  · rw [above b (by rw [isField.rank_whole inside]; omega)]
    simp [field, low_bit]

/-- A number that fits is put into one field. -/
theorem setBitsByMask_field (isField : FieldMask mask low k) (inside : low + k ≤ 32) (x : BitVec k) :
    setBitsByMask (x.setWidth 32) mask = some (x.setWidth 32 <<< low) := by
  have fits : (x.setWidth 32).toNat < 2 ^ Lib.rank mask 32 := by
    rw [isField.rank_whole inside, BitVec.toNat_setWidth]
    exact Nat.lt_of_le_of_lt (Nat.mod_le _ _) x.isLt
  obtain ⟨s, ran, bits⟩ := BitOpsProofs.scattered fits
  rw [ran, Option.some.injEq]
  apply BitVec.eq_of_getLsbD_eq
  intro i word
  rw [bits, isField.bit inside]
  by_cases within : low ≤ i ∧ i < low + k
  · obtain ⟨j, rfl⟩ : ∃ j, i = low + j := ⟨i - low, by omega⟩
    have small : j < 32 := by omega
    rw [isField.rank inside (by omega)]
    simp [within, word, small]
  · rw [decide_eq_false within, Bool.false_and, BitVec.getLsbD_shiftLeft]
    by_cases below : i < low
    · simp [below]
    · have outside : k ≤ i - low := by omega
      simp [below, BitVec.getLsbD_of_ge x (i - low) outside]

variable {mask' : Word} {low' : Nat}

/-- `patch_by_mask` copies a field. -/
theorem patchByMask_field (src dst : Word) (isField : FieldMask mask low k) (inside : low + k ≤ 32)
    (isField' : FieldMask mask' low' k)
    (inside' : low' + k ≤ 32) (same : bitsCount mask = bitsCount mask') :
    patchByMask src dst mask mask' =
      some ((dst &&& ~~~mask') ||| ((field src low k).setWidth 32 <<< low')) := by
  rw [patchByMask, if_pos same, getBitsByMask_field isField inside, setBitsByMask_field isField' inside']
  rfl

end FieldMask
end Adbi.ArmPatchProofs
