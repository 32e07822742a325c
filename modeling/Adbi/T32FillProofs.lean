import Adbi.ArmFillProofs

/-! What is in the templates of `arch/arm` for branches and literals of 32-bit Thumb
after they have been filled out. -/
namespace Adbi.T32FillProofs
open Adbi.Lib Adbi.TemplateSelect Adbi.ArmTemplate Adbi.ArmPatchProofs Adbi.ArmFillProofs
open Adbi.ArmTargetProofs (architecturalValue encodes fieldValue_iff_decoded)

/-- The two halfwords of an instruction, the high one first. -/
def wide (w : Word) : Code := [field w 16 16, field w 0 16]

private theorem swap_patch (mask dst x : Word) :
    patch (thumb2SwapHalfwords mask) (thumb2SwapHalfwords dst) (thumb2SwapHalfwords x) =
      thumb2SwapHalfwords (patch mask dst x) := by
  ext i h
  simp [patch, thumb2SwapHalfwords, field]
  grind

private theorem swap_halves (w : Word) :
    field (thumb2SwapHalfwords w) 0 16 = field w 16 16 ∧ field (thumb2SwapHalfwords w) 16 16 =
      field w 0 16 := by
  constructor
  · ext i h
    simp [thumb2SwapHalfwords, field]
    grind
  · ext i h
    simp [thumb2SwapHalfwords, field]
    grind

/-- A field of the instruction is copied into an instruction of two halfwords of the template. -/
private theorem fill_wide (values : Values) (kind : Field) (code : Code) (offset : Nat)
    (d mask mask' : Word) (low k low' : Nat)
    (thumb2 : values.kind = .thumb2) (high : readU16 code offset = field d 16 16)
    (rest : readU16 code (offset + 2) = field d 0 16)
    (long : 0xe800 ≤ (field d 16 16).toNat) (fits : offset + 4 ≤ 2 * code.length)
    (patches : fillField values code offset kind = patchInsn values code offset kind)
    (copies : patchedInsn values d .thumb2 kind =
      (patchByMask values.insn d mask mask').map fun insn => (insn, mask'))
    (isField : FieldMask mask low k) (isField' : FieldMask mask' low' k)
    (same : bitsCount mask = bitsCount mask')
    (inside : low + k ≤ 32 ∧ low' + k ≤ 32) :
    fillField values code offset kind =
      some ((code.set (offset / 2) (field (patch mask' d (moved 32 values.insn low k low')) 16
        16)).set (offset / 2 + 1)
        (field (patch mask' d (moved 32 values.insn low k low')) 0 16)) := by
  have stands : readU32 code offset = thumb2SwapHalfwords d :=
    by rw [readU32, high, rest, thumb2SwapHalfwords]
  have back : thumb2SwapHalfwords (thumb2SwapHalfwords d) = d := by
    obtain ⟨lower, higher⟩ := swap_halves d
    rw [thumb2SwapHalfwords, lower, higher, halves]
  have copied := patchByMask_field values.insn d isField inside.1 isField' inside.2 same
  rw [copied, Option.map_some, ← back, ← stands] at copies
  rw [patches, patchInsn_thumb2 (by simp [thumb2]) (by rwa [high]) copies, stands, back, swap_patch,
    patch_or, insertU32, if_pos fits,
    (swap_halves _).1, (swap_halves _).2]
  rfl

variable (pc handler w : Word)

/-- The values for a Thumb instruction of two halfwords. -/
abbrev wideValues : Values := ⟨handler, pc, pc + 4#32, w, .thumb2⟩

/-! ## Literals -/

/-- A load of the register that the instruction names in `low` and the next three bits. -/
def loadingWide (low : Nat) (load : Word) : Word := patch 0x0000f000#32 load (moved 32 w low 4 12)

private theorem fill_register (code : Code) (low : Nat) (s : Reg) (d : Word)
    (source : FieldMask ((getInsnMasks w .thumb2).of s) low 4)
    (count : bitsCount ((getInsnMasks w .thumb2).of s) = 4)
    (inside : low + 4 ≤ 32) (offset : Nat) (high : readU16 code offset = field d 16 16)
    (rest : readU16 code (offset + 2) = field d 0 16) (long : 0xe800 ≤ (field d 16 16).toNat)
    (fits : offset + 4 ≤ 2 * code.length) :
    fillField (wideValues pc handler w) code offset (.patch .rt s) =
      some ((code.set (offset / 2) (field (loadingWide w low d) 16 16)).set (offset / 2 + 1)
        (field (loadingWide w low d) 0 16)) :=
  fill_wide (wideValues pc handler w) (.patch .rt s) code offset d _ 0x0000f000#32 low 4 12 rfl high
    rest long fits rfl rfl source (by decide)
    (count.trans (by decide)) ⟨inside, by decide⟩

theorem filled_adrT2 (adr : wordMatches w "11110-10101011110---------------" = true) :
    templateGetHandler .adrT2 pc handler w .thumb2 =
      some (wide (loadingWide w 8 0xf8df0008#32) ++ [0xf8df#16, 0xf008#16, 0xdede#16] ++
        armCode [architecturalValue pc w .adrT2Val, (pc + 4#32) ||| 1#32, handler, pc ||| 1#32] 0) := by
  have value := (fieldValue_iff_decoded (wideValues pc handler w) .adrT2Val adr).mpr trivial
  have register := fill_register pc handler w (templateCode .adrT2).code 8 .rd 0xf8df0008#32
    (show FieldMask 0x00000f00#32 8 4 by decide)
    (show bitsCount 0x00000f00#32 = 4 by decide) (by decide) 0 rfl rfl (by decide) (by decide)
  rw [templateGetHandler, templateFillout]
  refine (fillout_next register).trans ?_
  refine (fillout_next (fill_value value _ _)).trans ?_
  rfl

theorem filled_adrT3 (adr : wordMatches w "11110-10000011110---------------" = true) :
    templateGetHandler .adrT3 pc handler w .thumb2 =
      some (wide (loadingWide w 8 0xf8df0008#32) ++ [0xf8df#16, 0xf008#16, 0xdede#16] ++
        armCode [architecturalValue pc w .adrT3Val, (pc + 4#32) ||| 1#32, handler, pc ||| 1#32] 0) := by
  have value := (fieldValue_iff_decoded (wideValues pc handler w) .adrT3Val adr).mpr trivial
  have register := fill_register pc handler w (templateCode .adrT3).code 8 .rd 0xf8df0008#32
    (show FieldMask 0x00000f00#32 8 4 by decide)
    (show bitsCount 0x00000f00#32 = 4 by decide) (by decide) 0 rfl rfl (by decide) (by decide)
  rw [templateGetHandler, templateFillout]
  refine (fillout_next register).trans ?_
  refine (fillout_next (fill_value value _ _)).trans ?_
  rfl

/-- The load through the register that the instruction loads, at first into another register. -/
def loadWideBase : Word := patch 0x000f0000#32 0xf8d10000#32 (moved 32 w 12 4 16)

/-- It is one of two halfwords. -/
theorem loadWideBase_long : 0xe800 ≤ (field (loadWideBase w) 16 16).toNat := by
  have still : field (loadWideBase w) 20 12 = 0xf8d#12 := by
    rw [loadWideBase, field_patch_outside 20 12 (by decide) (by decide)]
    decide
  have part : field (field (loadWideBase w) 16 16) 4 12 = 0xf8d#12 := by
    rw [← still]
    ext i h
    simp [field, ← Nat.add_assoc]
    grind
  have := toNat_high 4 rfl part
  simp only [BitVec.toNat_ofNat] at this
  omega

theorem filled_ldrLitT2 (ldr : wordMatches w "11111000-1011111----------------" = true) :
    templateGetHandler .ldrLitT2 pc handler w .thumb2 =
      some (wide (loadingWide w 12 0xf8df000c#32) ++ wide (loadingWide w 12 (loadWideBase w)) ++
        [0xf8df#16, 0xf008#16, 0xdede#16] ++
        armCode [architecturalValue pc w .ldrLitT2Address, (pc + 4#32) ||| 1#32, handler,
          pc ||| 1#32] 0) := by
  have value := (fieldValue_iff_decoded (wideValues pc handler w) .ldrLitT2Address ldr).mpr trivial
  have source : FieldMask 0x0000f000#32 12 4 := by decide
  have count : bitsCount 0x0000f000#32 = 4 := by decide
  have first := fill_register pc handler w (templateCode .ldrLitT2).code 12 .rt 0xf8df000c#32 source
    count (by decide) 0 rfl rfl (by decide)
    (by decide)
  have base := fill_wide (wideValues pc handler w) (.patch .rn .rt)
    (((templateCode .ldrLitT2).code.set 0 (field (loadingWide w 12 0xf8df000c#32) 16 16)).set 1
      (field (loadingWide w 12 0xf8df000c#32) 0 16))
    4 0xf8d10000#32 0x0000f000#32 0x000f0000#32 12 4 16 rfl rfl rfl (by decide)
      (by simp [templateCode, thumbCode, bad]) rfl rfl source
    (by decide) (by decide) (by decide)
  have transferred := fill_register pc handler w
    (((((templateCode .ldrLitT2).code.set 0 (field (loadingWide w 12 0xf8df000c#32) 16 16)).set 1
      (field (loadingWide w 12 0xf8df000c#32) 0 16)).set 2 (field (loadWideBase w) 16 16)).set 3
        (field (loadWideBase w) 0 16))
    12 .rt (loadWideBase w) source count (by decide) 4 rfl rfl (loadWideBase_long w)
      (by simp [templateCode, thumbCode, bad])
  rw [templateGetHandler, templateFillout]
  refine (fillout_next first).trans ?_
  refine (fillout_next base).trans ?_
  refine (fillout_next transferred).trans ?_
  refine (fillout_next (fill_value value _ _)).trans ?_
  rfl

/-! ## Branches -/

section Branches

variable {w} {target : Word}

/-- The conditional branch over the first jump. -/
def branchOverWide (w : Word) : Word := patch 0x03c00000#32 0xf0008002#32 (moved 32 w 22 4 22)

theorem filled_bT3 (b : wordMatches w "11110-----------10-0------------" = true)
    (decoded : fieldValue (wideValues pc handler w) .bT3Target = some target) :
    templateGetHandler .bT3 pc handler w .thumb2 =
      some (wide (branchOverWide w) ++ [0xf8df#16, 0xf008#16, 0xf8df#16, 0xf008#16, 0xdede#16] ++
        armCode [(pc + 4#32) ||| 1#32, target, handler, pc ||| 1#32] 0) := by
  have masks (insn : Word) (b : wordMatches insn "11110-----------10-0------------" = true) :
      (getInsnMasks insn .thumb2).cond = 0x03c00000#32 := if_pos b
  have copies : patchedInsn (wideValues pc handler w) 0xf0008002#32 .thumb2 .patchCond =
      (patchByMask w 0xf0008002#32 0x03c00000#32 0x03c00000#32).map fun insn =>
      (insn, 0x03c00000#32) := by
    simp only [patchedInsn, masks w b, masks 0xf0008002#32 (by decide)]
  have isField : FieldMask 0x03c00000#32 22 4 := by decide
  have cond := fill_wide (wideValues pc handler w) .patchCond (templateCode .bT3).code 0
    0xf0008002#32 _ _ 22 4 22 rfl rfl rfl (by decide)
    (by decide) rfl copies isField isField rfl (by decide)
  rw [templateGetHandler, templateFillout]
  refine (fillout_next cond).trans ?_
  refine (fillout_next (fill_value rfl _ _)).trans ?_
  refine (fillout_next (fill_value decoded _ _)).trans ?_
  rfl

theorem filled_bT4 (decoded : fieldValue (wideValues pc handler w) .bT4Target = some target) :
    templateGetHandler .bT4 pc handler w .thumb2 =
      some ([0xf8df#16, 0xf004#16, 0xdede#16] ++ armCode [target, handler, pc ||| 1#32] 0) := by
  rw [templateGetHandler, templateFillout]
  refine (fillout_next (fill_value decoded _ _)).trans ?_
  rfl

theorem filled_blT1 (decoded : fieldValue (wideValues pc handler w) .blT1Target = some target) :
    templateGetHandler .blT1 pc handler w .thumb2 =
      some ([0xf8df#16, 0xe00c#16, 0xf8df#16, 0xf004#16, 0xdede#16] ++ armCode [target,
        (pc + 4#32) ||| 1#32, handler, pc ||| 1#32] 0) := by
  rw [templateGetHandler, templateFillout]
  refine (fillout_next (fill_value decoded _ _)).trans ?_
  rfl

theorem filled_blxT2 (decoded : fieldValue (wideValues pc handler w) .blxT2Target = some target) :
    templateGetHandler .blxT2 pc handler w .thumb2 =
      some ([0xf8df#16, 0xe00c#16, 0xf8df#16, 0xf004#16, 0xdede#16] ++ armCode [target,
        (pc + 4#32) ||| 1#32, handler, pc ||| 1#32] 0) := by
  rw [templateGetHandler, templateFillout]
  refine (fillout_next (fill_value decoded _ _)).trans ?_
  rfl

end Branches

end Adbi.T32FillProofs
