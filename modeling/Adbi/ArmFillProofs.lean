import Adbi.ArmPatchProofs
import Adbi.ArmTargetProofs
import Adbi.CompletionProofs

/-! What is in the templates of `arch/arm` for branches of ARM and for branches and
literals of 16-bit Thumb after they have been filled out. -/
namespace Adbi.ArmFillProofs
open Adbi.Lib Adbi.TemplateSelect Adbi.ArmTemplate Adbi.ArmPatchProofs
open Adbi.ArmTargetProofs (architecturalValue encodes fieldValue_iff_decoded)

/-- Only the bits of the mask are taken. -/
theorem patch_or {n : Nat} (mask dst x : BitVec n) :
    patch mask dst ((dst &&& ~~~mask) ||| x) = patch mask dst x := by
  ext i h
  simp [patch]
  grind

/-- A field of an instruction, further up or down in a word of zeros. -/
def moved (n : Nat) (insn : Word) (low k low' : Nat) : BitVec n := (field insn low k).setWidth n <<< low'

theorem field_moved {n : Nat} (insn : Word) (low k low' : Nat) (inside : low' + k ≤ n) :
    field (moved n insn low k low') low' k = field insn low k := field_shifted _ _ inside

/-! ## ARM -/

section ARM

/-- A load or a store whose condition is the one of the instruction. -/
def conditionally (insn access : Word) : Word := patch 0xf0000000#32 access (moved 32 insn 28 4 28)

@[simp] private theorem armCode_cons (w : Word) (words : List Word) :
    armCode (w :: words) 0 = field w 0 16 :: field w 16 16 :: armCode words 0 := rfl

private theorem armCode_length (words : List Word) : (armCode words 0).length = 2 * words.length := by
  induction words with
  | nil => rfl
  | cons w words ih => simp [ih, Nat.mul_add]

/-- A word of the code, which has its low half first. -/
theorem armCode_get {words : List Word} {k : Nat} {w : Word} (there : words[k]? = some w) :
    (armCode words 0)[2 * k]? = some (field w 0 16) ∧ (armCode words 0)[2 * k + 1]? =
      some (field w 16 16) := by
  induction words generalizing k with
  | nil => cases there
  | cons first words ih =>
    cases k with
    | zero =>
      obtain rfl : first = w := Option.some.inj there
      exact ⟨rfl, rfl⟩
    | succ k => exact ih there

private theorem armCode_set (words : List Word) (k : Nat) (w : Word) :
    ((armCode words 0).set (2 * k) (field w 0 16)).set (2 * k + 1) (field w 16 16) =
      armCode (words.set k w) 0 := by
  induction words generalizing k with
  | nil => rfl
  | cons first words ih =>
    cases k with
    | zero => rfl
    | succ k => simpa [Nat.mul_add] using ih k

/-- A word from its two halves. -/
theorem halves (w : Word) : field w 16 16 ++ field w 0 16 = w := by
  ext i h
  simp [field]
  grind

theorem readU32_armCode {words : List Word} {k : Nat} {w : Word} (there : words[k]? = some w) :
    readU32 (armCode words 0) (4 * k) = w := by
  obtain ⟨low, high⟩ := armCode_get there
  rw [readU32, readU16, readU16, show (4 * k + 2) / 2 = 2 * k + 1 by omega,
    show 4 * k / 2 = 2 * k by omega, List.getD_eq_getElem?_getD,
    List.getD_eq_getElem?_getD, low, high]
  exact halves w

theorem insertU32_armCode {words : List Word} {k : Nat} (inside : k < words.length) (w : Word) :
    insertU32 (armCode words 0) (4 * k) w = some (armCode (words.set k w) 0) := by
  rw [insertU32, armCode_length, if_pos (by omega), show 4 * k / 2 = 2 * k by omega, armCode_set]

variable {values : Values} {words : List Word} {k : Nat}

/-- The condition is copied. -/
theorem fill_cond {w : Word} (arm : values.kind = .arm) (there : words[k]? = some w) :
    fillField values (armCode words 0) (4 * k) .patchCond =
      some (armCode (words.set k (conditionally values.insn w)) 0) := by
  have condition : FieldMask 0xf0000000#32 28 4 := by decide
  have copied := patchByMask_field values.insn w condition (by decide) condition (by decide) rfl
  have masks (insn : Word) : (getInsnMasks insn .arm).cond = 0xf0000000#32 := rfl
  have inside := (List.getElem?_eq_some_iff.mp there).1
  simp only [fillField, patchInsn, templateInsn, arm, patchedInsn, masks, readU32_armCode there,
    copied, Option.map_some, Option.bind_some,
    patch_or]
  exact insertU32_armCode inside _

/-- A register is copied to where a transferred register is. -/
private theorem fill_register {w : Word} (arm : values.kind = .arm) (there : words[k]? = some w) :
    fillField values (armCode words 0) (4 * k) (.patch .rt .rm) =
      some (armCode (words.set k (patch 0x0000f000#32 w (moved 32 values.insn 0 4 12))) 0) := by
  have copied := patchByMask_field values.insn w (show FieldMask 0x0000000f#32 0 4 by decide) (by decide)
    (show FieldMask 0x0000f000#32 12 4 by decide) (by decide) rfl
  have source (insn : Word) : (getInsnMasks insn .arm).of .rm = 0x0000000f#32 := rfl
  have masks (insn : Word) : (getInsnMasks insn .arm).of .rt = 0x0000f000#32 := rfl
  have inside := (List.getElem?_eq_some_iff.mp there).1
  simp only [fillField, patchInsn, templateInsn, arm, patchedInsn, source, masks,
    readU32_armCode there, copied, Option.map_some,
    Option.bind_some, patch_or]
  exact insertU32_armCode inside _

theorem fill_constant {kind : Field} {old w : Word} (is : fieldValue values kind = some w)
    (there : words[k]? = some old) :
    fillField values (armCode words 0) (4 * k) kind = some (armCode (words.set k w) 0) := by
  rw [fill_value is]
  exact insertU32_armCode (List.getElem?_eq_some_iff.mp there).1 w

variable (pc handler insn : Word)

/-- The values for an ARM instruction. -/
private abbrev armValues : Values := ⟨handler, pc, pc + 4#32, insn, .arm⟩

private def badWord : Word := 0xbaadf00d#32

theorem filled_bA1 (b : encodes insn .bA1Target = true) :
    templateGetHandler .bA1 pc handler insn .arm =
      some (armCode [conditionally insn 0xe59ff004#32, 0xe51ff004#32, pc + 4#32,
        architecturalValue pc insn .bA1Target, handler, pc] 0) := by
  have target := (fieldValue_iff_decoded (armValues pc handler insn) .bA1Target b).mpr trivial
  have start : (templateCode .bA1).code = armCode [0xe59ff004#32, 0xe51ff004#32, badWord, badWord,
      badWord, badWord] 0 := rfl
  rw [templateGetHandler, templateFillout, start]
  refine (fillout_next (fill_cond (k := 0) rfl rfl)).trans ?_
  refine (fillout_next (fill_constant (k := 2) rfl rfl)).trans ?_
  refine (fillout_next (fill_constant (k := 3) target rfl)).trans ?_
  refine (fillout_next (fill_constant (k := 4) rfl rfl)).trans ?_
  exact fillout_next (fill_constant (k := 5) rfl rfl)

theorem filled_blImmA1 (bl : encodes insn .blImmA1Target = true) :
    templateGetHandler .blImmA1 pc handler insn .arm =
      some (armCode [conditionally insn 0xe59fe004#32, conditionally insn 0xe59ff004#32,
        0xe51ff004#32, pc + 4#32,
        architecturalValue pc insn .blImmA1Target, handler, pc] 0) := by
  have target := (fieldValue_iff_decoded (armValues pc handler insn) .blImmA1Target bl).mpr trivial
  have start : (templateCode .blImmA1).code =
      armCode [0xe59fe004#32, 0xe59ff004#32, 0xe51ff004#32, badWord, badWord, badWord, badWord] 0 := rfl
  rw [templateGetHandler, templateFillout, start]
  refine (fillout_next (fill_cond (k := 0) rfl rfl)).trans ?_
  refine (fillout_next (fill_cond (k := 1) rfl rfl)).trans ?_
  refine (fillout_next (fill_constant (k := 3) rfl rfl)).trans ?_
  refine (fillout_next (fill_constant (k := 4) target rfl)).trans ?_
  refine (fillout_next (fill_constant (k := 5) rfl rfl)).trans ?_
  exact fillout_next (fill_constant (k := 6) rfl rfl)

theorem filled_blxImmA2 (blx : encodes insn .blxImmA2Target = true) :
    templateGetHandler .blxImmA2 pc handler insn .arm =
      some (armCode [0xe59fe000#32, 0xe59ff000#32, pc + 4#32,
        architecturalValue pc insn .blxImmA2Target, handler, pc] 0) := by
  have target := (fieldValue_iff_decoded (armValues pc handler insn) .blxImmA2Target blx).mpr trivial
  have start : (templateCode .blxImmA2).code = armCode [0xe59fe000#32, 0xe59ff000#32, badWord,
      badWord, badWord, badWord] 0 := rfl
  rw [templateGetHandler, templateFillout, start]
  refine (fillout_next (fill_constant (k := 2) rfl rfl)).trans ?_
  refine (fillout_next (fill_constant (k := 3) target rfl)).trans ?_
  refine (fillout_next (fill_constant (k := 4) rfl rfl)).trans ?_
  exact fillout_next (fill_constant (k := 5) rfl rfl)

theorem filled_blxRegA1 :
    templateGetHandler .blxRegA1 pc handler insn .arm =
      some (armCode [patch 0x0000f000#32 (conditionally insn 0xe52d0004#32) (moved 32 insn 0 4 12),
        conditionally insn 0xe59fe004#32,
        conditionally insn 0xe49df004#32, 0xe51ff004#32, pc + 4#32, handler, pc] 0) := by
  have start : (templateCode .blxRegA1).code =
      armCode [0xe52d0004#32, 0xe59fe004#32, 0xe49df004#32, 0xe51ff004#32, badWord, badWord,
        badWord] 0 := rfl
  rw [templateGetHandler, templateFillout, start]
  refine (fillout_next (fill_cond (k := 0) rfl rfl)).trans ?_
  refine (fillout_next (fill_register (k := 0) rfl rfl)).trans ?_
  refine (fillout_next (fill_cond (k := 1) rfl rfl)).trans ?_
  refine (fillout_next (fill_cond (k := 2) rfl rfl)).trans ?_
  refine (fillout_next (fill_constant (k := 4) rfl rfl)).trans ?_
  refine (fillout_next (fill_constant (k := 5) rfl rfl)).trans ?_
  exact fillout_next (fill_constant (k := 6) rfl rfl)

end ARM

/-! ## Thumb -/

section Thumb

variable {w : BitVec 16}

/-- A halfword as the instruction it is given as. -/
private theorem matches_wide {p q : Pattern} (has : wordMatches w p = true) (mask : p.mask < 2 ^ 16)
    (value : p.value < 2 ^ 16)
    (inside : q.bits.inside (Encodings.known ⟨[p.bits, Bits.ofField 16 0#16], []⟩) = true) :
    wordMatches (w.setWidth 32) q = true := by
  have high : field (w.setWidth 32) 16 16 = 0#16 := by
    ext i h
    simp [field]
  refine matches_of_known [p.bits, Bits.ofField 16 0#16] ?_ inside
  simpa [← field_eq_iff, high] using wordMatches_bits.mp
    ((wordMatches_setWidth w p mask value).trans has)

/-- A field of the instruction is copied into the halfword of the template. -/
private theorem fill_thumb (values : Values) (kind : Field) (code : Code) (offset : Nat)
    (h : BitVec 16) (mask mask' : Word) (low k low' : Nat)
    (thumb : values.kind = .thumb) (there : readU16 code offset = h) (short : h.toNat < 0xe800)
    (fits : offset + 2 ≤ 2 * code.length)
    (patches : fillField values code offset kind = patchInsn values code offset kind)
    (copies : patchedInsn values (h.setWidth 32) .thumb kind =
      (patchByMask values.insn (h.setWidth 32) mask mask').map fun insn => (insn, mask'))
    (isField : FieldMask mask low k) (isField' : FieldMask mask' low' k)
    (same : bitsCount mask = bitsCount mask')
    (inside : low + k ≤ 32 ∧ low' + k ≤ 16) :
    fillField values code offset kind =
      some (code.set (offset / 2) (patch (field mask' 0 16) h (moved 16 values.insn low k low'))) := by
  have copied := patchByMask_field values.insn (h.setWidth 32) isField inside.1 isField' (by omega) same
  rw [copied, Option.map_some] at copies
  have halfword : field ((h.setWidth 32 &&& ~~~mask') |||
      ((field values.insn low k).setWidth 32 <<< low')) 0 16 =
      (h &&& ~~~field mask' 0 16) ||| moved 16 values.insn low k low' := by
    ext i small
    simp [field, moved]
    grind
  rw [patches, patchInsn_thumb (by simp [thumb]) (by rwa [there]) fits (there ▸ copies), there,
    halfword, patch_or]

variable (pc handler : Word)

/-- The values for a Thumb instruction. -/
private abbrev thumbValues (w : BitVec 16) : Values := ⟨handler, pc, pc + 2#32, w.setWidth 32, .thumb⟩

/-- A load of the register that the instruction names. -/
def loading (insn : Word) (load : BitVec 16) : BitVec 16 := patch 0x0700#16 load (moved 16 insn 8 3 8)

theorem filled_adrT1 (adr : wordMatches w "10100-----------" = true) :
    templateGetHandler .adrT1 pc handler (w.setWidth 32) .thumb =
      some ([loading (w.setWidth 32) 0x4801#16, 0xf8df#16, 0xf004#16] ++
        armCode [architecturalValue pc (w.setWidth 32) .adrT1Val, (pc + 2#32) ||| 1#32, handler,
          pc ||| 1#32] 0) := by
  have target := (fieldValue_iff_decoded (thumbValues pc handler w) .adrT1Val
    (matches_wide adr (by decide) (by decide) (by decide))).mpr trivial
  have opcode : field (w.setWidth 32) 11 5 = 0b10100#5 := by
    rw [field_setWidth w 11 5 (by decide)]
    exact field_of_matches adr 11 5 (by decide)
  have source := masks_of_opcode 0b10100#5 opcode (by decide) 0xa000#32 rfl
  have register := fill_thumb (thumbValues pc handler w) (.patch .rd .rd)
    ((templateCode .adrT1).code) 0 0x4801#16 0x0700#32 0x0700#32 8 3 8
    rfl rfl (by decide) (by decide) rfl (by rw [patchedInsn, source]; rfl) (by decide) (by decide)
      rfl (by decide)
  rw [templateGetHandler, templateFillout]
  refine (fillout_next register).trans ?_
  refine (fillout_next (fill_value target _ _)).trans ?_
  rfl

/-- The load through the register that the instruction loads, at first into another register. -/
def loadBase (insn : Word) : BitVec 16 := patch 0x0038#16 0x6808#16 (moved 16 insn 8 3 3)

/-- The load through the register that the instruction loads. -/
def loadThrough (insn : Word) : BitVec 16 := patch 0x0007#16 (loadBase insn) (moved 16 insn 8 3 0)

theorem filled_ldrLitT1 (ldr : wordMatches w "01001-----------" = true) :
    templateGetHandler .ldrLitT1 pc handler (w.setWidth 32) .thumb =
      some ([loading (w.setWidth 32) 0x4802#16, loadThrough (w.setWidth 32), 0xf8df#16, 0xf008#16,
        0xdede#16] ++
        armCode [architecturalValue pc (w.setWidth 32) .ldrLitT1Address, (pc + 2#32) ||| 1#32,
          handler, pc ||| 1#32] 0) := by
  have target := (fieldValue_iff_decoded (thumbValues pc handler w) .ldrLitT1Address
    (matches_wide ldr (by decide) (by decide) (by decide))).mpr trivial
  have opcode : field (w.setWidth 32) 11 5 = 0b01001#5 := by
    rw [field_setWidth w 11 5 (by decide)]
    exact field_of_matches ldr 11 5 (by decide)
  have source := masks_of_opcode 0b01001#5 opcode (by decide) 0x4800#32 rfl
  have first := fill_thumb (thumbValues pc handler w) (.patch .rt .rt)
    ((templateCode .ldrLitT1).code) 0 0x4802#16 0x0700#32 0x0700#32 8 3 8
    rfl rfl (by decide) (by decide) rfl (by rw [patchedInsn, source]; rfl) (by decide) (by decide)
      rfl (by decide)
  have base := fill_thumb (thumbValues pc handler w)
    (.patch .rn .rt) ((templateCode .ldrLitT1).code.set 0 (loading (w.setWidth 32) 0x4802#16)) 2
      0x6808#16 0x0700#32 0x0038#32 8 3 3
    rfl rfl (by decide) (by simp [templateCode, thumbCode, bad]) rfl
      (by rw [patchedInsn, source]; rfl) (by decide) (by decide) rfl (by decide)
  -- the base register stands below the opcode
  have still : field (loadBase (w.setWidth 32)) 11 5 = 0b01101#5 :=
    field_patch_outside 11 5 (by decide) (by decide)
  have masks := masks_of_opcode 0b01101#5 ((field_setWidth _ 11 5 (by decide)).trans still)
    (by decide) 0x6800#32 rfl
  have short : (loadBase (w.setWidth 32)).toNat < 0xe800 := by
    have := toNat_high 11 rfl still
    simp only [BitVec.toNat_ofNat] at this
    omega
  have transferred := fill_thumb (thumbValues pc handler w)
    (.patch .rt .rt) (((templateCode .ldrLitT1).code.set 0 (loading (w.setWidth 32) 0x4802#16)).set
      1 (loadBase (w.setWidth 32))) 2
    (loadBase (w.setWidth 32)) 0x0700#32 0x0007#32 8 3 0
    rfl rfl short (by simp [templateCode, thumbCode, bad]) rfl
      (by rw [patchedInsn, source, masks]; rfl) (by decide) (by decide) rfl (by decide)
  rw [templateGetHandler, templateFillout]
  refine (fillout_next first).trans ?_
  refine (fillout_next base).trans ?_
  refine (fillout_next transferred).trans ?_
  refine (fillout_next (fill_value target _ _)).trans ?_
  rfl

/-- The conditional branch over the first jump. -/
def branchOver (insn : Word) : BitVec 16 := patch 0x0f00#16 0xd001#16 (moved 16 insn 8 4 8)

theorem filled_bT1 (b : wordMatches w "1101------------" = true)
    (conditional : wordMatches w "1101111---------" = false) :
    templateGetHandler .bT1 pc handler (w.setWidth 32) .thumb =
      some ([branchOver (w.setWidth 32), 0xf8df#16, 0xf004#16, 0xf8df#16, 0xf004#16] ++
        armCode [(pc + 2#32) ||| 1#32, architecturalValue pc (w.setWidth 32) .bT1Target, handler,
          pc ||| 1#32] 0) := by
  have encoded : encodes (w.setWidth 32) .bT1Target = true := by
    rw [encodes, matches_wide b (by decide) (by decide) (by decide),
      wordMatches_setWidth w _ (by decide) (by decide), conditional]
    rfl
  have target := (fieldValue_iff_decoded (thumbValues pc handler w) .bT1Target encoded).mpr trivial
  have source := masks_of_bT1 ((wordMatches_setWidth w _ (by decide) (by decide)).trans b)
  have cond := fill_thumb (thumbValues pc handler w) .patchCond ((templateCode .bT1).code) 0
    0xd001#16 0x0f00#32 0x0f00#32 8 4 8
    rfl rfl (by decide) (by decide) rfl (by rw [patchedInsn, source]; rfl) (by decide) (by decide)
      rfl (by decide)
  rw [templateGetHandler, templateFillout]
  refine (fillout_next cond).trans ?_
  refine (fillout_next (fill_value rfl _ _)).trans ?_
  refine (fillout_next (fill_value target _ _)).trans ?_
  rfl

theorem filled_bT2 (b : wordMatches w "11100-----------" = true) :
    templateGetHandler .bT2 pc handler (w.setWidth 32) .thumb =
      some ([0xf8df#16, 0xf004#16, 0xdede#16] ++
        armCode [architecturalValue pc (w.setWidth 32) .bT2Target, handler, pc ||| 1#32] 0) := by
  have target := (fieldValue_iff_decoded (thumbValues pc handler w) .bT2Target
    (matches_wide b (by decide) (by decide) (by decide))).mpr trivial
  rw [templateGetHandler, templateFillout]
  refine (fillout_next (fill_value target _ _)).trans ?_
  rfl

/-- The comparing branch over the first jump, at first of the register that the template names. -/
def compareFirst (insn : Word) : BitVec 16 := patch 0x0800#16 0xb108#16 (moved 16 insn 11 1 11)

/-- The comparing branch over the first jump. -/
def compareOver (insn : Word) : BitVec 16 := patch 0x0007#16 (compareFirst insn) (moved 16 insn 0 3 0)

theorem filled_cbzT1 (cbz : wordMatches w "1011-0-1--------" = true) :
    templateGetHandler .cbzT1 pc handler (w.setWidth 32) .thumb =
      some ([compareOver (w.setWidth 32), 0xf8df#16, 0xf004#16, 0xf8df#16, 0xf004#16] ++
        armCode [(pc + 2#32) ||| 1#32, architecturalValue pc (w.setWidth 32) .cbzT1Target, handler,
          pc ||| 1#32] 0) := by
  have target := (fieldValue_iff_decoded (thumbValues pc handler w) .cbzT1Target
    (matches_wide cbz (by decide) (by decide) (by decide))).mpr trivial
  have source := masks_of_cbz ((wordMatches_setWidth w _ (by decide) (by decide)).trans cbz)
  have cond := fill_thumb (thumbValues pc handler w) .patchCond ((templateCode .cbzT1).code) 0
    0xb108#16 0x0800#32 0x0800#32 11 1 11
    rfl rfl (by decide) (by decide) rfl (by rw [patchedInsn, source]; rfl) (by decide) (by decide)
      rfl (by decide)
  have still : wordMatches (compareFirst (w.setWidth 32)) "1011-0-1--------" = true := by
    rw [compareFirst, matches_patch (by decide)]
    decide
  have masks := masks_of_cbz ((wordMatches_setWidth _ "1011-0-1--------" (by decide)
    (by decide)).trans still)
  have short : (compareFirst (w.setWidth 32)).toNat < 0xe800 := by
    have := toNat_high 12 rfl (field_of_matches still 12 4 (by decide))
    have eleven : (field (BitVec.ofNat 16 (Pattern.value "1011-0-1--------")) 12 4).toNat = 11 :=
      by decide
    omega
  have register := fill_thumb (thumbValues pc handler w)
    (.patch .rn .rn) ((templateCode .cbzT1).code.set 0 (compareFirst (w.setWidth 32))) 0
      (compareFirst (w.setWidth 32)) 0x0007#32 0x0007#32 0 3 0
    rfl rfl short (by simp [templateCode, thumbCode, bad]) rfl
      (by rw [patchedInsn, source, masks]; rfl) (by decide) (by decide) rfl (by decide)
  rw [templateGetHandler, templateFillout]
  refine (fillout_next cond).trans ?_
  refine (fillout_next register).trans ?_
  refine (fillout_next (fill_value rfl _ _)).trans ?_
  refine (fillout_next (fill_value target _ _)).trans ?_
  rfl

end Thumb

end Adbi.ArmFillProofs
