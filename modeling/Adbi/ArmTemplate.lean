import Adbi.TemplateSelect

/-! The templates of `arch/arm`: their code from the label `ool` on
(`templates/*.S`) and how it is filled out (`template.c`). The code is a list of
halfwords, a word being its low half and then its high half; offsets count
bytes. -/
namespace Adbi.ArmTemplate
open Adbi.Lib Adbi.TemplateSelect

abbrev Word := BitVec 32
abbrev Code := List (BitVec 16)

/-- `insn_kind_t`. -/
inductive Kind where
  | thumb | thumb2 | arm
  deriving DecidableEq, Repr

/-- The register fields of an instruction. -/
inductive Reg where
  | rd | rt | rm | rn
  deriving DecidableEq, Repr

/-- `template_field_id_t`. -/
inductive Field where
  | insn | handlerAddress | origPc | readPc | nextPc
  | patchCond
  /-- `TF_PATCH_<dst>2<src>`: the field of the template's instruction and the one of the original. -/
  | patch (dst src : Reg)
  /-- `TF_PATCH_<dst>2RS`: the field gets a temporary register. -/
  | patchTemporary (dst : Reg)
  | adrT1Val | adrT2Val | adrT3Val | ldrLitT1Address | ldrLitT2Address
  | bT1Target | bT2Target | cbzT1Target | bT3Target | bT4Target | blT1Target | blxT2Target
  | bA1Target | blImmA1Target | blxImmA2Target
  deriving DecidableEq, Repr

/-- `template_values_t`. -/
structure Values where
  handlerAddress : Word
  pc : Word
  nextPc : Word
  insn : Word
  kind : Kind

/-! ## Bits -/

/-- `sign_extend`, whose second argument is a width. -/
def signExtend (value : Word) (msb : Nat) : Word :=
  let mask := 1#32 <<< (msb - 1)
  ((value &&& ((1#32 <<< msb) - 1#32)) ^^^ mask) - mask

/-- `bit_mask`; it asserts that `low` is not above `high`. -/
def bitMask (low high : Nat) : Word := ((1#32 <<< (high - low + 1)) - 1#32) <<< low

/-- The loop of `get_bits_by_mask`, over the shifts below `sh`. -/
def getBitsLoop (val mask : Word) : (sh : Nat) → Word → Word
  | 0, ret => ret
  | sh + 1, ret =>
    getBitsLoop val mask sh
      (if mask.getLsbD sh then (ret <<< 1) ||| (if val.getLsbD sh then 1#32 else 0#32) else ret)

/-- `get_bits_by_mask`. It starts with a shift by 32, which moves the bit out of the word. -/
def getBitsByMask (val mask : Word) : Word := getBitsLoop val mask 33 0

/-- The loop of `set_bits_by_mask` from the shift `sh` on, which ends when no
bit of `val` is left; it does not end within the word if the mask has too few. -/
def setBitsLoop (mask : Word) : (fuel sh : Nat) → (val ret : Word) → Option Word
  | 0, _, val, ret => if val = 0 then some ret else none
  | fuel + 1, sh, val, ret =>
    if val = 0 then some ret
    else if mask.getLsbD sh then setBitsLoop mask fuel (sh + 1) (val >>> 1)
      (ret ||| ((val &&& 1#32) <<< sh))
    else setBitsLoop mask fuel (sh + 1) val ret

/-- `set_bits_by_mask`. -/
def setBitsByMask (val mask : Word) : Option Word := setBitsLoop mask 32 0 val 0

/-- `patch_by_mask`. -/
def patchByMask (src dst mask1 mask2 : Word) : Option Word :=
  if bitsCount mask1 = bitsCount mask2 then
    (setBitsByMask (getBitsByMask src mask1) mask2).map fun bits => (dst &&& ~~~mask2) ||| bits
  else none

/-! ## Patching instructions -/

/-- `insn_masks_t`. -/
structure Masks where
  cond : Word
  rd : Word
  rt : Word
  rm : Word
  rn : Word

def Masks.of (masks : Masks) : Reg → Word
  | .rd => masks.rd
  | .rt => masks.rt
  | .rm => masks.rm
  | .rn => masks.rn

/-- `get_insn_masks`. -/
def getInsnMasks (insn : Word) : Kind → Masks
  | .arm => ⟨bitMask 28 31, bitMask 12 15, bitMask 12 15, bitMask 0 3, bitMask 16 19⟩
  | .thumb2 =>
    ⟨if wordMatches insn "11110-----------10-0------------" then bitMask 22 25 else 0, bitMask 8 11,
      bitMask 12 15,
      bitMask 0 3, bitMask 16 19⟩
  | .thumb =>
    let opcode := field insn 11 5
    if wordMatches opcode "1101-" then ⟨bitMask 8 11, 0, 0, 0, 0⟩
    else if wordMatches insn "1011-0-1--------" then ⟨bitMask 11 11, 0, 0, 0, bitMask 0 2⟩
    else if wordMatches opcode "1001-" || wordMatches opcode "1010-" || wordMatches opcode "1100-" ||
        wordMatches opcode "01001" || wordMatches opcode "001--" then
      ⟨0, bitMask 8 10, bitMask 8 10, 0, bitMask 8 10⟩
    else if wordMatches opcode "00011" || wordMatches opcode "1000-" || wordMatches opcode "0101-" ||
        wordMatches opcode "011--" then
      ⟨0, bitMask 0 2, bitMask 0 2, bitMask 6 8, bitMask 3 5⟩
    else if wordMatches opcode "000--" || wordMatches opcode "01000" then ⟨0, bitMask 0 2, 0,
      bitMask 3 5, bitMask 0 2⟩
    else ⟨0, 0, 0, 0, 0⟩

/-- `select_temporary_reg`: the first low register that the instruction does not name. -/
def selectTemporaryReg (insn : Word) (masks : Masks) : Option Word :=
  let named (mask : Word) := if masks.rd ≠ 0 then getBitsByMask insn mask else 0xf
  [0, 1, 2, 3, 4, 5, 6, 7].find? fun rc : Word =>
    rc ≠ named masks.rd && rc ≠ named masks.rt && rc ≠ named masks.rn && rc ≠ named masks.rm

/-- `thumb2_swap_halfwords`. -/
def thumb2SwapHalfwords (insn : Word) : Word := field insn 0 16 ++ field insn 16 16

def readU16 (code : Code) (offset : Nat) : BitVec 16 := code.getD (offset / 2) 0

def readU32 (code : Code) (offset : Nat) : Word := readU16 code (offset + 2) ++ readU16 code offset

/-- `template_insert_u16`; it asserts that the value fits in. -/
def insertU16 (code : Code) (offset : Nat) (value : BitVec 16) : Option Code :=
  if offset + 2 ≤ 2 * code.length then some (code.set (offset / 2) value) else none

/-- `template_insert_u32`. -/
def insertU32 (code : Code) (offset : Nat) (value : Word) : Option Code :=
  if offset + 4 ≤ 2 * code.length then
    some ((code.set (offset / 2) (Lib.field value 0 16)).set (offset / 2 + 1) (Lib.field value 16 16))
  else none

/-- The instruction of the template that a field is about. -/
def templateInsn (code : Code) (offset : Nat) : Kind → Word × Kind
  | .arm => (readU32 code offset, .arm)
  | _ =>
    let first := readU16 code offset
    if 0xe800#16 ≤ first then (thumb2SwapHalfwords (readU32 code offset), .thumb2)
      else (first.setWidth 32, .thumb)

/-- The value that `patch_insn` gives the template's instruction, with the mask of what it changes. -/
def patchedInsn (values : Values) (dstInsn : Word) (dstKind : Kind) : Field → Option (Word × Word)
  | .patchCond =>
    let src := getInsnMasks values.insn values.kind
    let dst := getInsnMasks dstInsn dstKind
    (patchByMask values.insn dstInsn src.cond dst.cond).map fun insn => (insn, dst.cond)
  | .patch d s =>
    let src := getInsnMasks values.insn values.kind
    let dst := getInsnMasks dstInsn dstKind
    (patchByMask values.insn dstInsn (src.of s) (dst.of d)).map fun insn => (insn, dst.of d)
  | .patchTemporary d =>
    let dst := getInsnMasks dstInsn dstKind
    let count := bitsCount (dst.of d)
    if count = 0 then none
    else
      (selectTemporaryReg values.insn dst).bind fun temporary =>
        (patchByMask temporary dstInsn (bitMask 0 (count - 1)) (dst.of d)).map fun insn =>
          (insn, dst.of d)
  | _ => none

/-- `patch_insn`. -/
def patchInsn (values : Values) (code : Code) (offset : Nat) (kind : Field) : Option Code :=
  let (dstInsn, dstKind) := templateInsn code offset values.kind
  (patchedInsn values dstInsn dstKind kind).bind fun (insn, mask) =>
    match dstKind with
    | .thumb =>
      insertU16 code offset (patch (Lib.field mask 0 16) (readU16 code offset) (Lib.field insn 0 16))
    | .thumb2 =>
      insertU32 code offset (patch (thumb2SwapHalfwords mask) (readU32 code offset)
        (thumb2SwapHalfwords insn))
    | .arm => insertU32 code offset (patch mask (readU32 code offset) insn)

/-! ## Targets and addresses -/

/-- `thumb2_branch_decode`. -/
def thumb2BranchDecode (insn : Word) : Word :=
  let imm10 := (field insn 16 10).setWidth 32
  let imm11 := (field insn 0 11).setWidth 32
  let s := insn.getLsbD 26
  let j1 := insn.getLsbD 13
  let j2 := insn.getLsbD 11
  let i1 := !(s ^^ j1)
  let i2 := !(s ^^ j2)
  let bit (b : Bool) : Word := (BitVec.ofBool b).setWidth 32
  signExtend ((imm11 <<< 1) ||| (imm10 <<< 12) ||| (bit i2 <<< 22) ||| (bit i1 <<< 23) |||
    (bit s <<< 24)) 24

/-- The value that `template_fillout` stores for a field; a failed assertion has none. -/
def fieldValue (values : Values) : Field → Option Word
  | .handlerAddress => some values.handlerAddress
  | .origPc => some (if values.kind ≠ .arm then values.pc ||| 1#32 else values.pc)
  | .readPc => some (if values.kind = .arm then values.pc + 8#32 else values.pc + 4#32)
  | .nextPc => some (if values.kind ≠ .arm then values.nextPc ||| 1#32 else values.nextPc)
  | .cbzT1Target =>
    if wordMatches values.insn "1011-0-1--------" then
      let imm5 := (values.insn >>> 3) &&& 0x1f#32
      let i := (values.insn >>> 9) &&& 0x1#32
      some ((values.pc + 4#32 + (((i <<< 5) ||| imm5) <<< 1)) ||| 1#32)
    else none
  | .adrT1Val =>
    if wordMatches values.insn "10100-----------" then
      some (((values.pc + 4#32) &&& 0xfffffffc#32) + ((values.insn &&& 0xff#32) <<< 2))
    else none
  | .adrT2Val | .adrT3Val =>
    let t2 := wordMatches values.insn "11110-10101011110---------------"
    let t3 := wordMatches values.insn "11110-10000011110---------------"
    let imm8 := (field values.insn 0 8).setWidth 32
    let imm3 := (field values.insn 12 3).setWidth 32
    let i := (field values.insn 26 1).setWidth 32
    let imm32 : Word := (i <<< 11) ||| (imm3 <<< 8) ||| imm8
    let addr := (values.pc + 4#32) &&& 0xfffffffc#32
    if t2 || t3 then some (if t2 then addr - imm32 else addr + imm32) else none
  | .ldrLitT1Address =>
    if wordMatches values.insn "01001-----------" then
      some (((values.pc + 4#32) &&& 0xfffffffc#32) + (values.insn &&& 0xff#32) * 4#32)
    else none
  | .ldrLitT2Address =>
    if wordMatches values.insn "11111000-1011111----------------" then
      let addr := (values.pc + 4#32) &&& 0xfffffffc#32
      let imm32 := (field values.insn 0 12).setWidth 32
      some (if values.insn.getLsbD 23 then addr + imm32 else addr - imm32)
    else none
  | .bT1Target =>
    if wordMatches values.insn "1101------------" && !wordMatches values.insn "1101111---------" then
      some ((values.pc + 4#32 + signExtend ((field values.insn 0 8).setWidth 32 <<< 1) 9) ||| 1#32)
    else none
  | .bT2Target =>
    if wordMatches values.insn "11100-----------" then
      some ((values.pc + 4#32 + signExtend ((field values.insn 0 11).setWidth 32 <<< 1) 12) ||| 1#32)
    else none
  | .bT3Target =>
    if wordMatches values.insn "11110-----------10-0------------" then
      let imm11 := (field values.insn 0 11).setWidth 32
      let s := (field values.insn 26 1).setWidth 32
      let j1 := (field values.insn 13 1).setWidth 32
      let j2 := (field values.insn 11 1).setWidth 32
      let imm32 := signExtend ((imm11 ||| (j1 <<< 11) ||| (j2 <<< 12) ||| (s <<< 13)) <<< 1) 14
      some ((values.pc + 4#32 + imm32) ||| 1#32)
    else none
  | .bT4Target | .blT1Target => some ((values.pc + 4#32 + thumb2BranchDecode values.insn) ||| 1#32)
  | .blxT2Target =>
    let target := ((values.pc + 4#32) &&& 0xfffffffc#32) + thumb2BranchDecode values.insn
    if wordMatches values.insn "11110-----------11--------------" && !values.insn.getLsbD 0 &&
      target &&& 3#32 = 0#32 then
      some target
    else none
  | .bA1Target | .blImmA1Target =>
    some (values.pc + 8#32 + signExtend ((values.insn &&& 0x00ffffff#32) <<< 2) 26)
  | .blxImmA2Target =>
    let imm24 := values.insn &&& 0x00ffffff#32
    let h := values.insn.getLsbD 24
    some ((values.pc + 8#32 + signExtend ((imm24 <<< 2) ||| (if h then 2#32 else 0#32)) 26) ||| 1#32)
  | .insn | .patchCond | .patch _ _ | .patchTemporary _ => none

/-- One field of `template_fillout`. -/
def fillField (values : Values) (code : Code) (offset : Nat) (kind : Field) : Option Code :=
  match kind with
  | .insn =>
    match values.kind with
    | .thumb =>
      if values.insn >>> 16 = 0 then insertU16 code offset (Lib.field values.insn 0 16) else none
    | .thumb2 => insertU32 code offset (thumb2SwapHalfwords values.insn)
    | .arm => insertU32 code offset values.insn
  | .patchCond | .patch _ _ | .patchTemporary _ => patchInsn values code offset kind
  | _ => (fieldValue values kind).bind (insertU32 code offset)

/-! ## The templates -/

/-- `template_t`: the code from the label `ool` on and the fields in it, in the order of their
offsets. -/
structure TemplateCode where
  code : Code
  fields : List (Field × Nat)

/-- The words that are filled out later. -/
def bad (count : Nat) : Code := (List.replicate count [0xf00d#16, 0xbaad#16]).flatten

def armCode (insns : List Word) (constants : Nat) : Code :=
  insns.flatMap (fun insn => [Lib.field insn 0 16, Lib.field insn 16 16]) ++ bad constants

/-- The label `ool` of the Thumb templates stands two bytes after a word
boundary, and the constants stand at one. -/
def thumbCode (insns : Code) (constants : Nat) : Code := insns ++ bad constants

def templateCode : Template → TemplateCode
  | .armGeneric =>
    ⟨armCode
      [0xe320f000#32,  -- nop
       0xe51ff004#32] 3,  -- ldr pc, tf_next_pc
     [(.insn, 0), (.nextPc, 8), (.handlerAddress, 12), (.origPc, 16)]⟩
  | .armDpRn =>
    ⟨armCode
      [0xe59f0008#32,  -- ldr r0, tf_read_pc
       0xe2800000#32,  -- add r0, r0, #0
       0xe51ff004#32] 4,  -- ldr pc, tf_next_pc
     [(.patchCond, 0), (.patch .rd .rd, 0), (.insn, 4), (.patch .rn .rd, 4), (.nextPc, 12),
       (.readPc, 16),
      (.handlerAddress, 20), (.origPc, 24)]⟩
  | .armDpRm =>
    ⟨armCode
      [0xe59f1008#32,  -- ldr r1, tf_read_pc
       0xe0800001#32,  -- add r0, r0, r1
       0xe51ff004#32] 4,  -- ldr pc, tf_next_pc
     [(.patchCond, 0), (.patch .rd .rd, 0), (.insn, 4), (.patch .rm .rd, 4), (.nextPc, 12),
       (.readPc, 16),
      (.handlerAddress, 20), (.origPc, 24)]⟩
  | .armDpRnRm =>
    ⟨armCode
      [0xe59f1008#32,  -- ldr r1, tf_read_pc
       0xe0800001#32,  -- add r0, r0, r1
       0xe51ff004#32] 4,  -- ldr pc, tf_next_pc
     [(.patchCond, 0), (.patch .rd .rd, 0), (.insn, 4), (.patch .rm .rd, 4), (.patch .rn .rd, 4),
       (.nextPc, 12),
      (.readPc, 16), (.handlerAddress, 20), (.origPc, 24)]⟩
  | .armDpRn2 =>
    ⟨armCode
      [0xea000000#32,  -- b ool_handler
       0xe59ff010#32,  -- ldr pc, tf_next_pc
       0xe52d3004#32,  -- push { r3 }
       0xe59f300c#32,  -- ldr r3, tf_read_pc
       0xe0830000#32,  -- add r0, r3, r0
       0xe49d3004#32,  -- pop { r3 }
       0xe51ff004#32] 4,  -- ldr pc, tf_next_pc
     [(.patchCond, 0), (.patchTemporary .rt, 8), (.patchTemporary .rt, 12), (.insn, 16),
       (.patchTemporary .rn, 16),
      (.patchTemporary .rt, 20), (.nextPc, 28), (.readPc, 32), (.handlerAddress, 36), (.origPc, 40)]⟩
  | .armDpRm2 =>
    ⟨armCode
      [0xea000000#32,  -- b ool_handler
       0xe59ff010#32,  -- ldr pc, tf_next_pc
       0xe52d3004#32,  -- push { r3 }
       0xe59f300c#32,  -- ldr r3, tf_read_pc
       0xe0800003#32,  -- add r0, r0, r3
       0xe49d3004#32,  -- pop { r3 }
       0xe51ff004#32] 4,  -- ldr pc, tf_next_pc
     [(.patchCond, 0), (.patchTemporary .rt, 8), (.patchTemporary .rt, 12), (.insn, 16),
       (.patchTemporary .rm, 16),
      (.patchTemporary .rt, 20), (.nextPc, 28), (.readPc, 32), (.handlerAddress, 36), (.origPc, 40)]⟩
  | .armDpRnRm2 =>
    ⟨armCode
      [0xea000000#32,  -- b ool_handler
       0xe59ff010#32,  -- ldr pc, tf_next_pc
       0xe52d3004#32,  -- push { r3 }
       0xe59f300c#32,  -- ldr r3, tf_read_pc
       0xe0830003#32,  -- add r0, r3, r3
       0xe49d3004#32,  -- pop { r3 }
       0xe51ff004#32] 4,  -- ldr pc, tf_next_pc
     [(.patchCond, 0), (.patchTemporary .rt, 8), (.patchTemporary .rt, 12), (.insn, 16),
       (.patchTemporary .rm, 16),
      (.patchTemporary .rn, 16), (.patchTemporary .rt, 20), (.nextPc, 28), (.readPc, 32),
      (.handlerAddress, 36),
      (.origPc, 40)]⟩
  | .armDpRdRn =>
    ⟨armCode
      [0xea000000#32,  -- b ool_handler
       0xe59ff018#32,  -- ldr pc, tf_next_pc
       0xe24dd004#32,  -- sub sp, #4
       0xe52d3004#32,  -- push { r3 }
       0xe59f3010#32,  -- ldr r3, tf_read_pc
       0xe0833000#32,  -- add r3, r3, r0
       0xe58d3004#32,  -- str r3, [sp, #4]
       0xe49d3004#32,  -- pop { r3 }
       0xe49df004#32] 4,  -- pop { pc }
     [(.patchCond, 0), (.patchTemporary .rt, 12), (.patchTemporary .rt, 16), (.insn, 20),
       (.patchTemporary .rd, 20),
      (.patchTemporary .rn, 20), (.patchTemporary .rt, 24), (.patchTemporary .rt, 28),
      (.nextPc, 36), (.readPc, 40),
      (.handlerAddress, 44), (.origPc, 48)]⟩
  | .armDpRdRm =>
    ⟨armCode
      [0xea000000#32,  -- b ool_handler
       0xe59ff018#32,  -- ldr pc, tf_next_pc
       0xe24dd004#32,  -- sub sp, #4
       0xe52d3004#32,  -- push { r3 }
       0xe59f3010#32,  -- ldr r3, tf_read_pc
       0xe0803003#32,  -- add r3, r0, r3
       0xe58d3004#32,  -- str r3, [sp, #4]
       0xe49d3004#32,  -- pop { r3 }
       0xe49df004#32] 4,  -- pop { pc }
     [(.patchCond, 0), (.patchTemporary .rt, 12), (.patchTemporary .rt, 16), (.insn, 20),
       (.patchTemporary .rd, 20),
      (.patchTemporary .rm, 20), (.patchTemporary .rt, 24), (.patchTemporary .rt, 28),
      (.nextPc, 36), (.readPc, 40),
      (.handlerAddress, 44), (.origPc, 48)]⟩
  | .armDpRdRnRm =>
    ⟨armCode
      [0xea000000#32,  -- b ool_handler
       0xe59ff018#32,  -- ldr pc, tf_next_pc
       0xe24dd004#32,  -- sub sp, #4
       0xe52d3004#32,  -- push { r3 }
       0xe59f3010#32,  -- ldr r3, tf_read_pc
       0xe0833003#32,  -- add r3, r3, r3
       0xe58d3004#32,  -- str r3, [sp, #4]
       0xe49d3004#32,  -- pop { r3 }
       0xe49df004#32] 4,  -- pop { pc }
     [(.patchCond, 0), (.patchTemporary .rt, 12), (.patchTemporary .rt, 16), (.insn, 20),
       (.patchTemporary .rd, 20),
      (.patchTemporary .rm, 20), (.patchTemporary .rn, 20), (.patchTemporary .rt, 24),
      (.patchTemporary .rt, 28),
      (.nextPc, 36), (.readPc, 40), (.handlerAddress, 44), (.origPc, 48)]⟩
  | .bA1 =>
    ⟨armCode
      [0xe59ff004#32,  -- ldr pc, tf_b_a1_target
       0xe51ff004#32] 4,  -- ldr pc, tf_next_pc
     [(.patchCond, 0), (.nextPc, 8), (.bA1Target, 12), (.handlerAddress, 16), (.origPc, 20)]⟩
  | .blImmA1 =>
    ⟨armCode
      [0xe59fe004#32,  -- ldr lr, tf_next_pc
       0xe59ff004#32,  -- ldr pc, tf_bl_imm_a1_target
       0xe51ff004#32] 4,  -- ldr pc, tf_next_pc
     [(.patchCond, 0), (.patchCond, 4), (.nextPc, 12), (.blImmA1Target, 16), (.handlerAddress, 20),
       (.origPc, 24)]⟩
  | .blxImmA2 =>
    ⟨armCode
      [0xe59fe000#32,  -- ldr lr, tf_next_pc
       0xe59ff000#32] 4,  -- ldr pc, tf_blx_imm_a2_target
     [(.nextPc, 8), (.blxImmA2Target, 12), (.handlerAddress, 16), (.origPc, 20)]⟩
  | .blxRegA1 =>
    ⟨armCode
      [0xe52d0004#32,  -- push { r0 }
       0xe59fe004#32,  -- ldr lr, tf_next_pc
       0xe49df004#32,  -- pop { pc }
       0xe51ff004#32] 3,  -- ldr pc, tf_next_pc
     [(.patchCond, 0), (.patch .rt .rm, 0), (.patchCond, 4), (.patchCond, 8), (.nextPc, 16),
       (.handlerAddress, 20),
      (.origPc, 24)]⟩
  | .thumbGeneric =>
    ⟨thumbCode
      [0xbf00#16,  -- nop
       0xf8df#16, 0xf000#16] 3,  -- ldr.w pc, tf_next_pc
     [(.insn, 0), (.nextPc, 6), (.handlerAddress, 10), (.origPc, 14)]⟩
  | .adrT1 =>
    ⟨thumbCode
      [0x4801#16,  -- ldr.n r0, tf_adr_t1_val
       0xf8df#16, 0xf004#16] 4,  -- ldr.w pc, tf_next_pc
     [(.patch .rd .rd, 0), (.adrT1Val, 6), (.nextPc, 10), (.handlerAddress, 14), (.origPc, 18)]⟩
  | .ldrLitT1 =>
    ⟨thumbCode
      [0x4802#16,  -- ldr.n r0, tf_ldr_lit_t1_address
       0x6808#16,  -- ldr.n r0, [r1]
       0xf8df#16, 0xf008#16,  -- ldr.w pc, tf_next_pc
       0xdede#16] 4,  -- padding
     [(.patch .rt .rt, 0), (.patch .rn .rt, 2), (.patch .rt .rt, 2), (.ldrLitT1Address, 10),
       (.nextPc, 14),
      (.handlerAddress, 18), (.origPc, 22)]⟩
  | .bT1 =>
    ⟨thumbCode
      [0xd001#16,  -- beq.n yes
       0xf8df#16, 0xf004#16,  -- ldr.w pc, tf_next_pc
       0xf8df#16, 0xf004#16] 4,  -- ldr.w pc, tf_b_t1_target
     [(.patchCond, 0), (.nextPc, 10), (.bT1Target, 14), (.handlerAddress, 18), (.origPc, 22)]⟩
  | .bT2 =>
    ⟨thumbCode
      [0xf8df#16, 0xf004#16,  -- ldr.w pc, tf_b_t2_target
       0xdede#16] 3,  -- padding
     [(.bT2Target, 6), (.handlerAddress, 10), (.origPc, 14)]⟩
  | .cbzT1 =>
    ⟨thumbCode
      [0xb108#16,  -- cbz r0, yes
       0xf8df#16, 0xf004#16,  -- ldr.w pc, tf_next_pc
       0xf8df#16, 0xf004#16] 4,  -- ldr.w pc, tf_cbz_t1_target
     [(.patchCond, 0), (.patch .rn .rn, 0), (.nextPc, 10), (.cbzT1Target, 14),
       (.handlerAddress, 18), (.origPc, 22)]⟩
  | .blxRegT1 =>
    ⟨thumbCode
      [0xf8df#16, 0xe004#16,  -- ldr.w lr, tf_next_pc
       0x4700#16] 3,  -- bx r0
     [(.patch .rm .rm, 4), (.nextPc, 6), (.handlerAddress, 10), (.origPc, 14)]⟩
  | .thumb2Generic =>
    ⟨thumbCode
      [0xf3af#16, 0x8000#16,  -- nop.w
       0xf8df#16, 0xf004#16,  -- ldr.w pc, tf_next_pc
       0xdede#16] 3,  -- padding
     [(.insn, 0), (.nextPc, 10), (.handlerAddress, 14), (.origPc, 18)]⟩
  | .adrT2 =>
    ⟨thumbCode
      [0xf8df#16, 0x0008#16,  -- ldr.w r0, tf_adr_t2_val
       0xf8df#16, 0xf008#16,  -- ldr.w pc, tf_next_pc
       0xdede#16] 4,  -- padding
     [(.patch .rt .rd, 0), (.adrT2Val, 10), (.nextPc, 14), (.handlerAddress, 18), (.origPc, 22)]⟩
  | .adrT3 =>
    ⟨thumbCode
      [0xf8df#16, 0x0008#16,  -- ldr.w r0, tf_adr_t3_val
       0xf8df#16, 0xf008#16,  -- ldr.w pc, tf_next_pc
       0xdede#16] 4,  -- padding
     [(.patch .rt .rd, 0), (.adrT3Val, 10), (.nextPc, 14), (.handlerAddress, 18), (.origPc, 22)]⟩
  | .ldrLitT2 =>
    ⟨thumbCode
      [0xf8df#16, 0x000c#16,  -- ldr.w r0, tf_ldr_lit_t2_address
       0xf8d1#16, 0x0000#16,  -- ldr.w r0, [r1]
       0xf8df#16, 0xf008#16,  -- ldr.w pc, tf_next_pc
       0xdede#16] 4,  -- padding
     [(.patch .rt .rt, 0), (.patch .rn .rt, 4), (.patch .rt .rt, 4), (.ldrLitT2Address, 14),
       (.nextPc, 18),
      (.handlerAddress, 22), (.origPc, 26)]⟩
  | .bT3 =>
    ⟨thumbCode
      [0xf000#16, 0x8002#16,  -- beq.w yes
       0xf8df#16, 0xf008#16,  -- ldr.w pc, tf_next_pc
       0xf8df#16, 0xf008#16,  -- ldr.w pc, tf_b_t3_target
       0xdede#16] 4,  -- padding
     [(.patchCond, 0), (.nextPc, 14), (.bT3Target, 18), (.handlerAddress, 22), (.origPc, 26)]⟩
  | .bT4 =>
    ⟨thumbCode
      [0xf8df#16, 0xf004#16,  -- ldr.w pc, tf_b_t4_target
       0xdede#16] 3,  -- padding
     [(.bT4Target, 6), (.handlerAddress, 10), (.origPc, 14)]⟩
  | .blT1 =>
    ⟨thumbCode
      [0xf8df#16, 0xe00c#16,  -- ldr.w lr, tf_next_pc
       0xf8df#16, 0xf004#16,  -- ldr.w pc, tf_bl_t1_target
       0xdede#16] 4,  -- padding
     [(.blT1Target, 10), (.nextPc, 14), (.handlerAddress, 18), (.origPc, 22)]⟩
  | .blxT2 =>
    ⟨thumbCode
      [0xf8df#16, 0xe00c#16,  -- ldr.w lr, tf_next_pc
       0xf8df#16, 0xf004#16,  -- ldr.w pc, tf_blx_t2_target
       0xdede#16] 4,  -- padding
     [(.blxT2Target, 10), (.nextPc, 14), (.handlerAddress, 18), (.origPc, 22)]⟩
  | .thumbNop =>
    ⟨thumbCode
      [0xf8df#16, 0xf004#16,  -- ldr.w pc, tf_next_pc
       0xdede#16] 3,  -- padding
     [(.nextPc, 6), (.handlerAddress, 10), (.origPc, 14)]⟩

/-- `template_fillout`. -/
def templateFillout (template : Template) (values : Values) : Option Code :=
  (templateCode template).fields.foldlM (fun code field => fillField values code field.2 field.1)
    (templateCode template).code

/-- `template_get_handler`. -/
def templateGetHandler (template : Template) (insnAddress handlerAddress : Word) (insn : Word)
    (kind : Kind) : Option Code :=
  templateFillout template
    ⟨handlerAddress, insnAddress, if kind = .thumb then insnAddress + 2#32 else insnAddress + 4#32,
      insn, kind⟩

end Adbi.ArmTemplate
