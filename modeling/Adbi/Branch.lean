import Adbi.ArmTemplate

/-! The relative jumps that the servers write over code, after the `arch.h` of
`arch/arm` and `arch/arm64`: whether one can span a distance, its encoding, and
the check of an instruction word. The branches of the architectures, with where
they lead, are described on their own. -/
namespace Adbi.Branch
open Adbi.Lib

abbrev Word := BitVec 32

/-- The number of addresses between two, in either direction. -/
def distance (addr dest : BitVec n) : BitVec n := if addr < dest then dest - addr else addr - dest

/-- The scattered fields of the 32-bit Thumb branch, over the bits of `base`. -/
def scatter (base : Word) (jump : BitVec n) : Word :=
  let s := BitVec.ofBool (jump.getLsbD 24)
  let i1 := BitVec.ofBool (jump.getLsbD 23)
  let i2 := BitVec.ofBool (jump.getLsbD 22)
  let j1 := ~~~(i1 ^^^ s)
  let j2 := ~~~(i2 ^^^ s)
  let imm10 := ((jump &&& 0x003ff000#n) <<< 4).setWidth 32
  let imm11 := ((jump &&& 0xffe#n) >>> 1).setWidth 32
  base ||| (s.setWidth 32 <<< 26) ||| imm10 ||| (j1.setWidth 32 <<< 13) |||
    (j2.setWidth 32 <<< 11) ||| imm11

/-- `is_thumb2_halfword` and `is_t32_32_halfword`. -/
def isWideHalfword (insn : Word) : Bool := 0xe800#32 ≤ insn &&& 0xf800#32

/-! ## The arm server -/

namespace Arm

/-- `insn_kind_t`. -/
abbrev Kind := ArmTemplate.Kind

/-- `arm_check_align`. -/
def checkAlign (address : BitVec 32) : Kind → Bool
  | .arm => address &&& 3#32 == 0
  | .thumb | .thumb2 => address &&& 1#32 == 0

/-- `arm_address_to_pc`. -/
def addressToPc (kind : Kind) (addr : BitVec 32) : BitVec 32 :=
  if kind = .arm then addr + 8 else addr + 4

/-- `arm_check_relative_jump_kind`. -/
def checkRelativeJumpKind (kind : Kind) (addr dest : BitVec 32) : Bool :=
  let addr := addressToPc kind addr
  if 33554432#32 < distance addr dest then false
  else
    let jump := (dest - addr).toInt
    match kind with
    | .arm => -33554432 ≤ jump && jump ≤ 33554428
    | .thumb => -2048 ≤ jump && jump ≤ 2046
    | .thumb2 => -16777216 ≤ jump && jump ≤ 16777214

/-- `thumb2_branch`. -/
def thumb2Branch (jump : BitVec 32) : Word := scatter 0xf0009000#32 jump

/-- `arm_get_relative_jump_insn`; a failed assertion has no result. -/
def getRelativeJumpInsn (kind : Kind) (addr dest : BitVec 32) : Option Word :=
  let addr := addressToPc kind addr
  if distance addr dest ≤ 33554432#32 then
    let jump := dest - addr
    match kind with
    | .arm => some (0xea000000#32 ||| (jump.sshiftRight 2 &&& 0xffffff#32))
    | .thumb => some (0xe000#32 ||| (jump.sshiftRight 1 &&& 0x7ff#32))
    | .thumb2 => some (thumb2Branch jump)
  else none

/-- `arm_check_insn`: the kind of the instruction, unless it is invalid. -/
def checkInsn (insn : Word) : Kind → Option Kind
  | .arm => some .arm
  | .thumb | .thumb2 =>
    if insn < 0xe800#32 then some .thumb
    else if isWideHalfword (insn >>> 16) then some .thumb2
    else none

end Arm

/-! ## The arm64 server -/

namespace Arm64

/-- `insn_kind_t`. -/
inductive Kind where
  | a64 | a32 | t32_16 | t32_32
  deriving DecidableEq, Repr

/-- `arm64_check_align`. -/
def checkAlign (address : BitVec 64) : Kind → Bool
  | .t32_16 | .t32_32 => address &&& 1#64 == 0
  | .a32 | .a64 => address &&& 3#64 == 0

/-- `arm64_address_to_pc`. -/
def addressToPc (addr : BitVec 64) : Kind → BitVec 64
  | .t32_16 | .t32_32 => addr + 4
  | .a32 => addr + 8
  | .a64 => addr

/-- `arm64_check_relative_jump_kind`. -/
def checkRelativeJumpKind (kind : Kind) (addr dest : BitVec 64) : Bool :=
  let addr := addressToPc addr kind
  if 134217728#64 < distance addr dest then false
  else
    let jump := (dest - addr).toInt
    match kind with
    | .t32_16 => -2048 ≤ jump && jump ≤ 2046
    | .t32_32 => -16777216 ≤ jump && jump ≤ 16777214
    | .a32 => -33554432 ≤ jump && jump ≤ 33554428
    | .a64 => -134217728 ≤ jump && jump ≤ 134217724

/-- `t32_16_branch`. -/
def t32_16Branch (jump : BitVec 64) : Word := scatter 0xe000#32 jump

/-- `arm64_get_relative_jump_insn`; a failed assertion has no result. -/
def getRelativeJumpInsn (kind : Kind) (addr dest : BitVec 64) : Option Word :=
  let addr := addressToPc addr kind
  if distance addr dest ≤ 134217728#64 then
    let jump := dest - addr
    match kind with
    | .t32_16 => some (t32_16Branch jump)
    | .t32_32 => some (0xf0009000#32 ||| (jump.sshiftRight 1 &&& 0x7ff#64).setWidth 32)
    | .a32 => some (0xea000000#32 ||| (jump.sshiftRight 2 &&& 0xffffff#64).setWidth 32)
    | .a64 => some (0x14000000#32 ||| (jump.sshiftRight 2 &&& 0x3ffffff#64).setWidth 32)
  else none

/-- `arm64_check_insn`: the kind of the instruction, unless it is invalid. -/
def checkInsn (insn : Word) : Kind → Option Kind
  | .t32_16 | .t32_32 =>
    if insn < 0xe800#32 then some .t32_16
    else if isWideHalfword (insn >>> 16) then some .t32_32
    else none
  | .a32 => some .a32
  | .a64 => some .a64

end Arm64

/-! ## The architectures -/

/-- The encodings of an unconditional branch: that of A64, A1 of ARM, and T2 and T4 of Thumb. -/
inductive Encoding where
  | a64 | a1 | t2 | t4
  deriving DecidableEq, Repr

namespace Encoding

/-- The words of an encoding. Those of T2 are 16 bits long. -/
def pattern : Encoding → Pattern
  | .a64 => "000101--------------------------"
  | .a1 => "11101010------------------------"
  | .t2 => "000000000000000011100-----------"
  | .t4 => "11110-----------10-1------------"

/-- How far the pc is ahead of the instruction. -/
def ahead : Encoding → Nat
  | .a64 => 0
  | .a1 => 8
  | .t2 | .t4 => 4

/-- The offset of the T4 encoding: `S:I1:I2:imm10:imm11:'0'` with `I1 = NOT(J1 EOR S)` and `I2 =
NOT(J2 EOR S)`. -/
def offsetT4 (insn : Word) : BitVec 25 :=
  let s := field insn 26 1
  let i1 := ~~~(field insn 13 1 ^^^ s)
  let i2 := ~~~(field insn 11 1 ^^^ s)
  s ++ i1 ++ i2 ++ field insn 16 10 ++ field insn 0 11 ++ 0#1

/-- What a branch adds to the pc. -/
def offset (insn : Word) : Encoding → Int
  | .a64 => (field insn 0 26 ++ 0#2).toInt
  | .a1 => (field insn 0 24 ++ 0#2).toInt
  | .t2 => (field insn 0 11 ++ 0#1).toInt
  | .t4 => (offsetT4 insn).toInt

/-- The word is a branch of this encoding, and at `addr` it leads to `dest`. -/
def Leads (encoding : Encoding) (insn : Word) (addr dest : BitVec n) : Prop :=
  wordMatches insn encoding.pattern = true ∧
    addr + BitVec.ofNat n encoding.ahead + BitVec.ofInt n (encoding.offset insn) = dest

/-- The offset of the word, whatever its condition, reaches from `addr` to `dest` without a
wrap-around. -/
def Spans (encoding : Encoding) (insn : Word) (addr dest : BitVec n) : Prop :=
  addr.toNat + encoding.ahead < 2 ^ n ∧ (addr.toNat : Int) + encoding.ahead + encoding.offset insn =
    dest.toNat

end Encoding

/-- The encoding that a kind of the arm server stands for. -/
def Arm.encoding : Arm.Kind → Encoding
  | .arm => .a1
  | .thumb => .t2
  | .thumb2 => .t4

/-- The encoding that a kind of the arm64 server stands for. -/
def Arm64.encoding : Arm64.Kind → Encoding
  | .a64 => .a64
  | .a32 => .a1
  | .t32_16 => .t2
  | .t32_32 => .t4

end Adbi.Branch
