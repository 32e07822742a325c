import Adbi.Lib.Words

/-! What an instruction reads, as far as it matters for where it stands: the
register operands of the ARM, Thumb and A64 instructions that can be the pc,
and the instructions that use the pc without naming it. Operands that cannot be
the pc (low registers, the registers of A64, flags, memory) are left out. -/
namespace Adbi.Operands
open Adbi.Lib

/-- An instruction word of one of the instruction sets. -/
inductive Insn where
  | thumb (w : BitVec 16)
  | thumb32 (w : BitVec 32)
  | arm (w : BitVec 32)
  | a64 (w : BitVec 32)

inductive Operand where
  /-- The register whose number is in the four bits from `low` on. -/
  | reg (low : Nat)
  /-- The same with the highest bit of the number apart. -/
  | split (high low : Nat)
  /-- The second register of a pair. -/
  | second (low : Nat)
  /-- The registers of a list. -/
  | list
  /-- The pc: of a pc-relative address, a branch target or a return address that is left in the link
  register. -/
  | pc

/-- What an operand stands for. -/
inductive Source where
  | register (number : Nat)
  | pc
  deriving DecidableEq

/-- Register 15 is the pc. -/
def source (number : Nat) : Source := if number = 15 then .pc else .register number

def Operand.sources (w : BitVec n) : Operand → List Source
  | .reg low => [source (field w low 4).toNat]
  | .split high low => [source (field w high 1 ++ field w low 3).toNat]
  | .second low => [source ((field w low 4).toNat + 1)]
  | .list => ((List.range 16).filter fun i => w.getLsbD i).map source
  | .pc => [.pc]

/-- The operands that an instruction reads: those that may be the pc, and those
for which the pc is unpredictable. -/
structure Reads where
  may : List Operand
  never : List Operand

def armReads : List (Pattern × Reads) :=
  [("1111101-------------------------", ⟨[.pc], []⟩),  -- blx (immediate)
   ("11110101--01--------------------", ⟨[.reg 16], []⟩),  -- pld
   ("11110100-101--------------------", ⟨[.reg 16], []⟩),  -- pli
   ("11110111--01---------------0----", ⟨[.reg 16], [.reg 0]⟩),
   ("11110110-101---------------0----", ⟨[.reg 16], [.reg 0]⟩),
   ("1111100--0-1--------------------", ⟨[], [.reg 16]⟩),  -- rfe
   ("1111110-------------------------", ⟨[.reg 16], []⟩),  -- ldc2, stc2
   ("1111----------------------------", ⟨[], []⟩),
   ("----00010-00------------0000----", ⟨[], []⟩),  -- mrs
   ("----00010-10------------0000----", ⟨[], [.reg 0]⟩),  -- msr
   ("----00010010------------0001----", ⟨[.reg 0], []⟩),  -- bx
   ("----00010110------------0001----", ⟨[], [.reg 0]⟩),  -- clz
   ("----00010010------------0010----", ⟨[], [.reg 0]⟩),  -- bxj
   ("----00010010------------0011----", ⟨[.pc], [.reg 0]⟩),  -- blx (register)
   ("----00010--0------------0101----", ⟨[], [.reg 16, .reg 0]⟩),  -- qadd, qsub, qdadd, qdsub
   ("----00010--0------------0-------", ⟨[], []⟩),  -- bkpt, smc, hvc, and encodings that are not allocated
   ("----00010100------------1--0----", ⟨[], [.reg 0, .reg 8, .reg 12, .reg 16]⟩),  -- smlal
   ("----00010110------------1--0----", ⟨[], [.reg 0, .reg 8]⟩),  -- smul
   ("----00010010------------1-10----", ⟨[], [.reg 0, .reg 8]⟩),  -- smulw
   ("----00010--0------------1--0----", ⟨[], [.reg 0, .reg 8, .reg 12]⟩),  -- smla, smlaw
   ("----0000000-------------1001----", ⟨[], [.reg 0, .reg 8]⟩),  -- mul
   ("----000000--------------1001----", ⟨[], [.reg 0, .reg 8, .reg 12]⟩),  -- mla
   ("----00000100------------1001----", ⟨[], [.reg 0, .reg 8, .reg 12, .reg 16]⟩),  -- umaal
   ("----00000110------------1001----", ⟨[], [.reg 0, .reg 8, .reg 12]⟩),  -- mls
   ("----00001-0-------------1001----", ⟨[], [.reg 0, .reg 8]⟩),  -- umull, smull
   ("----00001-1-------------1001----", ⟨[], [.reg 0, .reg 8, .reg 12, .reg 16]⟩),  -- umlal, smlal
   ("----00010-00------------1001----", ⟨[], [.reg 16, .reg 0]⟩),  -- swp
   ("----00011--1------------1001----", ⟨[], [.reg 16]⟩),  -- ldrex
   ("----00011010------------1001----", ⟨[], [.reg 16, .reg 0, .second 0]⟩),  -- strexd
   ("----00011--0------------1001----", ⟨[], [.reg 16, .reg 0]⟩),  -- strex
   ("----000--0-0------------1011----", ⟨[.reg 16], [.reg 0, .reg 12]⟩),  -- strh
   ("----000--0-0------------1111----", ⟨[.reg 16], [.reg 0, .reg 12, .second 12]⟩),  -- strd
   ("----000--0-1------------1011----", ⟨[.reg 16], [.reg 0]⟩),  -- ldrh
   ("----000--0--------------11-1----", ⟨[.reg 16], [.reg 0]⟩),  -- ldrsb, ldrsh, ldrd
   ("----000--1-0------------1011----", ⟨[.reg 16], [.reg 12]⟩),
   ("----000--1-0------------1111----", ⟨[.reg 16], [.reg 12, .second 12]⟩),
   ("----000--1-1------------1011----", ⟨[.reg 16], []⟩),
   ("----000--1--------------11-1----", ⟨[.reg 16], []⟩),
   ("----0001101----------------0----", ⟨[.reg 0], []⟩),  -- mov, with a shift by an immediate
   ("----0001111----------------0----", ⟨[.reg 0], []⟩),  -- mvn
   ("----000--------------------0----", ⟨[.reg 16, .reg 0], []⟩),
   ("----0001101-------------0--1----", ⟨[], [.reg 0, .reg 8]⟩),  -- mov, with a shift by a register
   ("----0001111-------------0--1----", ⟨[], [.reg 0, .reg 8]⟩),
   ("----000-----------------0--1----", ⟨[], [.reg 16, .reg 0, .reg 8]⟩),
   ("----00110--0--------------------", ⟨[], []⟩),  -- movw, movt, msr (immediate), hints
   ("----0011101---------------------", ⟨[], []⟩),  -- mov (immediate)
   ("----0011111---------------------", ⟨[], []⟩),
   ("----001-------------------------", ⟨[.reg 16], []⟩),
   ("----010--0-0--------------------", ⟨[.reg 16, .reg 12], []⟩),  -- str
   ("----010--1-0--------------------", ⟨[.reg 16], [.reg 12]⟩),  -- strb
   ("----010-------------------------", ⟨[.reg 16], []⟩),  -- ldr, ldrb
   ("----011--------------------1----", ⟨[], []⟩),  -- media instructions, no operand of which may be the pc
   ("----011--0-0--------------------", ⟨[.reg 16, .reg 12], [.reg 0]⟩),
   ("----011--1-0--------------------", ⟨[.reg 16], [.reg 0, .reg 12]⟩),
   ("----011-------------------------", ⟨[.reg 16], [.reg 0]⟩),
   ("----100----0--------------------", ⟨[.list], [.reg 16]⟩),  -- stm
   ("----100----1--------------------", ⟨[], [.reg 16]⟩),  -- ldm
   ("----101-------------------------", ⟨[.pc], []⟩),  -- b, bl
   ("----11000100--------------------", ⟨[], [.reg 16, .reg 12]⟩),  -- mcrr
   ("----110-------------------------", ⟨[.reg 16], []⟩),  -- ldc, stc
   ("----1110---0---------------1----", ⟨[], [.reg 12]⟩)]  -- mcr

def thumbReads : List (Pattern × Reads) :=
  [("01000100--------", ⟨[.split 7 0, .reg 3], []⟩),  -- add
   ("01000101--------", ⟨[], [.split 7 0, .reg 3]⟩),  -- cmp
   ("01000110--------", ⟨[.reg 3], []⟩),  -- mov
   ("010001110-------", ⟨[.reg 3], []⟩),  -- bx
   ("010001111-------", ⟨[.pc], [.reg 3]⟩),  -- blx (register)
   ("01001-----------", ⟨[.pc], []⟩),  -- ldr (literal)
   ("10100-----------", ⟨[.pc], []⟩),  -- adr
   ("1011-0-1--------", ⟨[.pc], []⟩),  -- cbz, cbnz
   ("1101111---------", ⟨[], []⟩),  -- udf, svc
   ("1101------------", ⟨[.pc], []⟩),  -- b
   ("11100-----------", ⟨[.pc], []⟩)]

def thumb32Reads : List (Pattern × Reads) :=
  [("1110100--0-0--------------------", ⟨[], [.reg 16, .list]⟩),  -- stm
   ("1110100--0-1--------------------", ⟨[], [.reg 16]⟩),  -- ldm
   ("111010001101------------000-----", ⟨[.reg 16], [.reg 0]⟩),  -- tbb, tbh
   ("1110100--1-0--------------------", ⟨[], [.reg 16, .reg 12, .reg 8]⟩),  -- strd, strex
   ("1110100--1-1--------------------", ⟨[.reg 16], []⟩),  -- ldrd, ldrex
   ("11101010010-1111----------------", ⟨[], [.reg 0]⟩),  -- mov
   ("11101010011-1111----------------", ⟨[], [.reg 0]⟩),  -- mvn
   ("1110101-------------------------", ⟨[], [.reg 16, .reg 0]⟩),
   ("111-11000100--------------------", ⟨[], [.reg 16, .reg 12]⟩),  -- mcrr
   ("111-110-------------------------", ⟨[.reg 16], []⟩),  -- ldc, stc
   ("111-1110---0---------------1----", ⟨[], [.reg 12]⟩),  -- mcr
   ("111-11--------------------------", ⟨[], []⟩),
   ("11110-00010-11110---------------", ⟨[], []⟩),  -- mov (immediate)
   ("11110-00011-11110---------------", ⟨[], []⟩),  -- mvn
   ("11110-0---------0---------------", ⟨[], [.reg 16]⟩),
   ("11110-100000----0---------------", ⟨[.reg 16], []⟩),  -- addw, adr
   ("11110-101010----0---------------", ⟨[.reg 16], []⟩),  -- subw, adr
   ("11110-10-100----0---------------", ⟨[], []⟩),  -- movw, movt
   ("11110-11011011110---------------", ⟨[], []⟩),  -- bfc
   ("11110-1---------0---------------", ⟨[], [.reg 16]⟩),
   ("11110011100-----10-0------------", ⟨[], [.reg 16]⟩),  -- msr
   ("111100111100----10-0------------", ⟨[], [.reg 16]⟩),  -- bxj
   ("11110-111-------10-0------------", ⟨[], []⟩),
   ("11110-----------1---------------", ⟨[.pc], []⟩),  -- b, bl, blx (immediate)
   ("11111000---0--------000000------", ⟨[], [.reg 16, .reg 12, .reg 0]⟩),  -- str, strb, strh (register)
   ("11111000---0--------------------", ⟨[], [.reg 16, .reg 12]⟩),
   ("11111001---0--------------------", ⟨[], [.reg 16]⟩),
   ("1111100----11111----------------", ⟨[.pc], []⟩),  -- loads of literals
   ("1111100-0--1--------000000------", ⟨[], [.reg 0]⟩),
   ("1111100----1--------------------", ⟨[], []⟩),
   ("111110100---1111--------1-------", ⟨[], [.reg 0]⟩),  -- sxtb, sxth, uxtb, uxth
   ("11111010------------------------", ⟨[], [.reg 16, .reg 0]⟩),
   ("111110110-------1111------------", ⟨[], [.reg 16, .reg 0]⟩),  -- mul
   ("111110110-----------------------", ⟨[], [.reg 16, .reg 0, .reg 12]⟩),
   ("1111101110-1--------------------", ⟨[], [.reg 16, .reg 0]⟩),  -- sdiv, udiv
   ("111110111-----------------------", ⟨[], [.reg 16, .reg 0]⟩)]

def a64Reads : List (Pattern × Reads) :=
  [("---10000------------------------", ⟨[.pc], []⟩),  -- adr, adrp
   ("-00101--------------------------", ⟨[.pc], []⟩),  -- b, bl
   ("-011010-------------------------", ⟨[.pc], []⟩),  -- cbz, cbnz
   ("-011011-------------------------", ⟨[.pc], []⟩),  -- tbz, tbnz
   ("0101010-------------------------", ⟨[.pc], []⟩),  -- b.cond
   ("1101011000111111000000-----00000", ⟨[.pc], []⟩),  -- blr
   ("--011-00------------------------", ⟨[.pc], []⟩)]  -- loads of literals

/-- What the table says about a word; other words read no such operand. -/
def readsOf (table : List (Pattern × Reads)) (w : BitVec n) : Reads := (decodeWith table w).getD ⟨[], []⟩

/-- The sources of the operands that may be the pc. -/
def Insn.may : Insn → List Source
  | .thumb w => (readsOf thumbReads w).may.flatMap (·.sources w)
  | .thumb32 w => (readsOf thumb32Reads w).may.flatMap (·.sources w)
  | .arm w => (readsOf armReads w).may.flatMap (·.sources w)
  | .a64 w => (readsOf a64Reads w).may.flatMap (·.sources w)

/-- Those of the operands for which the pc is unpredictable. -/
def Insn.never : Insn → List Source
  | .thumb w => (readsOf thumbReads w).never.flatMap (·.sources w)
  | .thumb32 w => (readsOf thumb32Reads w).never.flatMap (·.sources w)
  | .arm w => (readsOf armReads w).never.flatMap (·.sources w)
  | .a64 w => (readsOf a64Reads w).never.flatMap (·.sources w)

def Insn.Unpredictable (insn : Insn) : Prop := .pc ∈ insn.never

/-- What reading the pc gives, at an address. -/
def Insn.pcValue (insn : Insn) (address : BitVec 64) : BitVec 64 :=
  match insn with
  | .thumb _ | .thumb32 _ => address + 4
  | .arm _ => address + 8
  | .a64 _ => address

/-- The values that the instruction is executed with, at an address and with the registers `r`. -/
def Insn.inputs (insn : Insn) (r : Nat → BitVec 64) (address : BitVec 64) : List (BitVec 64) :=
  (insn.may ++ insn.never).map fun
    | .register number => r number
    | .pc => insn.pcValue address

/-- The instruction is executed with the same values wherever it stands. -/
def Insn.PositionIndependent (insn : Insn) : Prop :=
  ∀ r address address', insn.inputs r address = insn.inputs r address'

end Adbi.Operands
