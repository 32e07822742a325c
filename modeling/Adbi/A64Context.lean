import Adbi.A64
import Adbi.Lib.Memory

/-! What an A64 handler sees of the tracepoint hit and what it leaves: the
assembly code before and after it (`HANDLER_BEGIN` of `a64_handler.h`) and the
accessors of `idk/include/handler.h`. The code is that of the assembly text. -/
namespace Adbi.A64Context
open Adbi.Lib
open Adbi.A64 (State Flags)

/-- The constants behind the code. -/
structure Constants where
  handlerAddress : BitVec 64
  nextPc : BitVec 64

/-- The instructions that the code is made of, with the stack pointer as the
only base register; number 31 is not used as a register. -/
inductive Insn where
  /-- `stp rt1, rt2, [sp, #offset]!` -/
  | stpPre (rt1 rt2 : BitVec 5) (offset : BitVec 64)
  /-- `stp rt1, rt2, [sp, #offset]` -/
  | stp (rt1 rt2 : BitVec 5) (offset : BitVec 64)
  /-- `ldp rt1, rt2, [sp, #offset]` -/
  | ldp (rt1 rt2 : BitVec 5) (offset : BitVec 64)
  /-- `ldr rt, [sp], #offset` -/
  | ldrPost (rt : BitVec 5) (offset : BitVec 64)
  /-- `ldr rt, label` -/
  | ldrConstant (rt : BitVec 5) (constant : Constants → BitVec 64)
  /-- `mov rd, sp` -/
  | movSp (rd : BitVec 5)
  /-- `mrs rt, nzcv` -/
  | mrsNzcv (rt : BitVec 5)
  /-- `msr nzcv, rt` -/
  | msrNzcv (rt : BitVec 5)
  /-- `blr rn` -/
  | blr (rn : BitVec 5)

/-- The register NZCV. -/
def nzcv (flags : Flags) : BitVec 64 :=
  (BitVec.ofBool flags.n ++ BitVec.ofBool flags.z ++ BitVec.ofBool flags.c ++
    BitVec.ofBool flags.v ++ 0#28).setWidth 64

def flagsOf (value : BitVec 64) : Flags :=
  ⟨value.getLsbD 31, value.getLsbD 30, value.getLsbD 29, value.getLsbD 28⟩

def storePair (s : State) (address : BitVec 64) (rt1 rt2 : BitVec 5) : State :=
  { s with memory := storeLE (storeLE s.memory address (s.x rt1)) (address + 8#64) (s.x rt2) }

def exec (constants : Constants) (s : State) : Insn → State
  | .stpPre rt1 rt2 offset => { storePair s (s.sp + offset) rt1 rt2 with sp := s.sp + offset }.next
  | .stp rt1 rt2 offset => (storePair s (s.sp + offset) rt1 rt2).next
  | .ldp rt1 rt2 offset =>
    ((s.writeX rt1 (loadLE 64 s.memory (s.sp + offset))).writeX rt2
      (loadLE 64 s.memory (s.sp + offset + 8#64))).next
  | .ldrPost rt offset => { s.writeX rt (loadLE 64 s.memory s.sp) with sp := s.sp + offset }.next
  | .ldrConstant rt constant => (s.writeX rt (constant constants)).next
  | .movSp rd => (s.writeX rd s.sp).next
  | .mrsNzcv rt => (s.writeX rt (nzcv s.flags)).next
  | .msrNzcv rt => { s with flags := flagsOf (s.x rt) }.next
  | .blr rn => (s.writeX 30#5 (s.pc + 4#64)).goto (s.x rn)

def run (constants : Constants) (code : List Insn) (s : State) : State := code.foldl (exec constants) s

/-- `HANDLER_BEGIN` up to the call of the handler. -/
def beforeHandler : List Insn :=
  [.stpPre 20 30 (-0x10#64),
   .ldrConstant 30 Constants.nextPc,
   .mrsNzcv 20,
   .stpPre 29 30 (-0xb0#64),
   .stp 19 20 0xa0#64,
   .stp 16 17 0x90#64,
   .stp 14 15 0x80#64,
   .stp 12 13 0x70#64,
   .stp 10 11 0x60#64,
   .stp 8 9 0x50#64,
   .stp 6 7 0x40#64,
   .stp 4 5 0x30#64,
   .stp 2 3 0x20#64,
   .stp 0 1 0x10#64,
   .movSp 29,
   .movSp 19,
   .ldrConstant 16 Constants.handlerAddress,
   .blr 16]

/-- `HANDLER_BEGIN` after the call, up to the label `ool`. -/
def afterHandler : List Insn :=
  [.ldp 0 1 0x10#64,
   .ldp 2 3 0x20#64,
   .ldp 4 5 0x30#64,
   .ldp 6 7 0x40#64,
   .ldp 8 9 0x50#64,
   .ldp 10 11 0x60#64,
   .ldp 12 13 0x70#64,
   .ldp 14 15 0x80#64,
   .ldp 16 17 0x90#64,
   .ldp 19 20 0xa0#64,
   .msrNzcv 20,
   .ldp 20 30 0xb0#64,
   .ldrPost 29 0xc0#64]

/-- The constants of the template for a tracepoint (`template_fillout`). -/
def constantsAt (address handler : BitVec 64) : Constants := ⟨handler, address + 4#64⟩

/-- What a handler may do, from its first instruction to its return: it keeps
`x19` to `x29`, the stack pointer and the memory from there on, and it uses neither
`x18` nor the SIMD registers. -/
structure Respects (s s' : State) : Prop where
  saved : ∀ r, 18#5 ≤ r → r ≤ 29#5 → s'.x r = s.x r
  sp : s'.sp = s.sp
  memory : ∀ a, s.sp ≤ a → s'.memory a = s.memory a
  simd : s'.simd = s.simd
  pc : s'.pc = s.x 30#5

/-! ## `handler.h` -/

/-- The offsets of `struct context_info_t`. -/
def fpOffset : BitVec 64 := 0
def lrOffset : BitVec 64 := 8
def regsOffset : BitVec 64 := 16
def nzcvOffset : BitVec 64 := 168
def r20Offset : BitVec 64 := 176
def savedLrOffset : BitVec 64 := 184
def contextSize : BitVec 64 := 192

/-- A member of `*context_info`; the pointer is in `x19`. -/
def member (s : State) (offset : BitVec 64) : BitVec 64 := loadLE 64 s.memory (s.x 19#5 + offset)

/-- `get_reg`; from 32 on it returns nothing. -/
def getReg (s : State) (i : Nat) : Option (BitVec 64) :=
  if i ≤ 17 then some (member s (regsOffset + BitVec.ofNat 64 (8 * i)))
  else match i with
    | 18 => some (s.x 18#5)
    | 19 => some (member s (regsOffset + 144#64))
    | 20 => some (member s r20Offset)
    | 21 => some (s.x 21#5)
    | 22 => some (s.x 22#5)
    | 23 => some (s.x 23#5)
    | 24 => some (s.x 24#5)
    | 25 => some (s.x 25#5)
    | 26 => some (s.x 26#5)
    | 27 => some (s.x 27#5)
    | 28 => some (s.x 28#5)
    | 29 => some (member s fpOffset)
    | 30 => some (member s savedLrOffset)
    | 31 => some 0
    | _ => none

def getNzcv (s : State) : BitVec 64 := member s nzcvOffset
def getNextPc (s : State) : BitVec 64 := member s lrOffset
def getPc (s : State) : BitVec 64 := member s lrOffset - 4#64
def getSp (s : State) : BitVec 64 := s.x 19#5 + contextSize

end Adbi.A64Context
