import Adbi.Lib.Memory

/-! What a handler in A32 or Thumb code sees of the tracepoint hit and what it
leaves: the assembly code before and after it (`HANDLER_BEGIN` of `arm_handler.h`
and `thumb_handler.h`) and the accessors of `idk/include/handler.h`. The code is
that of the assembly text. -/
namespace Adbi.ArmContext
open Adbi.Lib

abbrev Word := BitVec 32

/-- The registers `r0` to `r14`, by number, of which `r13` is the stack pointer
and `r14` the link register. -/
structure State where
  r : BitVec 4 → Word
  cpsr : Word
  memory : Word → BitVec 8

def State.writeR (s : State) (n : BitVec 4) (value : Word) : State :=
  { s with r := fun q => if q = n then value else s.r q }

/-- The stack pointer. -/
def State.sp (s : State) : Word := s.r 13#4

/-- The constants behind the code, and the address behind the call of the
handler, which depends on the instruction set. -/
structure Constants where
  handlerAddress : Word
  origPc : Word
  returnAddress : Word

inductive Insn where
  /-- `push { registers }`, in ascending order -/
  | push (registers : List (BitVec 4))
  /-- `pop { registers }` -/
  | pop (registers : List (BitVec 4))
  /-- `ldr rt, label` -/
  | ldrConstant (rt : BitVec 4) (constant : Constants → Word)
  /-- `add rd, sp, #0` -/
  | addSp (rd : BitVec 4)
  /-- `mrs rd, CPSR` -/
  | mrsCpsr (rd : BitVec 4)
  /-- `msr CPSR_f, rn` -/
  | msrCpsrF (rn : BitVec 4)
  /-- `blx rm` -/
  | blx (rm : BitVec 4)

/-- What `mrs` reads in User mode. The bits of the instruction set state are
zero, and the architecture leaves the mode and the masks open (`unknown`). -/
def readCpsr (unknown cpsr : Word) : Word := (cpsr &&& 0xf8ff0000#32) ||| (unknown &&& 0x000003df#32)

/-- What `msr` with the field `f` writes: the flags N, Z, C, V and Q. -/
def writeFlags (cpsr value : Word) : Word := (cpsr &&& 0x07ffffff#32) ||| (value &&& 0xf8000000#32)

/-- Stores registers, the first one at the lowest address. -/
def storeAll (r : BitVec 4 → Word) (memory : Word → BitVec 8) (address : Word) : List (BitVec 4) →
    Word → BitVec 8
  | [] => memory
  | n :: rest => storeAll r (storeLE memory address (r n)) (address + 4#32) rest

def loadAll (s : State) (address : Word) : List (BitVec 4) → State
  | [] => s
  | n :: rest => loadAll (s.writeR n (loadLE 32 s.memory address)) (address + 4#32) rest

def exec (constants : Constants) (unknown : Word) (s : State) : Insn → State
  | .push registers =>
    let address := s.sp - BitVec.ofNat 32 (4 * registers.length)
    { s with memory := storeAll s.r s.memory address registers }.writeR 13#4 address
  | .pop registers =>
    (loadAll s s.sp registers).writeR 13#4 (s.sp + BitVec.ofNat 32 (4 * registers.length))
  | .ldrConstant rt constant => s.writeR rt (constant constants)
  | .addSp rd => s.writeR rd (s.sp + 0#32)
  | .mrsCpsr rd => s.writeR rd (readCpsr unknown s.cpsr)
  | .msrCpsrF rn => { s with cpsr := writeFlags s.cpsr (s.r rn) }
  -- the branch itself is the call of the handler
  | .blx _ => s.writeR 14#4 constants.returnAddress

def run (constants : Constants) (unknown : Word) (code : List Insn) (s : State) : State :=
  code.foldl (exec constants unknown) s

/-- `r0` to `r6`, `fp`, `ip` and `lr`. -/
def scratch : List (BitVec 4) := [0, 1, 2, 3, 4, 5, 6, 11, 12, 14]

/-- `HANDLER_BEGIN` up to the call of the handler, the same for both instruction sets. -/
def beforeHandler : List Insn :=
  [.push scratch,
   .mrsCpsr 0,
   .ldrConstant 1 Constants.origPc,
   .push [0, 1],
   .addSp 12,
   .ldrConstant 3 Constants.handlerAddress,
   .blx 3]

/-- `HANDLER_BEGIN` after the call, up to the label `ool`. -/
def afterHandler : List Insn :=
  [.pop [0, 1],
   .msrCpsrF 0,
   .pop scratch]

/-- The constants of the template for a tracepoint (`template_fillout`). -/
def constantsAt (thumb : Bool) (address handler returnAddress : Word) : Constants :=
  ⟨handler, if thumb then address ||| 1#32 else address, returnAddress⟩

/-- What a handler may do, from its first instruction to its return: it keeps
`r4` to `r11`, the stack pointer and the memory from there on. -/
structure Respects (s s' : State) : Prop where
  saved : ∀ n, 4#4 ≤ n → n ≤ 11#4 → s'.r n = s.r n
  sp : s'.sp = s.sp
  memory : ∀ a, s.sp ≤ a → s'.memory a = s.memory a

/-! ## `handler.h` -/

/-- The offsets of `struct context_info_t`. -/
def cpsrOffset : Word := 0
def pcOffset : Word := 4
def lowregsOffset : Word := 8
def fpOffset : Word := 36
def ipOffset : Word := 40
def lrOffset : Word := 44
def contextSize : Word := 48

/-- A member of `*context_info`; the pointer is in `ip`. -/
def member (s : State) (offset : Word) : Word := loadLE 32 s.memory (s.r 12#4 + offset)

/-- `get_reg`. -/
def getReg (s : State) (i : Nat) : Word :=
  if i ≤ 6 then member s (lowregsOffset + BitVec.ofNat 32 (4 * i))
  else match i with
    | 7 => s.r 7#4
    | 8 => s.r 8#4
    | 9 => s.r 9#4
    | 10 => s.r 10#4
    | 11 => member s fpOffset
    | 12 => member s ipOffset
    | 13 => s.r 12#4 + contextSize
    | 14 => member s lrOffset
    | 15 => member s pcOffset
    | _ => 0xffffffff#32

def getCpsr (s : State) : Word := member s cpsrOffset

end Adbi.ArmContext
