import Adbi.Branch
import Adbi.CallStack
import Adbi.Tracee

/-! Calling a function in the inferior, after `arch/*/fncall.c`, with what it
needs of `process/thread.c`, `procutil/wait.c` and `arch/*/patch.c`. The two
servers differ in their registers and contexts, in the stack, and in that the
arm64 server checks the execution state. While the call runs the thread is in
slave mode; what it does until it is reported again, to its registers and to the
memory, is up to the environment. Clone and exec events are left out. -/
namespace Adbi.Fncall
open Adbi.Lib Adbi.MemWrite Adbi.CallStack
open Adbi.Branch (Word isWideHalfword)
open Adbi.Tracee (Signo)

/-- `insn_kind_t` of the arm64 server. The arm server has the same kinds but `a64`. -/
abbrev Kind := Branch.Arm64.Kind

/-- How the code ends without returning: a failed assertion, `adbi_bug`, a wait
without a report, or a loop without end. -/
inductive Fault where
  | assertion | bug | blocked | unending
  deriving DecidableEq, Repr

/-! ## Instructions of the inferior -/

section
variable {n : Nat}

/-- `mem_read`. It fails for its callers when it reads less than they want. -/
def memRead (inferior : Inferior n) (address : BitVec n) (size : Nat) : Option (Nat → BitVec 8) :=
  if (List.range size).all fun i => inferior.mapped (wordOf (address + BitVec.ofNat n i)) then
    some fun i => inferior.memory (address + BitVec.ofNat n i)
  else none

/-- `arch_check_align`. -/
def checkAlign (address : BitVec n) : Kind → Bool
  | .t32_16 | .t32_32 => address &&& 1#n == 0#n
  | .a32 | .a64 => address &&& 3#n == 0#n

/-- `get_breakpoint_insn`. -/
def getBreakpointInsn : Kind → Word
  | .t32_16 => 0xde00
  | .t32_32 => 0xf7f0a000
  | .a32 => 0xe1200070
  | .a64 => 0xd4200000

/-- `thumb2_swap_halfwords` and `t32_swap_halfwords`. -/
def swapHalfwords (insn : Word) : Word := ((insn &&& 0xffff) <<< 16) ||| (insn >>> 16)

/-- `patch_check_insn`. -/
def patchCheckInsn (insn : Word) : Kind → Bool
  | .t32_16 => insn &&& ~~~0xffff == 0
  | .t32_32 => isWideHalfword (insn >>> 16)
  | .a32 | .a64 => true

/-- `patch_insn`: whether all of the instruction was written. -/
def patchInsn (inferior : Inferior n) (address : BitVec n) (kind : Kind) (insn : Word) :
    Except Fault (Bool × Inferior n) :=
  if checkAlign address kind && patchCheckInsn insn kind then
    let size := if kind = .t32_16 then 2 else 4
    let insn := if kind = .t32_32 then swapHalfwords insn else insn
    match memWrite inferior address (BitVec.ofNat n size) fun i => insn.extractLsb' (8 * i) 8 with
    | .ok (written, inferior) => .ok (written == size, inferior)
    | .error .assertion => .error .assertion
  else .error .assertion

/-- `patch_read_insn`. -/
def patchReadInsn (inferior : Inferior n) (address : BitVec n) (kind : Kind) :
    Except Fault (Option Word) :=
  if checkAlign address kind then
    .ok <|
      if kind = .t32_16 then
        (memRead inferior address 2).map fun data => (ofLittleEndian 16 [data 0, data 1]).setWidth 32
      else
        (memRead inferior address 4).map fun data =>
          let insn := ofLittleEndian 32 [data 0, data 1, data 2, data 3]
          if kind = .t32_32 then swapHalfwords insn else insn
  else .error .assertion

/-- `patch_read_insn_detect_kind`: the instruction, and its kind. -/
def patchReadInsnDetectKind (inferior : Inferior n) (address : BitVec n) (kind : Kind) :
    Except Fault (Option Word × Kind) :=
  if kind = .a64 ∨ kind = .a32 then do
    let insn ← patchReadInsn inferior address kind
    pure (insn, kind)
  else do
    match ← patchReadInsn inferior address .t32_16 with
    | none => pure (none, kind)
    | some insn =>
      if isWideHalfword insn then do
        let insn ← patchReadInsn inferior address .t32_32
        pure (insn, .t32_32)
      else pure (some insn, .t32_16)

end

/-! ## The thread -/

/-- `thread->state`; whether the thread is dead is said of the inferior. -/
structure Thread where
  running : Bool
  setoptions : Bool
  execed : Bool
  stopme : Bool
  slavemode : Bool
  signo : Option Signo
  deriving DecidableEq, Repr

structure Segment (n : Nat) where
  start : BitVec n
  stop : BitVec n
  executable : Bool

/-- What the two servers do not have in common. -/
structure Arch where
  /-- The size of an `unsigned long`. -/
  width : Nat
  server : width = 32 ∨ width = 64
  /-- `pt_regs`. -/
  Regs : Type
  /-- `call_context_t`. -/
  Context : Type
  pc : Regs → BitVec width
  sp : Regs → BitVec width
  setSp : BitVec width → Regs → Regs
  /-- `arch_get_execution_mode_insn_kind`. -/
  kind : Regs → Kind
  /-- `fncall_restop` reads the instruction behind the one it patches, too, and takes on its kind. -/
  ahead : Bool
  /-- The context is for the execution state of the process. -/
  suits : Regs → Context → Bool
  /-- The parameters of a call. -/
  setArguments : Context → Regs → Regs
  pushStack : Regs → Context → Push width Unit
  /-- The program counter, the processor mode and the return address, for a
  function at an address and, if so, in Thumb code. -/
  enter : BitVec width → Bool → Regs → Regs
  /-- The parameter registers after a call. -/
  readRegisters : Regs → Context → Context

/-- What `waitpid` reports: a stop by a signal, with the registers and the
memory that the run has left, or the end of the thread. -/
inductive Report (arch : Arch) where
  | signal (signo : Signo) (regs : arch.Regs) (memory : BitVec arch.width →
      BitVec 8) (mapped : BitVec arch.width → Bool)
  | exited

structure World (arch : Arch) where
  thread : Thread
  regs : arch.Regs
  inferior : Inferior arch.width
  /-- `/proc/.../maps`, which has no empty segments. -/
  segments : List (Segment arch.width)
  /-- `injection_get_by_address`. -/
  injected : BitVec arch.width → Bool
  /-- Whether another thread of the process is running. -/
  othersRunning : Bool
  stabilizing : Bool
  /-- `segment_check_address_is_code`. -/
  code : BitVec arch.width → Bool
  /-- Whether the coming requests to `ptrace` succeed; all others do. -/
  answers : List Bool
  /-- What the coming waits report. -/
  reports : List (Report arch)

abbrev Action (arch : Arch) := EStateM Fault (World arch)

variable {arch : Arch}

def setThread (f : Thread → Thread) : Action arch Unit := modify fun w => { w with thread := f w.thread }

def assert (holds : Bool) : Action arch Unit := if holds then pure () else throw .assertion

def lift {α : Type} (result : Except Fault α) : Action arch α :=
  match result with
  | .ok a => pure a
  | .error fault => throw fault

/-- A request to `ptrace`. One that fails ends in `thread_handle_ptrace_error`, which is `adbi_bug`. -/
def request : Action arch Unit := do
  let w ← get
  if w.inferior.dead then throw .bug
  else
    match w.answers with
    | [] => pure ()
    | true :: rest => modify fun w => { w with answers := rest }
    | false :: _ => throw .bug

/-- `thread_get_regs`. -/
def threadGetRegs : Action arch arch.Regs := do
  let w ← get
  assert (!w.thread.running)
  request
  pure w.regs

/-- `thread_set_regs`. -/
def threadSetRegs (regs : arch.Regs) : Action arch Unit := do
  let w ← get
  assert (!w.thread.running)
  request
  modify fun w => { w with regs := regs }

/-- `thread_continue` without a signal of its own. -/
def threadContinue : Action arch Unit := do
  let w ← get
  if w.inferior.dead || w.thread.running then pure ()
  else do
    if w.thread.setoptions then request else pure ()
    request
    setThread fun t => { t with setoptions := false, signo := none, running := true }

/-- `thread_continue_or_stop` in slave mode. -/
def threadContinueOrStop (signo : Signo) : Action arch Unit :=
  setThread fun t => { t with signo := some signo, stopme := false }

/-- `thread_exit`. -/
def threadExit (w : World arch) : World arch :=
  { w with
    thread := { w.thread with running := false }
    inferior := { w.inferior with mapped := fun _ => false, dead := true, gone := fun _ _ => rfl } }

/-- `thread_handle_status` in slave mode. -/
def threadHandleStatus : Report arch → Action arch Unit
  | .exited => modify threadExit
  | .signal signo regs memory mapped => do
    modify fun w =>
      { w with
        thread := { w.thread with running := false }
        regs := regs
        inferior := { memory, mapped, dead := false, gone := Bool.noConfusion } }
    let w ← get
    if w.stabilizing && signo = .sigsegv then do
      let regs ← threadGetRegs
      if w.code (arch.pc regs) then setThread fun t => { t with signo := some signo }
      else threadContinueOrStop signo
    else threadContinueOrStop signo

/-- `thread_wait` in slave mode, without `WNOHANG`. -/
def threadWait : Action arch Unit := do
  let w ← get
  if w.inferior.dead then pure ()
  else
    match w.reports with
    | [] => throw .blocked
    | report :: rest => do
      modify fun w => { w with reports := rest }
      threadHandleStatus report

/-! ## Restopping -/

/-- `procfs_address_executable`. -/
def addressExecutable (segments : List (Segment arch.width)) (address : BitVec arch.width) : Bool :=
  segments.any fun s => s.start ≤ address && address ≤ s.stop && s.executable

def patchInferior (address : BitVec arch.width) (kind : Kind) (insn : Word) : Action arch Bool := do
  let w ← get
  let (done, inferior) ← lift (patchInsn w.inferior address kind insn)
  modify fun w => { w with inferior := inferior }
  pure done

/-- The kind after reading the instruction behind, where it is read. -/
def lookAhead (address : BitVec arch.width) (kind : Kind) : Action arch Kind := do
  let w ← get
  if arch.ahead then do
    let next ← lift (patchReadInsnDetectKind w.inferior (address + 4) kind)
    pure next.2
  else pure kind

/-- The breakpoint of `fncall_restop`, and what it replaced. A failure is a
failed assertion, as the thread is alive. -/
def placeBreakpoint (address : BitVec arch.width) (kind : Kind) : Action arch (Word × Kind) := do
  let w ← get
  match ← lift (patchReadInsnDetectKind w.inferior address kind) with
  | (none, _) => throw .assertion
  | (some insn, kind) => do
    let kind ← lookAhead address kind
    let done ← patchInferior address kind (getBreakpointInsn kind)
    assert done
    let kind ← lookAhead address kind
    pure (insn, kind)

/-- There is a breakpoint only if the program counter points to code. -/
def patchAtPc (regs : arch.Regs) : Action arch (Option (Word × Kind)) := do
  let w ← get
  if addressExecutable w.segments (arch.pc regs) then
    some <$> placeBreakpoint (arch.pc regs) (arch.kind regs)
  else pure none

/-- The instruction is put back, whether or not that succeeds. -/
def revertPatch (address : BitVec arch.width) : Option (Word × Kind) → Action arch Unit
  | some (insn, kind) => do
    let kind ← lookAhead address kind
    let _ ← patchInferior address kind insn
    let _ ← lookAhead address kind
  | none => pure ()

/-- The loop of `fncall_restop`. Each round uses up a report. -/
def restopLoop : Nat → Action arch Unit
  | 0 => throw .blocked
  | rounds + 1 => do
    threadWait
    let w ← get
    if w.inferior.dead then pure ()
    else
      match w.thread.signo with
      | some .sigsegv | some .sigtrap | some .sigbus => pure ()
      | _ => do
        threadContinue
        restopLoop rounds

/-- `fncall_restop`. -/
def fncallRestop : Action arch Bool := do
  let w ← get
  assert (!w.thread.slavemode)
  setThread fun t => { t with slavemode := true }
  let regs ← threadGetRegs
  let patch ← patchAtPc regs
  threadContinue
  restopLoop (w.reports.length + 1)
  let w ← get
  if w.inferior.dead then pure false
  else do
    setThread fun t => { t with signo := none }
    let _ ← threadGetRegs
    threadSetRegs regs
    revertPatch (arch.pc regs) patch
    setThread fun t => { t with slavemode := false }
    pure true

/-! ## The call -/

/-- The stack of the function; nothing when a store is refused. The memory
changes, and nothing else of the inferior. -/
def prepareStack (context : arch.Context) (regs : arch.Regs) : Action arch (Option arch.Regs) := do
  let w ← get
  match arch.pushStack regs context ⟨arch.sp regs, w.inferior, []⟩ with
  | .ok _ p => do
    modify fun w => { w with inferior := { w.inferior with memory := p.inferior.memory } }
    pure (some (arch.setSp p.sp regs))
  | .error .refused p => do
    modify fun w => { w with inferior := { w.inferior with memory := p.inferior.memory } }
    pure none
  | .error .assertion _ => throw .assertion
  | .error .unending _ => throw .unending

/-- The loop of `fncall_call`: the signal that ends it, unless the thread dies. -/
def callLoop : Nat → Action arch (Option Signo)
  | 0 => throw .blocked
  | rounds + 1 => do
    threadWait
    let w ← get
    if w.inferior.dead then pure none
    else do
      setThread fun t => { t with signo := none }
      match w.thread.signo with
      | none => throw .bug
      | some .sigstop => do
        threadContinue
        callLoop rounds
      | some signo => pure (some signo)

/-- `fncall_call` from the check of the execution state on, for a thread with these registers. -/
def fncallRun (address : BitVec arch.width) (context : arch.Context) (oldRegs : arch.Regs) :
    Action arch (Bool × arch.Context) :=
  if arch.suits oldRegs context then do
    match ← prepareStack context (arch.setArguments context oldRegs) with
    | none => do
      threadSetRegs oldRegs
      pure (false, context)
    | some regs => do
      threadSetRegs (arch.enter (address &&& ~~~1) (address.getLsbD 0) regs)
      threadContinue
      let w ← get
      match ← callLoop (w.reports.length + 1) with
      | none => pure (false, context)
      | some signo => do
        let regs ← threadGetRegs
        threadSetRegs oldRegs
        if signo = .sigsegv ∧ arch.pc regs = 0 then pure (true, arch.readRegisters regs context)
        else pure (false, context)
  else pure (false, context)

/-- `fncall_call` once the thread has been restopped. -/
def fncallStart (address : BitVec arch.width) (context : arch.Context) :
    Action arch (Bool × arch.Context) := do
  let w ← get
  assert (!w.thread.slavemode)
  setThread fun t => { t with slavemode := true }
  let oldRegs ← threadGetRegs
  let result ← fncallRun address context oldRegs
  setThread fun t => { t with slavemode := false }
  pure result

/-- `fncall_call`: whether the function returned, and the context. -/
def fncallCall (arch : Arch) (address : BitVec arch.width) (context : arch.Context) :
    Action arch (Bool × arch.Context) := do
  let w ← get
  if w.thread.execed then do
    let restopped ← fncallRestop
    if restopped then do
      setThread fun t => { t with execed := false }
      fncallStart address context
    else do
      setThread fun t => { t with slavemode := false }
      pure (false, context)
  else fncallStart address context

/-! ## Code that is loaded for one call -/

/-- `inject_find_exec_mem`; its size is an `unsigned int`. -/
def injectFindExecMem (w : World arch) (size : BitVec 32) : BitVec arch.width :=
  match w.segments.find? fun s =>
    s.executable && !(decide ((s.stop - s.start).toNat < size.toNat)) && !w.injected s.start &&
      s.start != 0 with
  | some s => s.start
  | none => 0

/-- `mem_write`. -/
def writeInferior (address size : BitVec arch.width) (data : Nat → BitVec 8) : Action arch Nat := do
  let w ← get
  match memWrite w.inferior address size data with
  | .ok (written, inferior) => do
    modify fun w => { w with inferior := inferior }
    pure written
  | .error .assertion => throw .assertion

/-- `fncall_alloc_load_call`. -/
def fncallAllocLoadCall (arch : Arch) (functionText : Nat → BitVec 8) (size entry : BitVec arch.width)
    (context : arch.Context) : Action arch (Bool × arch.Context) := do
  let w ← get
  assert (size.setWidth 32 != 0#32)
  assert (!w.thread.running && !w.othersRunning)
  let address := injectFindExecMem w (size.setWidth 32)
  if address = 0 then pure (false, context)
  else
    match memRead w.inferior address size.toNat with
    | none => pure (false, context)
    | some originalText => do
      let written ← writeInferior address size functionText
      if written = 0 then pure (false, context)
      else do
        let result ← fncallCall arch (address + entry) context
        if result.1 then do
          let _ ← writeInferior address size originalText
          pure result
        else pure result

/-! ## The arm server -/

namespace Arm

/-- `r0` to `r15`, the `cpsr` and the first register at the last system call. -/
structure PtRegs where
  uregs : Fin 18 → BitVec 32

def PtRegs.set (regs : PtRegs) (i : Fin 18) (value : BitVec 32) : PtRegs :=
  ⟨fun j => if j = i then value else regs.uregs j⟩

def PtRegs.sp (regs : PtRegs) : BitVec 32 := regs.uregs 13

def PtRegs.pc (regs : PtRegs) : BitVec 32 := regs.uregs 15

def PtRegs.cpsr (regs : PtRegs) : BitVec 32 := regs.uregs 16

structure CallContext where
  registers : Fin 4 → BitVec 32
  elements : Elements

def arm : Arch where
  width := 32
  server := .inl rfl
  Regs := PtRegs
  Context := CallContext
  pc := PtRegs.pc
  sp := PtRegs.sp
  setSp value regs := regs.set 13 value
  kind regs := if regs.cpsr &&& 0x20 = 0 then .a32 else .t32_16
  ahead := false
  suits _ _ := true
  setArguments context regs := ⟨fun i => if inside : i.val < 4 then context.registers ⟨i.val,
    inside⟩ else regs.uregs i⟩
  pushStack _ context := pushElements context.elements
  enter address thumb regs :=
    ((regs.set 15 address).set 16 (if thumb then regs.cpsr ||| 0x20 else regs.cpsr &&& ~~~0x20)).set 14 0
  readRegisters regs context := { context with registers := fun i => regs.uregs (i.castLE (by decide)) }

/-- `fncall_call`. -/
def fncallCall : BitVec 32 → CallContext → Action arm (Bool × CallContext) := Fncall.fncallCall arm

/-- `fncall_alloc_load_call`. -/
def fncallAllocLoadCall : (Nat → BitVec 8) → BitVec 32 → BitVec 32 → CallContext →
    Action arm (Bool × CallContext) :=
  Fncall.fncallAllocLoadCall arm

end Arm

/-! ## The arm64 server -/

namespace Arm64

structure PtRegs where
  regs : Fin 31 → BitVec 64
  sp : BitVec 64
  pc : BitVec 64
  pstate : BitVec 64

/-- `arm64_is_mode32`. -/
def PtRegs.isMode32 (regs : PtRegs) : Bool := regs.pstate &&& 0x10 != 0

structure CallContext where
  registers : Fin 8 → BitVec 64
  elements : Elements
  mode32 : Bool

def arm64 : Arch where
  width := 64
  server := .inr rfl
  Regs := PtRegs
  Context := CallContext
  pc := PtRegs.pc
  sp := PtRegs.sp
  setSp value regs := { regs with sp := value }
  kind regs := if regs.isMode32 then if regs.pstate &&& 0x20 = 0 then .a32 else .t32_32 else .a64
  ahead := true
  suits regs context := regs.isMode32 == context.mode32
  setArguments context regs :=
    { regs with regs := fun i => if inside : i.val < 8 then context.registers ⟨i.val, inside⟩ else regs.regs i }
  pushStack regs context := pushStack64 regs.isMode32 context.elements
  enter address thumb regs :=
    { regs with
      pc := address
      pstate :=
        if regs.isMode32 then if thumb then regs.pstate ||| 0x20 else regs.pstate &&& ~~~0x20
          else regs.pstate
      regs := fun i => if i = 30 then 0 else regs.regs i }
  readRegisters regs context := { context with registers := fun i => regs.regs (i.castLE (by decide)) }

/-- `fncall_call`. -/
def fncallCall : BitVec 64 → CallContext → Action arm64 (Bool × CallContext) := Fncall.fncallCall arm64

/-- `fncall_alloc_load_call`. -/
def fncallAllocLoadCall : (Nat → BitVec 8) → BitVec 64 → BitVec 64 → CallContext →
    Action arm64 (Bool × CallContext) :=
  Fncall.fncallAllocLoadCall arm64

end Arm64

end Adbi.Fncall
