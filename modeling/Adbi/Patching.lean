import Adbi.Lib.Overwrite
import Adbi.Lib.Stateful
import Adbi.Release
import Adbi.Tracepoints

/-! The code of the inferior under the tracepoints of a segment: what
`tracepoints_init` writes over it and `tracepoints_cleanup` writes back, after
`tracepoint/tracepoint.c`, `tracepoint/jump.c` and `arch/*/patch.c`. The templates
are built with the server; what the kernel makes of the writes comes from the
environment. What becomes of the room for the trampolines follows the search for
it and its release, with the answers of the kernel and what the calls in the
inferior leave behind. -/
namespace Adbi.Patching
open Adbi.Lib Adbi.Lib.Overwrite Adbi.Tracepoints
open Adbi.ArmTemplate (thumb2SwapHalfwords)
open Adbi.Branch (Word isWideHalfword)

/-- What the servers write over instructions, after their `arch.h`. -/
structure Jumps {w : Nat} (m : Machine w) where
  checkRelativeJumpKind : m.Kind → BitVec w → BitVec w → Bool
  getRelativeJumpInsn : m.Kind → BitVec w → BitVec w → Option Word
  getBreakpointInsn : m.Kind → Word

def armJumps : Jumps arm where
  checkRelativeJumpKind := Branch.Arm.checkRelativeJumpKind
  getRelativeJumpInsn := Branch.Arm.getRelativeJumpInsn
  getBreakpointInsn
    | .arm => 0xe1200070#32
    | .thumb => 0xde00#32
    | .thumb2 => 0xf7f0a000#32

def arm64Jumps : Jumps arm64 where
  checkRelativeJumpKind := Branch.Arm64.checkRelativeJumpKind
  getRelativeJumpInsn := Branch.Arm64.getRelativeJumpInsn
  getBreakpointInsn
    | .t32_16 => 0xde00#32
    | .t32_32 => 0xf7f0a000#32
    | .a32 => 0xe1200070#32
    | .a64 => 0xd4200000#32

/-- The templates of a server: a tracepoint has the instruction that its template was selected for. -/
structure Templates {w : Nat} (m : Machine w) where
  select : Word → m.Kind → Option Template
  needReturnJump : Tracepoint m → Bool
  /-- `template_iter_return_address`: the return sites, and where they lead. -/
  iterReturnAddress : Tracepoint m → List (BitVec w × BitVec w)
  templateKind : Tracepoint m → m.Kind
  /-- `template_get_handler`; a failed assertion has no result. -/
  getHandler : Tracepoint m → Option Bytes

/-- The inferior, with the tree `process->jumps`. -/
structure Inferior (w : Nat) where
  memory : BitVec w → BitVec 8
  jumps : OrderedTree Nat (BitVec w)
  /-- The calls of `mem_write` so far. -/
  writes : Nat

/-- `fncall_align_to_page`. -/
def pages (size : Nat) : Nat := (size + 4095) / 4096 * 4096

structure Environment {w : Nat} (m : Machine w) where
  jumps : Jumps m
  templates : Templates m
  mode32 : Bool
  readable : BitVec w → Bool
  /-- How many bytes of a write go through, by the number of the write. -/
  written : Nat → BitVec w → Nat → Nat
  /-- `allocate_trampoline`, and the memory after the calls that it makes in the inferior. -/
  allocateTrampoline : (segment : Segment m) → (BitVec w → BitVec 8) →
    Option {start : BitVec w // start.toNat + segment.trampolinesSize.toNat < 2 ^ w} × (BitVec w →
      BitVec 8)
  /-- The memory after `trampoline_free`, whose result is only logged. -/
  trampolineFree : Segment m → (BitVec w → BitVec 8) → BitVec w → BitVec 8
  /-- The order in which the roots of the tree are popped. -/
  popped : (tree : OrderedTree Nat (Tracepoint m)) →
      {nodes : List (Nat × Tracepoint m) // nodes.Perm tree.entries}

abbrev Run (w : Nat) := EStateM Fault (Inferior w)

variable {w : Nat} {m : Machine w}

def assert (holds : Bool) : Run w Unit := if holds then pure () else throw .assertion

/-- An assertion that something is there. -/
def given (x : Option α) : Run w α :=
  match x with
  | some a => pure a
  | none => throw .assertion

/-! ## Instructions -/

/-- `patch_check_insn`. -/
def patchCheckInsn (kind : m.Kind) (insn : Word) : Bool :=
  if kind = m.thumb then insn &&& ~~~0xffff#32 == 0
  else if kind = m.thumb2 then isWideHalfword (insn >>> 16)
  else true

/-- The bytes of an instruction in memory. -/
def insnBytes (kind : m.Kind) (insn : Word) : Bytes :=
  if kind = m.thumb then littleEndian (insn.setWidth 16)
  else littleEndian (if kind = m.thumb2 then thumb2SwapHalfwords insn else insn)

/-! ## Jumps -/

/-- `jump_get`: a tree gives a null pointer for what it has not. -/
def jumpGet (jumps : OrderedTree Nat (BitVec w)) (where_ : BitVec w) : Option (BitVec w) :=
  (jumps.get where_.toNat).filter (· ≠ 0)

/-- `jump_install`. The tree asserts that the address is new. -/
def jumpInstall (source target : BitVec w) : Run w Unit := do
  let jumps ← given ((← get).jumps.tryInsert source.toNat target)
  modify fun s => { s with jumps := jumps }

/-- `jump_uninstall`. The tree asserts that the address is there. -/
def jumpUninstall (source : BitVec w) : Run w Unit := do
  assert ((← get).jumps.get source.toNat).isSome
  modify fun s => { s with jumps := s.jumps.remove source.toNat }

/-- A jump that may be there. -/
def jumpForget (source : BitVec w) : Run w Unit := do
  if (jumpGet (← get).jumps source).isSome then jumpUninstall source

section
variable (env : Environment m)

/-! ## Writing -/

/-- `mem_write`: the bytes that were written are the first ones. -/
def memWrite (address : BitVec w) (data : Bytes) : Run w Nat := do
  let s ← get
  let count := min (env.written s.writes address data.length) data.length
  set { s with memory := overwrite s.memory address (data.take count), writes := s.writes + 1 }
  return count

/-- `patch_insn`. -/
def patchInsn (address : BitVec w) (kind : m.Kind) (insn : Word) : Run w Bool := do
  assert (m.checkAlign address kind)
  assert (patchCheckInsn kind insn)
  let count ← memWrite env address (insnBytes kind insn)
  return count == (insnBytes kind insn).length

/-- `patch_breakpoint`, which does not look at whether it was written. -/
def patchBreakpoint (address : BitVec w) (kind : m.Kind) : Run w Unit := do
  let _ ← patchInsn env address kind (env.jumps.getBreakpointInsn kind)

/-- `patch_relative_jump`. -/
def patchRelativeJump (address dest : BitVec w) (kind : m.Kind) : Run w Unit := do
  let _ ← patchInsn env address kind (← given (env.jumps.getRelativeJumpInsn kind address dest))

/-! ## Setting up -/

/-- What the first loop reads in the memory as it is. -/
def reading (s : Inferior w) : Tracepoints.Environment m where
  mode32 := env.mode32
  readHalfword address :=
    if env.readable address && env.readable (address + 1)
      then some (ofLittleEndian 16 [s.memory address, s.memory (address + 1)])
    else none
  readWord address :=
    if env.readable address && env.readable (address + 1) && env.readable (address + 2) &&
      env.readable (address + 3) then
      some (ofLittleEndian 32 [s.memory address, s.memory (address + 1), s.memory (address + 2),
        s.memory (address + 3)])
    else none
  templateSelect := env.templates.select
  allocateTrampoline segment := (env.allocateTrampoline segment s.memory).1
  install _ := .ok true

/-- The jump to the trampoline, or the breakpoint in its place. -/
def installJump (tracepoint : Tracepoint m) : Run w Unit :=
  if env.jumps.checkRelativeJumpKind tracepoint.insnKind tracepoint.address tracepoint.trampoline then
    patchRelativeJump env tracepoint.address tracepoint.trampoline tracepoint.insnKind
  else do
    patchBreakpoint env tracepoint.address tracepoint.insnKind
    jumpInstall tracepoint.address tracepoint.trampoline

/-- The code of a trampoline with the word at one of its offsets replaced. -/
def setWord (code : Bytes) (offset : Nat) (insn : Word) : Bytes :=
  code.take offset ++ littleEndian insn ++ code.drop (offset + 4)

/-- The callback for the return sites: a jump back, or a breakpoint. -/
def installReturn (tracepoint : Tracepoint m) (code : Bytes) (site : BitVec w × BitVec w) :
    Run w Bytes := do
  let kind := env.templates.templateKind tracepoint
  let off := (site.1 - tracepoint.trampoline).toNat
  if env.jumps.checkRelativeJumpKind kind site.1 site.2 then
    return setWord code off (← given (env.jumps.getRelativeJumpInsn kind site.1 site.2))
  else do
    jumpInstall site.1 site.2
    return setWord code off (env.jumps.getBreakpointInsn kind)

/-- The code of a trampoline with what leads back from it. -/
def installReturns (tracepoint : Tracepoint m) (code : Bytes) : Run w Bytes :=
  if env.templates.needReturnJump tracepoint then do
    assert (!env.mode32)
    (env.templates.iterReturnAddress tracepoint).foldlM (installReturn env tracepoint) code
  else pure code

/-- One round of the second loop, and whether the code of the trampoline was written. -/
def installTracepoint (tracepoint : Tracepoint m) : Run w Bool := do
  installJump env tracepoint
  let code ← installReturns env tracepoint (← given (env.templates.getHandler tracepoint))
  return (← memWrite env tracepoint.trampoline code) == code.length

/-- The second loop of `tracepoints_init`, and whether it comes to its end. -/
def installTracepoints : Segment m → List (Nat × Tracepoint m) → Run w (Segment m × Bool)
  | segment, [] => pure (segment, true)
  | segment, node :: rest => do
    let tracepoint := { node.2 with trampoline := node.2.trampoline + segment.trampolines }
    let segment := { segment with tracepoints := segment.tracepoints.adjust node.1 fun _ => tracepoint }
    if ← installTracepoint env tracepoint then installTracepoints segment rest
      else return (segment, false)

/-- `tracepoints_init` between its first loop and the label `rollback`. -/
def placeTracepoints (segment : Segment m) : Run w (Segment m × Bool) :=
  if segment.tracepoints.entries.isEmpty then pure (segment, true)
  else do
    let allocated := env.allocateTrampoline segment (← get).memory
    modify fun s => { s with memory := allocated.2 }
    match allocated.1 with
    | none => return ({ segment with trampolines := 0 }, false)
    | some room =>
      installTracepoints env { segment with trampolines := room.1 } segment.tracepoints.entries

/-- `tracepoints_init` up to the label `rollback`, and whether it returns before. -/
def tracepointsPlace (segment : Segment m) : Run w (Segment m × Bool) :=
  match segment.injection with
  | none => pure (segment, true)
  | some injection =>
    match injection.tpoints with
    | none => pure (segment, true)
    | some tpoints => do
      let s ← get
      let created ← given (createTracepoints (reading env s)
          injection { segment with trampolinesSize := 0 } tpoints).toOption
      placeTracepoints env created

/-! ## Taking down -/

/-- What becomes of one tracepoint. -/
def forget (unpatch : Bool) (tracepoint : Tracepoint m) : Run w Unit := do
  jumpForget tracepoint.address
  if env.templates.needReturnJump tracepoint then
    (env.templates.iterReturnAddress tracepoint).forM fun site => jumpForget site.1
  if unpatch then
    let _ ← patchInsn env tracepoint.address tracepoint.insnKind tracepoint.insn

/-- `tracepoints_cleanup`. -/
def tracepointsCleanup (unpatch freeTrampolines : Bool) (segment : Segment m) : Run w (Segment m) := do
  if freeTrampolines && segment.trampolines ≠ 0 then
    modify fun s => { s with memory := env.trampolineFree segment s.memory }
  (env.popped segment.tracepoints).1.forM fun node => forget env unpatch node.2
  return { segment with trampolines := 0, trampolinesSize := 0, tracepoints := .empty }

/-- `tracepoints_init`. -/
def tracepointsInit (segment : Segment m) : Run w (Segment m) := do
  let placed ← tracepointsPlace env segment
  if placed.2 then return placed.1 else tracepointsCleanup env true true placed.1

def tracepointsDetach (segment : Segment m) : Run w (Segment m) :=
  tracepointsCleanup env true true segment
def tracepointsGone (segment : Segment m) : Run w (Segment m) :=
  tracepointsCleanup env false true segment
def tracepointsReset (segment : Segment m) : Run w (Segment m) :=
  tracepointsCleanup env false false segment

end

/-! ## The room -/

/-- What `allocate_trampoline` and `trampoline_free` meet in the process. -/
structure Surroundings (w : Nat) where
  target : Trampoline.Machine
  modulus : target.modulus = 2 ^ w
  page : target.page = 4096
  segments : List Trampoline.Segment
  /-- The answers of the kernel, by the segment that room is asked for. -/
  setup : Trampoline.Segment → Trampoline.Setup
  /-- It maps neither the first page nor the end of the address space. -/
  mapped : ∀ g held, Release.allocateTrampoline target segments (setup g) g = some held →
    0 < held.segment.trampolines ∧ held.segment.trampolines + g.trampolinesSize < 2 ^ w
  /-- `trampoline_stolen`, which only the release reads. -/
  stolen : Bool
  /-- The memory after the calls in the inferior, but for what they map: their arguments on the
  stack, and what the other threads do. -/
  called : (BitVec w → BitVec 8) → BitVec w → BitVec 8

/-- What the search and the release read of a segment. -/
def viewed (stolen : Bool) (segment : Segment m) : Trampoline.Segment where
  start := segment.start.toNat
  stop := segment.stop.toNat
  filename := segment.filename.map fun _ => 0
  offset := segment.offset.toNat
  readable := true
  writeable := false
  executable := true
  shared := false
  state := .old
  injection := segment.injection.map fun _ => 0
  tracepoints := segment.tracepoints.entries.map fun e => e.2.address.toNat
  trampolines := segment.trampolines.toNat
  trampolinesSize := segment.trampolinesSize.toNat
  stolen := stolen

/-- Memory in which a range is mapped anew, or no longer there. -/
def blanked (memory : BitVec w → BitVec 8) (start : BitVec w) (size : Nat) : BitVec w → BitVec 8 :=
  fun a => if Within start size a then 0 else memory a

namespace Surroundings
variable (around : Surroundings w)

/-- The room that is found for a segment. -/
def found (segment : Segment m) : Option Release.Held :=
  Release.allocateTrampoline around.target around.segments (around.setup (viewed around.stolen segment))
    (viewed around.stolen segment)

theorem found_fits {segment : Segment m} {held : Release.Held} (got : around.found segment = some held) :
    (BitVec.ofNat w held.segment.trampolines).toNat = held.segment.trampolines ∧
      (BitVec.ofNat w held.segment.trampolines).toNat + segment.trampolinesSize.toNat < 2 ^ w := by
  have fits : held.segment.trampolines + segment.trampolinesSize.toNat < 2 ^ w :=
    (around.mapped _ held got).2
  have same : (BitVec.ofNat w held.segment.trampolines).toNat = held.segment.trampolines := by
    rw [BitVec.toNat_ofNat, Nat.mod_eq_of_lt (by omega)]
  exact ⟨same, by rwa [same]⟩

def allocateTrampoline (segment : Segment m) (memory : BitVec w → BitVec 8) :
    Option {start : BitVec w // start.toNat + segment.trampolinesSize.toNat < 2 ^ w} × (BitVec w →
      BitVec 8) :=
  match got : around.found segment with
  | none => (none, around.called memory)
  | some held =>
    (some ⟨BitVec.ofNat w held.segment.trampolines, (around.found_fits got).2⟩,
      blanked (around.called memory) (BitVec.ofNat w held.segment.trampolines)
        (around.target.alignToPage segment.trampolinesSize.toNat))

/-- The memory after `mprotect`, or after `munmap`. -/
def trampolineFree (segment : Segment m) (memory : BitVec w → BitVec 8) : BitVec w → BitVec 8 :=
  match (Release.trampolineFree around.target ⟨viewed around.stolen segment, .mapped⟩).request with
  | .protect _ _ => around.called memory
  | .unmap start size =>
    blanked (around.called memory) (BitVec.ofNat w start) (around.target.alignToPage size)

/-- An environment with this room for the trampolines. -/
def place (env : Environment m) : Environment m :=
  { env with allocateTrampoline := around.allocateTrampoline, trampolineFree := around.trampolineFree }

end Surroundings

end Adbi.Patching
