import Adbi.Branch
import Adbi.Payload
import Adbi.Lib.OrderedTree

/-! The tracepoints of a segment and how they are found again, after
`tracepoint/tracepoint.c` and `process/segment.c`, for both servers. The memory of
the process, the choice of a template, the room for the trampolines and what is
written into the process come from the environment. -/
namespace Adbi.Tracepoints
open Adbi.Lib
open Adbi.ArmTemplate (thumb2SwapHalfwords)
open Adbi.Branch (Word isWideHalfword)
open Adbi.Payload (CString)

/-- An assertion failed. -/
inductive Fault where
  | assertion
  deriving DecidableEq

/-- The kinds of instructions of a server whose addresses have `w` bits. -/
structure Machine (w : Nat) where
  Kind : Type
  [decidable : DecidableEq Kind]
  /-- `arch_detect_kind_from_unaligned_address`. -/
  detectKindFromUnalignedAddress : Bool → BitVec w → Kind
  /-- `arch_check_align`. -/
  checkAlign : BitVec w → Kind → Bool
  /-- Thumb instructions of one halfword, and of two. -/
  thumb : Kind
  thumb2 : Kind

attribute [instance] Machine.decidable

def arm : Machine 32 where
  Kind := Branch.Arm.Kind
  detectKindFromUnalignedAddress _ address := if address &&& 1 ≠ 0 then .thumb else .arm
  checkAlign := Branch.Arm.checkAlign
  thumb := .thumb
  thumb2 := .thumb2

def arm64 : Machine 64 where
  Kind := Branch.Arm64.Kind
  detectKindFromUnalignedAddress mode32 address :=
    if mode32 then if address &&& 1 ≠ 0 then .t32_32 else .a32 else .a64
  checkAlign := Branch.Arm64.checkAlign
  thumb := .t32_16
  thumb2 := .t32_32

/-- What the lookups read of a `template_t`: the size of its code. -/
structure Template where
  size : Nat
  positive : 0 < size
  deriving DecidableEq

/-- `tracepoint_t`. -/
structure Tracepoint {w : Nat} (m : Machine w) where
  address : BitVec w
  trampoline : BitVec w
  handler : BitVec w
  insn : Word
  insnKind : m.Kind
  template : Template

/-- `injfile_tracepoint_t`. -/
structure TracepointInfo where
  address : BitVec 32
  handlerFn : BitVec 32

/-- What is read of an `injection_t`: its address, and the table of its injectable, if it has one. -/
structure Injection (w : Nat) where
  address : BitVec w
  tpoints : Option (List TracepointInfo)

/-- `segment_t`, without its flags and its state. -/
structure Segment {w : Nat} (m : Machine w) where
  start : BitVec w
  stop : BitVec w
  filename : Option CString
  offset : BitVec w
  injection : Option (Injection w)
  /-- By the runtime address from which the tracepoint was made. -/
  tracepoints : OrderedTree Nat (Tracepoint m)
  trampolines : BitVec w
  trampolinesSize : BitVec w

/-- The tree `process->segments`, by the start. The mappings of a process consist
of pages, and no mapping lies in another. -/
structure Process {w : Nat} (m : Machine w) where
  segments : OrderedTree Nat (Segment m)
  keyed : ∀ e ∈ segments.entries, e.1 = e.2.start.toNat
  paged : ∀ e ∈ segments.entries, 4096 ∣ e.1
  disjoint : ∀ a ∈ segments.entries, ∀ b ∈ segments.entries, a.1 < b.1 → a.2.stop.toNat ≤ b.1

/-- What `tracepoints_init` meets in the process. -/
structure Environment {w : Nat} (m : Machine w) where
  mode32 : Bool
  /-- `mem_read`, of two and of four bytes. -/
  readHalfword : BitVec w → Option (BitVec 16)
  readWord : BitVec w → Option Word
  templateSelect : Word → m.Kind → Option Template
  /-- `allocate_trampoline`: the room that it finds. No mapping reaches the end of the address space. -/
  allocateTrampoline : (segment : Segment m) →
    Option {start : BitVec w // start.toNat + segment.trampolinesSize.toNat < 2 ^ w}
  /-- The jump to the trampoline and its code are written, unless the process does not take the code. -/
  install : Tracepoint m → Except Fault Bool

variable {w : Nat} {m : Machine w}

/-! ## Setting up -/

/-- `segment_fo2addr`. -/
def segmentFo2addr (segment : Segment m) (offset : BitVec w) : Except Fault (BitVec w) :=
  if segment.filename.isSome then
    let result := segment.start + offset - segment.offset
    .ok (if result < segment.start ∨ segment.stop ≤ result then 0 else result)
  else .error .assertion

/-- `patch_read_insn`. -/
def patchReadInsn (env : Environment m) (address : BitVec w) (kind : m.Kind) :
    Except Fault (Option Word) :=
  if m.checkAlign address kind then
    if kind = m.thumb then .ok ((env.readHalfword address).map (·.setWidth 32))
    else .ok ((env.readWord address).map fun insn => if kind =
      m.thumb2 then thumb2SwapHalfwords insn else insn)
  else .error .assertion

/-- `patch_read_insn_detect_kind`. -/
def patchReadInsnDetectKind (env : Environment m) (address : BitVec w) (kind : m.Kind) :
    Except Fault (Option (Word × m.Kind)) := do
  if kind ≠ m.thumb ∧ kind ≠ m.thumb2 then
    return (← patchReadInsn env address kind).map (·, kind)
  else
    match ← patchReadInsn env address m.thumb with
    | none => return none
    | some insn =>
      if isWideHalfword insn then return (← patchReadInsn env address m.thumb2).map (·, m.thumb2)
      else return some (insn, m.thumb)

/-- The address of an instruction, without the bit that tells the instruction set. -/
def align (address : BitVec w) : BitVec w := address &&& ~~~1#w

/-- `tracepoint_create`. -/
def tracepointCreate (env : Environment m) (address handlerAddress : BitVec w) :
    Except Fault (Option (Tracepoint m)) := do
  let kind := m.detectKindFromUnalignedAddress env.mode32 address
  let address := align address
  match ← patchReadInsnDetectKind env address kind with
  | none => return none
  | some (insn, kind) =>
    match env.templateSelect insn kind with
    | none => return none
    | some template => return some ⟨address, 0, handlerAddress, insn, kind, template⟩

/-- The first loop of `tracepoints_init`. -/
def createTracepoints (env : Environment m) (injection : Injection w) :
    Segment m → List TracepointInfo → Except Fault (Segment m)
  | segment, [] => .ok segment
  | segment, tp :: rest =>
    if tp.address = 0 then .ok segment
    else do
      let rtAddr ← segmentFo2addr segment (tp.address.setWidth w)
      let handlerAddr := injection.address + tp.handlerFn.signExtend w
      if rtAddr = 0 then createTracepoints env injection segment rest
      else
        match ← tracepointCreate env rtAddr handlerAddr with
        | none => createTracepoints env injection segment rest
        | some tracepoint =>
          match segment.tracepoints.tryInsert rtAddr.toNat
            { tracepoint with trampoline := segment.trampolinesSize } with
          | none => .error .assertion
          | some tracepoints =>
            createTracepoints env injection
              { segment with
                tracepoints := tracepoints
                trampolinesSize :=
                segment.trampolinesSize + BitVec.ofNat w tracepoint.template.size } rest

/-- The second loop of `tracepoints_init`, and whether it comes to its end. -/
def installTracepoints (env : Environment m) :
    Segment m → List (Nat × Tracepoint m) → Except Fault (Segment m × Bool)
  | segment, [] => .ok (segment, true)
  | segment, node :: rest => do
    let tracepoint := { node.2 with trampoline := node.2.trampoline + segment.trampolines }
    let segment := { segment with tracepoints := segment.tracepoints.adjust node.1 fun _ => tracepoint }
    if ← env.install tracepoint then installTracepoints env segment rest else .ok (segment, false)

/-- `tracepoints_cleanup`, as far as the segment shows it. -/
def tracepointsCleanup (segment : Segment m) : Segment m :=
  { segment with trampolines := 0, trampolinesSize := 0, tracepoints := .empty }

/-- `tracepoints_init` behind its first loop. -/
def placeTracepoints (env : Environment m) (segment : Segment m) : Except Fault (Segment m × Bool) :=
  if segment.tracepoints.entries.isEmpty then .ok (segment, true)
  else
    match env.allocateTrampoline segment with
    | none => .ok (tracepointsCleanup segment, false)
    | some room => do
      let (segment, installed) ←
        installTracepoints env { segment with trampolines := room.1 } segment.tracepoints.entries
      .ok (if installed then (segment, true) else (tracepointsCleanup segment, false))

/-- `tracepoints_init`, and whether it did not go back. -/
def tracepointsInit (env : Environment m) (segment : Segment m) : Except Fault (Segment m × Bool) :=
  match segment.injection with
  | none => .ok (segment, true)
  | some injection =>
    match injection.tpoints with
    | none => .ok (segment, true)
    | some tpoints => do
      let segment ← createTracepoints env injection { segment with trampolinesSize := 0 } tpoints
      placeTracepoints env segment

/-! ## Looking up -/

/-- `low <= address && address < low + size`. -/
def within (low size address : BitVec w) : Bool := low ≤ address && address < low + size

/-- `segment_get`. -/
def segmentGet (process : Process m) (address : BitVec w) : Option (Segment m) :=
  match process.segments.getLe address.toNat with
  | none => none
  | some segment => if segment.stop ≤ address then none else some segment

/-- `segment_get_by_trampoline`. -/
def segmentGetByTrampoline (process : Process m) (address : BitVec w) : Option (Segment m) :=
  (process.segments.entries.find? fun node =>
    node.2.trampolines ≠ 0 && within node.2.trampolines node.2.trampolinesSize address).map (·.2)

/-- `tracepoint_get_by_trampoline_address`. -/
def tracepointGetByTrampolineAddress (segment : Segment m) (address : BitVec w) :
    Option (Tracepoint m) :=
  (segment.tracepoints.entries.find? fun node =>
    within node.2.trampoline (BitVec.ofNat w node.2.template.size) address).map (·.2)

/-- `tracepoint_get_by_runtime_address`. -/
def tracepointGetByRuntimeAddress (process : Process m) (address : BitVec w) : Option (Tracepoint m) :=
  match segmentGet process address with
  | none => none
  | some segment => segment.tracepoints.get address.toNat

end Adbi.Tracepoints
