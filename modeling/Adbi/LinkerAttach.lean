import Adbi.Fncall
import Adbi.Protocol
import Adbi.Lib.OrderedTree

/-! The breakpoint in the dynamic linker, after `process/linker.c`. The address for it
comes out of the memory of the process, where `r_debug` has it. -/
namespace Adbi.LinkerAttach
open Adbi.Lib
open Adbi.MemWrite (Inferior)
open Adbi.Branch (Word)
open Adbi.Fncall (Kind Fault getBreakpointInsn patchInsn patchReadInsnDetectKind)
open Adbi.Payload (CString)
open Adbi.Protocol (text)

/-- What is read of a `segment_t`. -/
structure Segment (n : Nat) where
  start : BitVec n
  stop : BitVec n
  executable : Bool
  filename : Option CString

/-- `process->linker`. -/
structure Linker (n : Nat) where
  bkpt : BitVec n
  insn : Word
  kind : Kind

/-- What is read of a `process_t`. The key of a segment is its start. -/
structure Process (n : Nat) where
  mode32 : Bool
  segments : OrderedTree Nat (Segment n)
  keyed : ∀ e ∈ segments.entries, e.1 = e.2.start.toNat
  linker : Linker n
  inferior : Inferior n

variable {n : Nat}

/-- `linker_files`: two string literals without a comma are one. -/
def linkerFiles : List CString := [text "/system/bin/linker/system/bin/linker64"]

def isLinkerFilename (filename : CString) : Bool := linkerFiles.any fun file => file = filename

/-- `segment_get`. -/
def segmentGet (process : Process n) (address : BitVec n) : Option (Segment n) :=
  match process.segments.getLe address.toNat with
  | none => none
  | some segment => if segment.stop ≤ address then none else some segment

/-- `arch_detect_kind_from_unaligned_address`, on the 32-bit and on the 64-bit server. -/
def detectKindFromUnalignedAddress (mode32 : Bool) (address : BitVec n) : Kind :=
  if n = 32 then if address &&& 1#n ≠ 0#n then .t32_16 else .a32
  else if mode32 then if address &&& 1#n ≠ 0#n then .t32_32 else .a32
  else .a64

/-- `linker_attach`, when the address that it finds is `address`. The instruction that is kept
when there is no breakpoint is not looked at. -/
def linkerAttach (process : Process n) (address : BitVec n) : Except Fault (Process n) :=
  if process.linker.bkpt ≠ 0#n then .error .assertion
  else if address = 0#n then .ok process
  else
    let kind := detectKindFromUnalignedAddress process.mode32 address
    let bkpt := address &&& ~~~1#n
    let reset : Process n := { process with linker := { process.linker with bkpt := 0#n, kind := kind } }
    match segmentGet process bkpt with
    | none => .ok reset
    | some segment =>
      if !(segment.executable && segment.filename.any fun filename => !isLinkerFilename filename)
        then .ok reset
      else do
        match ← patchReadInsnDetectKind process.inferior bkpt kind with
        | (none, kind) =>
          return { process with linker := { process.linker with bkpt := 0#n, kind := kind } }
        | (some insn, kind) =>
          let (done, inferior) ← patchInsn process.inferior bkpt kind (getBreakpointInsn kind)
          return { process with inferior := inferior, linker := ⟨if done then bkpt else 0#n, insn, kind⟩ }

/-- `linker_detach`. -/
def linkerDetach (process : Process n) : Except Fault (Process n) :=
  if process.linker.bkpt ≠ 0#n then do
    let (_, inferior) ← patchInsn process.inferior process.linker.bkpt process.linker.kind
        process.linker.insn
    return { process with inferior := inferior, linker := { process.linker with bkpt := 0#n } }
  else .ok process

end Adbi.LinkerAttach
