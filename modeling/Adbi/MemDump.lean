import Adbi.Protocol

/-! What `handle_MEMD` calls, over the registry of attached processes with the
references that are held: `process/list.c`, `mem_read` of `procutil/mem.c` and
`procfs_mem_read` of `procutil/procfs.c`. -/
namespace Adbi.MemDump
open Adbi.Payload Adbi.Protocol

/-- `thread_t`. -/
structure Entry where
  tid : Word
  running : Bool
  dead : Bool
  references : Nat

/-- `process_t`. -/
structure Target where
  references : Nat
  threads : List Entry

/-- The attached processes. -/
abbrev World := Word → Option Target

/-- What the kernel answers during one request. -/
structure Kernel where
  /-- The byte at an address of the inferior, if its memory can be opened and read there. -/
  memory : BitVec 64 → Option (BitVec 8)
  /-- Whether a wait for the stopped thread reports that it is gone. -/
  exited : Bool

def changeTarget (pid : Word) (f : Target → Target) (w : World) : World :=
  fun other => if other = pid then (w other).map f else w other

/-- `process_get`. -/
def processGet (pid : Word) (w : World) : Option World :=
  (w pid).map fun _ => changeTarget pid (fun t => { t with references := t.references + 1 }) w

/-- `process_put`, of a process that is still in the registry. -/
def processPut (pid : Word) : World → World :=
  changeTarget pid fun t => { t with references := t.references - 1 }

/-- `thread_dup`. -/
def threadDup (tid : Word) (w : World) : World := fun pid =>
  (w pid).map fun t => { t with
    threads := t.threads.map fun e => if e.tid =
      tid then { e with references := e.references + 1 } else e }

/-- `thread_exit`, of a thread to which there is a reference besides that of the registry. -/
def threadExit (tid : Word) (w : World) : World := fun pid =>
  (w pid).map fun t => { t with threads := t.threads.filter fun e => e.tid ≠ tid }

/-- The bytes from an address on, as far as they can be read. -/
def readable (memory : BitVec 64 → Option (BitVec 8)) : Nat → BitVec 64 → List (BitVec 8)
  | 0, _ => []
  | count + 1, address =>
    match memory address with
    | none => []
    | some byte => byte :: readable memory count (address + 1)

section
variable (kernel : Kernel)

/-- `procfs_mem_read`. -/
def procfsMemRead (address : BitVec 64) (size : Word) : List (BitVec 8) :=
  readable kernel.memory size.toNat address

/-- `mem_read`, of a thread that is alive; `thread_check_alive` waits for it. -/
def memRead (tid : Word) (address : BitVec 64) (count : Word) (w : World) : List (BitVec 8) × World :=
  let read := procfsMemRead kernel address count
  if read.length < count.toNat ∧ kernel.exited then (read, threadExit tid w) else (read, w)

/-- `process->threads`. -/
def threads (pid : Word) (w : World) : List Thread :=
  match w pid with
  | none => []
  | some t => t.threads.map fun e => ⟨e.tid, e.running, e.dead⟩

/-- The operations on this registry, which all return, among any others. -/
def operations (others : Operations World) : Operations World :=
  { others with
    aborted := fun _ => false, processGet := processGet, processPut := processPut, threads :=
    threads, threadDup := threadDup,
    memRead := memRead kernel }

end

end Adbi.MemDump
