import Adbi.Injection
import Adbi.Trampoline

/-! Cloning what the server knows of a process when it forks, after
`process_forked` in `process/process.c`, `segment_fork`, `tracepoints_fork`,
`injection_fork` and `linker_fork`. The kinds of instructions, the templates and
where a template returns to belong to the architecture. -/
namespace Adbi.Fork
open Adbi.Injection Adbi.Trampoline

/-- `tracepoint_t`. -/
structure Tracepoint (K T : Type) where
  address : Nat
  trampoline : Nat
  handler : Nat
  insn : Nat
  insnKind : K
  template : T

/-- `segment_t`, with the injectable of its injection, and its tracepoints by runtime address. -/
structure Segment (K T : Type) extends Mapping where
  state : SegmentState
  injection : Option Iid
  tracepoints : List (Nat × Tracepoint K T)
  trampolines : Nat
  trampolinesSize : Nat
  trampolineStolen : Bool

/-- The breakpoint in the dynamic linker; 0 when there is none. -/
structure Linker (K : Type) where
  bkpt : Nat
  insn : Nat
  kind : K

/-- `injection_t`. -/
structure Injected where
  address : Nat
  references : Nat
  deriving DecidableEq

/-- `process_t`, without its threads. -/
structure Process (K T : Type) where
  segments : List (Segment K T)
  injections : Iid → Option Injected
  jumps : Nat → Option Nat
  linker : Linker K
  mode32 : Bool
  stabilizing : Bool
  spawned : Bool

variable {K T : Type}

/-- `jump_get`: a tree gives a null pointer for what it has not. -/
def jumpGet (jumps : Nat → Option Nat) (address : Nat) : Option Nat := (jumps address).filter (· ≠ 0)

/-- `jump_install`. The tree asserts that the address is new. -/
def jumpInstall (jumps : Nat → Option Nat) (address target : Nat) : Option (Nat → Option Nat) :=
  match jumps address with
  | some _ => none
  | none => some (Function.update jumps address (some target))

/-- `process_create`, in memory that holds anything. -/
def processCreate (memory : Process K T) : Process K T :=
  { memory with
    segments := []
    injections := fun _ => none
    jumps := fun _ => none
    stabilizing := false
    linker := { memory.linker with bkpt := 0 } }

/-- `injection_fork`: `injection_create` starts at no reference. -/
def injectionFork (g : ImportGraph) (child parent : Process K T) : Process K T :=
  { child with
    injections := fun x => (parent.injections x).map fun injection =>
      ⟨injection.address, if x = g.adbi then 1 else if g.library x then injection.references else 0⟩ }

/-- `segment_clone`. -/
def segmentClone (segment : Segment K T) : Segment K T :=
  { segment with
    state := .fresh
    tracepoints := []
    injection := none
    trampolines := 0
    trampolinesSize := 0
    trampolineStolen := false }

section
variable (iterReturnAddress : Tracepoint K T → List (Nat × Nat))

/-- One round of `tracepoints_fork`: the jumps that the parent has at the places
to which the trampoline returns, then the one at the tracepoint itself. -/
def tracepointFork (parentJumps : Nat → Option Nat)
    (acc : (Nat → Option Nat) × List (Nat × Tracepoint K T))
    (node : Nat × Tracepoint K T) : Option ((Nat → Option Nat) × List (Nat × Tracepoint K T)) := do
  let jumps ← (iterReturnAddress node.2).foldlM
    (fun jumps site => if (jumpGet parentJumps site.1).isSome then jumpInstall jumps site.1 site.2
      else some jumps) acc.1
  let jumps ←
    if (jumpGet parentJumps node.2.address).isSome
      then jumpInstall jumps node.2.address node.2.trampoline else some jumps
  if acc.2.any fun other => other.1 = node.1 then none else some (jumps, acc.2 ++ [node])

/-- The reference that a segment takes to the injection of its handlers. -/
def takeReference (child : Process K T) : Option Iid → Option (Process K T)
  | none => some child
  | some x => do
    let injection ← child.injections x
    some { child with
      injections := Function.update child.injections x
        (some { injection with references := injection.references + 1 }) }

/-- `tracepoints_fork`, and the entry of the clone into the tree. -/
def tracepointsFork (parent : Process K T) (child : Process K T) (segment : Segment K T) :
    Option (Process K T) := do
  if child.segments.any fun other => other.start = segment.start then none
  else do
    let child ← takeReference child segment.injection
    let (jumps, tracepoints) ←
      segment.tracepoints.foldlM (tracepointFork iterReturnAddress parent.jumps) (child.jumps, [])
    let clone := { segmentClone segment with
      injection := segment.injection
      trampolines := segment.trampolines
      trampolinesSize := segment.trampolinesSize
      trampolineStolen := segment.trampolineStolen
      tracepoints := tracepoints }
    some { child with jumps := jumps, segments := child.segments ++ [clone] }

/-- `segment_fork`. -/
def segmentFork (child parent : Process K T) : Option (Process K T) :=
  parent.segments.foldlM (tracepointsFork iterReturnAddress parent) child

/-- `linker_fork`. -/
def linkerFork (child parent : Process K T) : Process K T := { child with linker := parent.linker }

/-- `process_forked`, unless an assertion fails. -/
def processForked (g : ImportGraph) (memory parent : Process K T) : Option (Process K T) := do
  let child := { processCreate memory with spawned := parent.spawned }
  let child := injectionFork g child parent
  let child ← segmentFork iterReturnAddress child parent
  some (linkerFork child parent)

end

end Adbi.Fork
