import Adbi.Trampoline

/-! How a segment gives the memory of its trampolines back, after
`tracepoint/tracepoint.c` and `process/segment.c`. Beside the segment stands
where the memory of its current trampolines came from. The server does not keep
this; it has only the flag `trampoline_stolen`. -/
namespace Adbi.Release
open Adbi.Lib Adbi.Trampoline

/-- The memory of trampolines is taken from an unused segment, or freshly mapped. -/
inductive Origin where
  | stolen | mapped
  deriving DecidableEq

/-- What the inferior is asked to do: `mprotect` with `PROT_NONE`, or `munmap`. -/
inductive Request where
  | protect (start size : Nat)
  | unmap (start size : Nat)
  deriving DecidableEq

/-- What the inferior gets of an argument of `fncall_call_adbi`, which takes each as an `int` and
puts it into a register. `fncall_call_mprotect` goes through it, `fncall_free` does not. -/
def intArgument (m : Machine) (argument : Nat) : Nat :=
  ((BitVec.ofNat 32 argument).signExtend 64).toNat % m.modulus

/-- A call of `trampoline_free`. -/
structure Freeing where
  start : Nat
  size : Nat
  origin : Origin
  request : Request
  deriving DecidableEq

structure Held where
  segment : Segment
  origin : Origin

/-- `trampoline_free`. -/
def trampolineFree (m : Machine) (held : Held) : Freeing where
  start := held.segment.trampolines
  size := held.segment.trampolinesSize
  origin := held.origin
  request :=
    if held.segment.stolen then
      .protect (intArgument m held.segment.trampolines) (intArgument m held.segment.trampolinesSize)
    else .unmap held.segment.trampolines held.segment.trampolinesSize

/-- `tracepoints_cleanup`, with `free_trampolines`. -/
def cleanup (m : Machine) (held : Held) : Traced Freeing Held :=
  ⟨{ held with segment := tracepointsCleanup held.segment },
    if held.segment.trampolines = 0 then [] else [trampolineFree m held]⟩

/-- `allocate_trampoline`. -/
def allocateTrampoline (m : Machine) (segments : List Segment) (setup : Setup) (g : Segment) :
    Option Held :=
  match searchTrampoline m segments g setup.answers with
  | some found =>
    some ⟨{ g with trampolines := found.start, stolen := g.stolen || found.stolen },
      if found.stolen then .stolen else .mapped⟩
  | none => setup.allocated.map fun start => ⟨{ g with trampolines := start }, .mapped⟩

/-- The first part of `tracepoints_init`: the tracepoints and the size of their trampolines. -/
def createTracepoints (setup : Setup) (g : Segment) : Segment :=
  { g with
    tracepoints := setup.tracepoints.filter fun a => g.start ≤ a && a < g.stop
    trampolinesSize := setup.size }

/-- `tracepoints_init`, for a segment that has handlers. -/
def initTracepoints (m : Machine) (segments : List Segment) (setup : Setup) (held : Held) :
    Traced Freeing Held :=
  let g := createTracepoints setup held.segment
  if g.tracepoints.isEmpty then pure { held with segment := { g with trampolinesSize := 0 } }
  else
    match allocateTrampoline m segments setup g with
    | some got => if setup.written then pure got else cleanup m got
    | none => cleanup m { held with segment := { g with trampolines := 0 } }

/-- A load, with the segments of the process at that time. -/
structure Load where
  segments : List Segment
  setup : Setup

/-- `injections_init`, for this segment. -/
def initInjections (setup : Setup) (g : Segment) : Segment := (injectionsInit setup ⟨[], []⟩ g).2

/-- `segment_attach_injectable`, for this segment. -/
def attachSegment (m : Machine) (load : Load) (held : Held) : Traced Freeing Held :=
  if held.segment.injection.isSome then pure held
  else
    let held := { held with segment := initInjections load.setup held.segment }
    if held.segment.injection.isSome then initTracepoints m load.segments load.setup held else pure held

/-- `segment_detach_injectable`, for this segment. -/
def detachSegment (m : Machine) (injectable : Injectable) (held : Held) : Traced Freeing Held :=
  if held.segment.injection = some injectable then do
    let held ← cleanup m held
    return { held with segment := { held.segment with injection := none } }
  else pure held

inductive Change where
  | load (load : Load)
  | unload (injectable : Injectable)

def change (m : Machine) (held : Held) : Change → Traced Freeing Held
  | .load load => attachSegment m load held
  | .unload injectable => detachSegment m injectable held

/-- A segment that was just found in the memory map. -/
def found (mapping : Mapping) : Held := ⟨segmentNew mapping, .mapped⟩

/-- Loads and unloads on a segment, from the time it was found. -/
def runLoads (m : Machine) (mapping : Mapping) (changes : List Change) : Traced Freeing Held :=
  changes.foldlM (change m) (found mapping)

end Adbi.Release
