import Mathlib.Algebra.Group.Int.Defs
import Mathlib.Algebra.Group.Nat.Defs
import Mathlib.Data.List.MinMax
import Mathlib.Data.List.Sort
import Adbi.Lib.Traced

/-! Where trampolines are put, after `tracepoint/tracepoint.c` and
`process/segment.c`: the bookkeeping of segments, trampolines and injections of
one process, the scan of its memory map, and the search for room near the
tracepoints. What is mapped comes from the environment, and so do the answers
of `mmap`; the search asks with `MAP_FIXED`, so that whatever was mapped at the
place is replaced. Every place that it takes is recorded with the bookkeeping
at that moment. -/
namespace Adbi.Trampoline
open Adbi.Lib

abbrev Injectable := Nat
abbrev Filename := Nat

/-- What depends on the target: the size of a page, the number of addresses, and
`arch_check_relative_jump`. -/
structure Machine where
  page : Nat
  modulus : Nat
  checkRelativeJump : Nat → Nat → Bool
  page_pos : 0 < page
  page_dvd : page ∣ modulus
  modulus_pos : 0 < modulus

/-- Whether a branch at `pc` can span the distance to `dest`. -/
def inBranchRange (min max : Nat) (pc dest : Nat) : Bool :=
  if pc ≤ dest then dest - pc ≤ max else pc - dest ≤ min

/-- `arm64_check_relative_jump_kind` for A64. -/
def arm64 : Machine where
  page := 4096
  modulus := 2 ^ 64
  checkRelativeJump addr dest := inBranchRange 134217728 134217724 addr dest
  page_pos := by decide
  page_dvd := by decide
  modulus_pos := by decide

/-- `arm_check_relative_jump_kind` for A32, where the pc is two instructions ahead. -/
def arm : Machine where
  page := 4096
  modulus := 2 ^ 32
  checkRelativeJump addr dest := inBranchRange 33554432 33554428 ((addr + 8) % 2 ^ 32) dest
  page_pos := by decide
  page_dvd := by decide
  modulus_pos := by decide

namespace Machine
variable (m : Machine)

def add (a b : Nat) : Nat := (a + b) % m.modulus

def sub (a b : Nat) : Nat := (a + (m.modulus - b % m.modulus)) % m.modulus

/-- `fncall_align_to_page`. -/
def alignToPage (size : Nat) : Nat := (m.sub size 1 / m.page + 1) * m.page % m.modulus

end Machine

/-! ## Bookkeeping -/

/-- A line of the memory map. -/
structure Mapping where
  start : Nat
  stop : Nat
  filename : Option Filename
  offset : Nat
  readable : Bool
  writeable : Bool
  executable : Bool
  shared : Bool
  deriving DecidableEq

inductive SegmentState where
  | fresh | old | deleted
  deriving DecidableEq

/-- `segment_t`; `trampolines` is 0 when there are none. -/
structure Segment extends Mapping where
  state : SegmentState
  injection : Option Injectable
  tracepoints : List Nat
  trampolines : Nat
  trampolinesSize : Nat
  stolen : Bool
  deriving DecidableEq

/-- `injection_t`. -/
structure Injection where
  injectable : Injectable
  address : Nat
  size : Nat
  deriving DecidableEq

/-- The trees `segments`, by start, and `injections` of a process. -/
structure Space where
  segments : List Segment
  injections : List Injection
  deriving DecidableEq

/-- `segment_is_unused`. -/
def Mapping.unused (mapping : Mapping) : Bool :=
  !mapping.readable && !mapping.writeable && !mapping.executable && !mapping.shared &&
    mapping.filename.isNone

/-- `segment_get`, by `tree_get_le`. -/
def segmentGet (segments : List Segment) (address : Nat) : Option Segment :=
  ((segments.filter fun g => g.start ≤ address).argmax fun g => g.start).filter fun g => address < g.stop

/-- `segment_check_address_is_code`. -/
def segmentCheckAddressIsCode (segments : List Segment) (address : Nat) : Bool :=
  ((segmentGet segments address).map fun g => g.executable).getD false

/-- `procfs_address_executable`, over the lines of the memory map. -/
def procfsAddressExecutable (mappings : List Mapping) (address : Nat) : Bool :=
  mappings.any fun mapping => mapping.start ≤ address && mapping.stop ≥ address && mapping.executable

/-- `address_is_artificial`. -/
def addressIsArtificial (s : Space) (address : Nat) : Bool :=
  (s.injections.any fun i => i.address ≤ address && address < i.address + i.size) ||
    s.segments.any fun g =>
      g.trampolines ≠ 0 && g.trampolines ≤ address && address < g.trampolines + g.trampolinesSize

def Space.put (s : Space) (g : Segment) : Space :=
  { s with segments := s.segments.map fun h => if h.start = g.start then g else h }

/-! ## The search -/

/-- A place where `tracepoint_iter_free_segments_around` finds room. -/
inductive Room where
  | gap (start size : Nat)
  | unused (segment : Segment)

/-- The offsets of the search below and above the tracepoints. -/
structure Cursor where
  beoff : Nat
  aboff : Nat
  beoffIsReachable : Bool
  aboffIsReachable : Bool

/-- The memory that a search took, and whether it took it from an unused segment. -/
structure Found where
  start : Nat
  stolen : Bool

section
variable (m : Machine) (segments : List Segment) (owner : Segment) (low hi : Nat) (maxSize : Nat)

/-- The page from which the offsets count. -/
def center : Nat := m.sub (m.alignToPage (m.add low (m.sub hi low / 2))) m.page

def startCursor : Cursor :=
  let addr := center m low hi
  let beoff := m.add (m.sub addr owner.start) m.page
  let aboff := m.sub owner.stop addr
  { beoff := beoff
    aboff := aboff
    beoffIsReachable := m.checkRelativeJump hi (m.sub addr beoff)
    aboffIsReachable := m.checkRelativeJump low (m.add (m.add addr aboff) m.page) }

/-- The inner loop below: a gap grows downwards page by page. -/
def extendBelow : Nat → Nat → Nat → Nat → Bool → Nat × Nat × Nat × Bool
  | 0, start, size, beoff, reachable => (start, size, beoff, reachable)
  | pages + 1, start, size, beoff, reachable =>
    if size < maxSize && reachable && (segmentGet segments (m.sub (center m low hi) beoff)).isNone then
      extendBelow pages (m.sub start m.page) (size + m.page) (beoff + m.page)
        (m.checkRelativeJump hi (m.sub (center m low hi) (beoff + m.page)))
    else (start, size, beoff, reachable)

/-- The inner loop above. It looks at the pages below the center. -/
def extendAbove : Nat → Nat → Nat → Bool → Nat × Nat × Bool
  | 0, size, aboff, reachable => (size, aboff, reachable)
  | pages + 1, size, aboff, reachable =>
    if size < maxSize && reachable && (segmentGet segments (m.sub (center m low hi) aboff)).isNone then
      extendAbove pages (size + m.page) (aboff + m.page)
        (m.checkRelativeJump low (m.add (m.sub (center m low hi) (aboff + m.page)) m.page))
    else (size, aboff, reachable)

/-- One round of the loop below the tracepoints. -/
def lookBelow (cursor : Cursor) : Cursor × Option Room :=
  let addr := center m low hi
  match segmentGet segments (m.sub addr cursor.beoff) with
  | none =>
    let beoff := cursor.beoff + m.page
    let (start, size, beoff, reachable) := extendBelow m segments low hi maxSize (maxSize / m.page)
      (m.sub addr cursor.beoff) m.page beoff (m.checkRelativeJump hi (m.sub addr beoff))
    ({ cursor with beoff := beoff, beoffIsReachable := reachable }, some (.gap start size))
  | some seg =>
    let beoff := cursor.beoff + (seg.stop - seg.start)
    ({ cursor with beoff := beoff, beoffIsReachable := m.checkRelativeJump hi (m.sub addr beoff) },
      if seg.unused && m.checkRelativeJump hi seg.start then some (.unused seg) else none)

/-- One round of the loop above the tracepoints. -/
def lookAbove (cursor : Cursor) : Cursor × Option Room :=
  let addr := center m low hi
  match segmentGet segments (m.add addr cursor.aboff) with
  | none =>
    let aboff := cursor.aboff + m.page
    let (size, aboff, reachable) := extendAbove m segments low hi maxSize (maxSize / m.page) m.page aboff
      (m.checkRelativeJump low (m.add (m.add addr aboff) m.page))
    ({ cursor with aboff := aboff, aboffIsReachable := reachable },
      some (.gap (m.add addr cursor.aboff) size))
  | some seg =>
    let aboff := cursor.aboff + (seg.stop - seg.start)
    ({ cursor with aboff := aboff, aboffIsReachable := m.checkRelativeJump low (m.add addr aboff) },
      if seg.unused && m.checkRelativeJump low seg.stop then some (.unused seg) else none)

/-- `trampoline_mmap`, with the next answer of the kernel. No mapping goes past
the last address. -/
def trampolineMmap (start : Nat) (stolen : Bool) : List Bool → Option Found × List Bool
  | [] => (none, [])
  | answer :: rest =>
    (if answer && start + maxSize ≤ m.modulus then some ⟨start, stolen⟩ else none, rest)

/-- `find_coherent`. -/
def findCoherent (room : Option Room) (answers : List Bool) : Option Found × List Bool :=
  match room with
  | none => (none, answers)
  | some (.unused seg) =>
    if maxSize ≤ seg.stop - seg.start then trampolineMmap m maxSize seg.start true answers
      else (none, answers)
  | some (.gap start size) =>
    if maxSize ≤ size then trampolineMmap m maxSize start false answers else (none, answers)

/-- `tracepoint_iter_free_segments_around`: the two loops in turn, the one that
is `above` or the other. -/
def iterFreeSegmentsAround : Nat → Bool → Cursor → List Bool → Option Found
  | 0, _, _, _ => none
  | steps + 1, false, cursor, answers =>
    if cursor.beoffIsReachable && (cursor.beoff ≤ cursor.aboff || !cursor.aboffIsReachable) then
      let (next, room) := lookBelow m segments low hi maxSize cursor
      match findCoherent m maxSize room answers with
      | (some found, _) => some found
      | (none, answers) => iterFreeSegmentsAround steps false next answers
    else iterFreeSegmentsAround steps true cursor answers
  | steps + 1, true, cursor, answers =>
    if cursor.aboffIsReachable && (cursor.aboff ≤ cursor.beoff || !cursor.beoffIsReachable) then
      let (next, room) := lookAbove m segments low hi maxSize cursor
      match findCoherent m maxSize room answers with
      | (some found, _) => some found
      | (none, answers) => iterFreeSegmentsAround steps true next answers
    else if cursor.beoffIsReachable || cursor.aboffIsReachable then
      iterFreeSegmentsAround steps false cursor answers
    else none

end

/-! ## Instrumenting a segment -/

/-- What loading handlers for a segment meets: the injections it takes, the
tracepoints and the size of their trampolines, the answers to the requests of
the search, the memory allocated when the search finds nothing, and whether the
trampolines could be written. -/
structure Setup where
  injected : List Injection
  handler : Option Injectable
  tracepoints : List Nat
  size : Nat
  answers : List Bool
  allocated : Option Nat
  written : Bool

/-- A place that the search took for the trampolines of `owner`, and what the kernel answered. -/
structure Placement where
  space : Space
  owner : Segment
  answers : List Bool
  start : Nat
  deriving DecidableEq

/-- The lowest and the highest tracepoint. -/
def tracepointRange (g : Segment) : Nat × Nat :=
  (g.tracepoints.foldl min g.stop, g.tracepoints.foldl max g.start)

section
variable (m : Machine)

/-- `allocate_trampoline`. The search gives up out of branch range, long before
it has looked at every page twice. -/
def searchTrampoline (segments : List Segment) (g : Segment) (answers : List Bool) : Option Found :=
  iterFreeSegmentsAround m segments (tracepointRange g).1 (tracepointRange g).2
    (m.alignToPage g.trampolinesSize)
    (4 * m.modulus) false (startCursor m g (tracepointRange g).1 (tracepointRange g).2) answers

/-- `tracepoints_cleanup`. -/
def tracepointsCleanup (g : Segment) : Segment :=
  { g with trampolines := 0, trampolinesSize := 0, tracepoints := [] }

/-- `tracepoints_init`, for a segment that has handlers. -/
def tracepointsInit (setup : Setup) (s : Space) (g : Segment) : Traced Placement Space :=
  let g := { g with
    tracepoints := setup.tracepoints.filter fun a => g.start ≤ a && a < g.stop
    trampolinesSize := setup.size }
  if g.tracepoints.isEmpty then pure (s.put { g with trampolinesSize := 0 })
  else
    match searchTrampoline m s.segments g setup.answers with
    | some found =>
      let installed := { g with trampolines := found.start, stolen := g.stolen || found.stolen }
      ⟨s.put (if setup.written then installed else tracepointsCleanup installed),
        [⟨s, g, setup.answers, found.start⟩]⟩
    | none =>
      match setup.allocated with
      | none => pure (s.put (tracepointsCleanup g))
      | some start =>
        pure (s.put (if setup.written then { g with trampolines := start } else tracepointsCleanup g))

/-- `injections_init`. -/
def injectionsInit (setup : Setup) (s : Space) (g : Segment) : Space × Segment :=
  if g.injection.isSome || g.filename.isNone || !g.executable || g.writeable then (s, g)
  else
    let g := { g with injection := setup.handler }
    ({ s with injections := s.injections ++ setup.injected }.put g, g)

/-- Both, for a segment of the process. -/
def segmentInit (setup : Setup) (s : Space) (g : Segment) : Traced Placement Space :=
  let (s, g) := injectionsInit setup s g
  if g.injection.isSome then tracepointsInit m setup s g else pure s

/-! ## Scanning the memory map -/

/-- `segment_equal`. -/
def segmentEqual (a b : Mapping) : Bool :=
  a.start = b.start && a.stop = b.stop && a.filename = b.filename &&
    (a.filename.isNone || a.offset = b.offset)

/-- `segment_clone`, for a line of the map. -/
def segmentNew (mapping : Mapping) : Segment :=
  { mapping with
    state := .fresh, injection := none, tracepoints := [], trampolines := 0, trampolinesSize :=
    0, stolen := false }

/-- `notify` in `segment_rescan`; the second part is `again`. -/
def notify (acc : Space × Bool) (mapping : Mapping) : Space × Bool :=
  match acc.1.segments.find? fun g => g.start = mapping.start with
  | some old =>
    if segmentEqual mapping old.toMapping then (acc.1.put { old with state := .old }, acc.2)
      else (acc.1, true)
  | none =>
    if addressIsArtificial acc.1 mapping.start then acc
    else
      ({ acc.1 with
        segments := acc.1.segments.orderedInsert (fun g h => g.start ≤ h.start)
          (segmentNew mapping) }, acc.2)

/-- One look at the memory map, and what it takes to instrument its segments. -/
structure Pass where
  mappings : List Mapping
  setups : Nat → Setup

/-- What is done with a segment after the look at the map. -/
def visit (setups : Nat → Setup) (s : Space) (start : Nat) : Traced Placement Space :=
  match s.segments.find? fun g => g.start = start with
  | none => pure s
  | some g =>
    match g.state with
    | .fresh => do
      let s ← segmentInit m (setups start) s g
      pure { s with segments := s.segments.map fun h => if h.start = start then { h with state := .old } else h }
    | .deleted => pure { s with segments := s.segments.filter fun h => h.start ≠ start }
    | .old => pure s

/-- One round of `segment_rescan`. -/
def scanOnce (pass : Pass) (s : Space) : Traced Placement (Space × Bool) := do
  let marked := { s with segments := s.segments.map fun g => { g with state := .deleted } }
  let scanned := pass.mappings.foldl notify (marked, false)
  let s ← (scanned.1.segments.map fun g => g.start).foldlM (visit m pass.setups) scanned.1
  pure (s, scanned.2)

/-- `segment_rescan`, as long as there are looks at the map. -/
def segmentRescan : List Pass → Space → Traced Placement Space
  | [], s => pure s
  | pass :: rest, s => do
    let scanned ← scanOnce m pass s
    if scanned.2 then segmentRescan rest scanned.1 else pure scanned.1

/-- The state in which `segment_rescan` ends, if it does within these looks at the map. -/
def rescanEnds : List Pass → Space → Option Space
  | [], _ => none
  | pass :: rest, s =>
    if (scanOnce m pass s).value.2 then rescanEnds rest (scanOnce m pass s).value.1
      else some (scanOnce m pass s).value.1

/-! ## Runs -/

/-- What happens to an attached process. -/
inductive Operation where
  /-- `segment_rescan`, also as the last step of attaching. -/
  | rescan (passes : List Pass)
  /-- `segment_attach_injectable`. -/
  | load (setups : Nat → Setup)
  /-- `segment_detach_injectable`, and the injections that `injection_detach_single` removes. -/
  | unload (injectable : Injectable) (removed : List Injectable)

/-- `segment_attach_injectable`, for one segment. -/
def attachInjectable (setups : Nat → Setup) (s : Space) (start : Nat) : Traced Placement Space :=
  match s.segments.find? fun g => g.start = start with
  | none => pure s
  | some g => if g.injection.isNone then segmentInit m (setups start) s g else pure s

def perform (s : Space) : Operation → Traced Placement Space
  | .rescan passes => segmentRescan m passes s
  | .load setups => (s.segments.map fun g => g.start).foldlM (attachInjectable m setups) s
  | .unload injectable removed =>
    pure
      { segments := s.segments.map fun g =>
          if g.injection = some injectable then { tracepointsCleanup g with injection := none } else g
        injections := s.injections.filter fun i => !removed.contains i.injectable }

/-- A process with nothing but the injection of `#adbi`, as `process_attach` has it before the first
scan. -/
def attached (adbi : Injection) : Space := ⟨[], [adbi]⟩

def runOperations (adbi : Injection) (operations : List Operation) : Traced Placement Space :=
  operations.foldlM (perform m) (attached adbi)

end

end Adbi.Trampoline
