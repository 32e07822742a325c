import Adbi.Lib.Loops
import Adbi.Trampoline

/-! `tracepoint_iter_free_segments_around` step by step, with offsets that wrap as the
addresses do. A step tests the condition of one loop and, if it holds, runs the body up
to the next test. -/
namespace Adbi.GapSearch
open Adbi.Trampoline

/-- The targets, on each of which `arch_check_relative_jump` has its own range. -/
inductive Target where
  | arm64 | arm
  deriving DecidableEq

def Target.machine : Target → Machine
  | .arm64 => Trampoline.arm64
  | .arm => Trampoline.arm

/-- The condition that is tested next: of the outer loop, of the loop below or above the
tracepoints, or of the loop in it that extends a gap. -/
inductive Phase where
  | outer
  | below
  | belowGap (start size : Nat)
  | above
  | aboveGap (start size : Nat)
  deriving DecidableEq

/-- The variables of the function; `res` is false as long as it has not returned. -/
structure State extends Cursor where
  phase : Phase

section

variable (m : Machine) (segments : List Segment) (low hi maxSize : Nat) (fn : Room → Bool)

/-- `beoff` grows, and reachability is checked again. -/
def growBelow (s : State) (size : Nat) (phase : Phase) : State :=
  let beoff := m.add s.beoff size
  { s with beoff := beoff, beoffIsReachable := m.checkRelativeJump hi (m.sub (center m low hi) beoff), phase := phase }

/-- `aboff` grows; which address is checked then differs from place to place. -/
def growAbove (s : State) (size : Nat) (dest : Nat → Nat) (phase : Phase) : State :=
  let aboff := m.add s.aboff size
  { s with aboff := aboff, aboffIsReachable := m.checkRelativeJump low (dest aboff), phase := phase }

/-- The body of a loop goes on unless the callback has accepted the room. -/
def unlessAccepted (accepted : Bool) (s : State) : State ⊕ Bool := if accepted then .inr true else .inl s

/-- One step of the function, which ends with the value that it returns. -/
def step (s : State) : State ⊕ Bool :=
  let addr := center m low hi
  match s.phase with
  | .outer =>
    if s.beoffIsReachable || s.aboffIsReachable then .inl { s with phase := .below } else .inr false
  | .below =>
    if s.beoffIsReachable && (s.beoff ≤ s.aboff || !s.aboffIsReachable) then
      match segmentGet segments (m.sub addr s.beoff) with
      | none => .inl (growBelow m low hi s m.page (.belowGap (m.sub addr s.beoff) m.page))
      | some seg =>
        unlessAccepted (seg.unused && m.checkRelativeJump hi seg.start && fn (.unused seg))
          (growBelow m low hi s (m.sub seg.stop seg.start) .below)
    else .inl { s with phase := .above }
  | .belowGap start size =>
    if size < maxSize && s.beoffIsReachable && (segmentGet segments (m.sub addr s.beoff)).isNone then
      .inl (growBelow m low hi s m.page (.belowGap (m.sub start m.page) (m.add size m.page)))
    else unlessAccepted (fn (.gap start size)) { s with phase := .below }
  | .above =>
    if s.aboffIsReachable && (s.aboff ≤ s.beoff || !s.beoffIsReachable) then
      match segmentGet segments (m.add addr s.aboff) with
      | none =>
        .inl (growAbove m low s m.page (fun aboff => m.add (m.add addr aboff) m.page)
          (.aboveGap (m.add addr s.aboff) m.page))
      | some seg =>
        unlessAccepted (seg.unused && m.checkRelativeJump low seg.stop && fn (.unused seg))
          (growAbove m low s (m.sub seg.stop seg.start) (fun aboff => m.add addr aboff) .above)
    else .inl { s with phase := .outer }
  | .aboveGap start size =>
    -- Here the source looks and jumps to the other side of `addr`.
    if size < maxSize && s.aboffIsReachable && (segmentGet segments (m.sub addr s.aboff)).isNone then
      .inl (growAbove m low s m.page (fun aboff => m.add (m.sub addr aboff) m.page)
        (.aboveGap start (m.add size m.page)))
    else unlessAccepted (fn (.gap start size)) { s with phase := .above }

/-- The state in which the outer loop is entered. -/
def start (owner : Segment) : State := { startCursor m owner low hi with phase := .outer }

end

end Adbi.GapSearch
