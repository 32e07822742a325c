import Adbi.GapsProofs
import Adbi.Release

/-! When the memory of trampolines is given back the way it was got. The flag
`trampoline_stolen` is set and never taken back, so that memory which is mapped
later, for the same segment, is protected instead of unmapped. And the range that
is protected is cut to the size of an `int` on its way to the inferior. -/
namespace Adbi.ReleaseProofs
open Adbi.Lib Adbi.Trampoline Adbi.Release

/-- Stolen memory is protected, mapped memory is unmapped, and each where it lies. -/
def Matches (freeing : Freeing) : Prop :=
  (freeing.request = .protect freeing.start freeing.size ↔ freeing.origin = .stolen) ∧
    (freeing.request = .unmap freeing.start freeing.size ↔ freeing.origin = .mapped)

/-! ## Arguments of the inferior's functions -/

/-- An argument that `fncall_call_adbi` hands on unchanged. -/
def Whole (m : Machine) (argument : Nat) : Prop := intArgument m argument = argument

theorem whole_zero (m : Machine) : Whole m 0 := by
  simp [Whole, intArgument]

/-- On 32 bits nothing is lost. -/
theorem whole_arm {argument : Nat} (fits : argument < 2 ^ 32) : Whole arm argument := by
  simp only [Whole, intArgument, arm, BitVec.toNat_signExtend, BitVec.toNat_setWidth, BitVec.toNat_ofNat]
  split <;> omega

/-- On 64 bits the arguments survive whose upper half repeats the sign of the lower one. -/
theorem whole_arm64_iff {argument : Nat} (fits : argument < 2 ^ 64) :
    Whole arm64 argument ↔ argument < 2 ^ 31 ∨ 2 ^ 64 - 2 ^ 31 ≤ argument := by
  simp only [Whole, intArgument, arm64, BitVec.toNat_signExtend, BitVec.toNat_setWidth,
    BitVec.toNat_ofNat,
    BitVec.msb_eq_decide]
  split <;> simp_all <;> omega

/-! ## What a load gets -/

/-- The tracepoints for which a load looks for memory. -/
def tracepointsFor (setup : Setup) (g : Segment) : Option Segment :=
  if g.injection.isSome then none
  else
    let g := initInjections setup g
    let created := createTracepoints setup g
    if g.injection.isSome && !created.tracepoints.isEmpty then some created else none

/-- The first room around the tracepoints that is large enough and granted. -/
def roomFor (m : Machine) (segments : List Segment) (setup : Setup) (g : Segment) : Option Room :=
  Gaps.granted m (m.alignToPage g.trampolinesSize)
    (Gaps.rooms m segments (tracepointRange g).1 (tracepointRange g).2
      (m.alignToPage g.trampolinesSize) g)
    setup.answers

theorem search_room (m : Machine) (segments : List Segment) (setup : Setup) (g : Segment) :
    searchTrampoline m segments g setup.answers = (roomFor m segments setup g).map Gaps.takes :=
  GapsProofs.search_granted segments _ _ _ _

/-- A load takes an unused segment, a gap, or what `fncall_allocate` finds. -/
theorem allocate_cases (got : allocateTrampoline m segments setup g = some held) :
    (∃ room, roomFor m segments setup g = some (.unused room) ∧
      held = ⟨{ g with trampolines := room.start, stolen := true }, .stolen⟩) ∨
    (∃ start size, roomFor m segments setup g = some (.gap start size) ∧
      held = ⟨{ g with trampolines := start }, .mapped⟩) ∨
    (roomFor m segments setup g = none ∧ ∃ start, setup.allocated = some start ∧
      held = ⟨{ g with trampolines := start }, .mapped⟩) := by
  rw [allocateTrampoline, search_room] at got
  match room : roomFor m segments setup g with
  | none =>
    rw [room] at got
    obtain ⟨start, isStart, rfl⟩ := Option.map_eq_some_iff.mp got
    exact .inr (.inr ⟨rfl, start, isStart, rfl⟩)
  | some (.unused room') =>
    rw [room] at got
    exact .inl ⟨room', rfl, by simpa [Gaps.takes] using got.symm⟩
  | some (.gap start size) =>
    rw [room] at got
    exact .inr (.inl ⟨start, size, rfl, by simpa [Gaps.takes] using got.symm⟩)

/-- An unused segment that is taken has an address that survives the call. Once memory was stolen
for the segment, no other memory is taken. -/
def Suits (m : Machine) (setup : Setup) (g : Segment) : Option Room → Prop
  | some (.unused room) => Whole m room.start ∧ Whole m g.trampolinesSize
  | some (.gap _ _) => g.stolen = false
  | none => g.stolen = true → setup.allocated = none

/-- What a load gets for the segment can be given back. -/
def Releasable (m : Machine) (held : Held) : Change → Prop
  | .load load => ∀ g, tracepointsFor load.setup held.segment = some g →
      Suits m load.setup g (roomFor m load.segments load.setup g)
  | .unload _ => True

/-! ## One action -/

/-- The flag tells where the memory of the current trampolines came from, and stolen memory can be
named. -/
def Flagged (m : Machine) (held : Held) : Prop :=
  held.segment.trampolines ≠ 0 → (held.segment.stolen = true ↔ held.origin = .stolen) ∧
    (held.origin = .stolen → Whole m held.segment.trampolines ∧ Whole m held.segment.trampolinesSize)

theorem matches_of_flagged (flagged : Flagged m held) (there : held.segment.trampolines ≠ 0) :
    Matches (trampolineFree m held) := by
  obtain ⟨flag, whole⟩ := flagged there
  cases origin : held.origin with
  | stolen =>
    obtain ⟨start, size⟩ := whole origin
    have stolen : held.segment.stolen = true := flag.mpr origin
    rw [Whole] at start size
    simp [Matches, trampolineFree, stolen, origin, start, size]
  | mapped =>
    have natural : held.segment.stolen = false := by simpa [origin] using flag
    simp [Matches, trampolineFree, natural, origin]

/-- Cleaning up gives the memory back, if there is any, and none is left. -/
theorem cleanup_spec (flagged : Flagged m held) :
    Flagged m (cleanup m held).value ∧ Traced.Within Matches (cleanup m held) := by
  refine ⟨fun there => absurd rfl there, fun freeing member => ?_⟩
  simp only [cleanup] at member
  split at member
  · cases member
  · rename_i there
    rw [List.mem_singleton.mp member]
    exact matches_of_flagged flagged there

theorem initInjections_stolen (setup : Setup) (g : Segment) :
    (initInjections setup g).stolen = g.stolen ∧ (initInjections setup g).trampolines = g.trampolines ∧
      (initInjections setup g).trampolinesSize = g.trampolinesSize := by
  simp only [initInjections, injectionsInit]
  split <;> exact ⟨rfl, rfl, rfl⟩

/-- New memory is flagged rightly. -/
theorem allocate_flagged (got : allocateTrampoline m segments setup g = some held)
    (suits : Suits m setup g (roomFor m segments setup g)) : Flagged m held := by
  intro _
  obtain ⟨room, found, rfl⟩ | ⟨start, size, found, rfl⟩ | ⟨found, start, allocated, rfl⟩ :=
    allocate_cases got
  · rw [found] at suits
    exact ⟨by simp, fun _ => suits⟩
  · rw [found] at suits
    have natural : g.stolen = false := suits
    exact ⟨by simp [natural], nofun⟩
  · simp only [found, Suits, allocated, reduceCtorEq, imp_false, Bool.not_eq_true] at suits
    exact ⟨by simp [suits], nofun⟩

theorem change_spec (m : Machine) (held : Held) (action : Change) (flagged : Flagged m held)
    (releasable : Releasable m held action) :
    Flagged m (change m held action).value ∧ Traced.Within Matches (change m held action) := by
  cases action with
  | load load =>
    obtain ⟨stolen, trampolines, size⟩ := initInjections_stolen load.setup held.segment
    have now : Flagged m { held with segment := initInjections load.setup held.segment } := by
      simp only [Flagged, stolen, trampolines, size]
      exact flagged
    simp only [change, attachSegment]
    split
    · exact ⟨flagged, Traced.within_pure _⟩
    · rename_i free
      split
      · rename_i injected
        simp only [initTracepoints]
        split
        · refine ⟨fun there => ?_, Traced.within_pure _⟩
          obtain ⟨flag, whole⟩ := now there
          exact ⟨flag, fun stole => ⟨(whole stole).1, whole_zero m⟩⟩
        · rename_i some
          split
          · rename_i got allocated
            have created : tracepointsFor load.setup held.segment =
                .some (createTracepoints load.setup (initInjections load.setup held.segment)) := by
              simp [tracepointsFor, free, injected, some]
            have flagged := allocate_flagged allocated (releasable _ created)
            split
            · exact ⟨flagged, Traced.within_pure _⟩
            · exact cleanup_spec flagged
          · exact cleanup_spec fun there => absurd rfl there
      · exact ⟨now, Traced.within_pure _⟩
  | unload injectable =>
    simp only [change, detachSegment]
    split
    · obtain ⟨-, freed⟩ := cleanup_spec flagged
      exact ⟨fun there => absurd rfl there, (Traced.within_bind _ _).mpr ⟨freed, Traced.within_pure _⟩⟩
    · exact ⟨flagged, Traced.within_pure _⟩

/-- What the segment becomes is what `tracepointsInit` makes of it. -/
theorem tracepointsInit_value (m : Machine) (setup : Setup) (s : Space) (g : Segment) (origin : Origin) :
    (tracepointsInit m setup s g).value =
      s.put (initTracepoints m s.segments setup ⟨g, origin⟩).value.segment := by
  simp only [tracepointsInit, initTracepoints, createTracepoints, allocateTrampoline]
  by_cases empty : (setup.tracepoints.filter fun a => g.start ≤ a && a < g.stop).isEmpty = true
  · simp only [empty, ↓reduceIte]
    rfl
  · simp only [empty, Bool.false_eq_true, ↓reduceIte]
    cases searchTrampoline m s.segments _ setup.answers with
    | some room =>
      simp only
      split <;> rfl
    | none =>
      cases setup.allocated with
      | none => rfl
      | some start =>
        simp only [Option.map_some]
        split <;> rfl

/-! ## Runs -/

/-- In a run whose loads, once memory was stolen, only steal, and never where the address does not
survive the call, memory is always given back the way it was got. -/
theorem stealing_runs_release_rightly (m : Machine) (mapping : Mapping) (changes : List Change)
    (admitted : Traced.Guarded (change m) (Releasable m) (found mapping) changes) :
    ∀ freeing ∈ (runLoads m mapping changes).reads, Matches freeing :=
  (Traced.within_guarded_foldlM (change_spec m) (fun there => absurd rfl there) admitted).2

/-- A page of code with an unused segment below it and nothing above. -/
def code (start : Nat) : Mapping := ⟨start, start + 0x1000, some 1, 0, true, false, true, false⟩

def below (start : Nat) : Mapping := ⟨start - 0x2000, start, none, 0, false, false, false, false⟩

def around (start : Nat) : List Segment := [segmentNew (below start), segmentNew (code start)]

/-- Handlers for one tracepoint, and what the kernel answers to each request. -/
def handlers (start : Nat) (answers : List Bool) : Setup :=
  ⟨[], some 7, [start + 0x10], 64, answers, none, true⟩

def loadWith (start : Nat) (answers : List Bool) : Change := .load ⟨around start, handlers start answers⟩

/-- The segment of code when its handlers are loaded, with the flag as it is. -/
private def instrumented (stolen : Bool) : Segment :=
  { segmentNew (code 0x10000) with
    injection := some 7, tracepoints := [0x10010], trampolinesSize := 64, stolen := stolen }

/-- The load takes the unused segment below, whatever was done before. -/
private theorem releasable_below {held : Held} (stolen : Bool)
    (created : tracepointsFor (handlers 0x10000 [true]) held.segment = some (instrumented stolen)) :
    Releasable arm64 held (loadWith 0x10000 [true]) := by
  intro g isG
  obtain rfl : instrumented stolen = g := Option.some_inj.mp (created.symm.trans isG)
  have searched : searchTrampoline arm64 (around 0x10000) (instrumented stolen)
      (handlers 0x10000 [true]).answers =
      some ⟨0xe000, true⟩ := by cases stolen <;> rfl
  rw [search_room] at searched
  show Suits arm64 _ _ (roomFor arm64 (around 0x10000) (handlers 0x10000 [true]) (instrumented stolen))
  generalize roomFor arm64 (around 0x10000) (handlers 0x10000 [true]) (instrumented stolen) =
    room at searched ⊢
  obtain ⟨taken, rfl, same⟩ := Option.map_eq_some_iff.mp searched
  cases taken with
  | gap start size => cases same
  | unused taken =>
    have start : taken.start = 0xe000 := congrArg Found.start same
    have size : Whole arm64 64 := (whole_arm64_iff (by decide)).mpr (.inl (by decide))
    exact ⟨start ▸ (whole_arm64_iff (by decide)).mpr (.inl (by decide)), size⟩

/-- Loaded twice, the handlers get the unused segment each time. -/
private def stealing : List Change :=
  [loadWith 0x10000 [true], .unload 7, loadWith 0x10000 [true], .unload 7]

theorem stolen_memory_is_protected :
    (runLoads arm64 (code 0x10000) stealing).reads =
      [⟨0xe000, 64, .stolen, .protect 0xe000 64⟩, ⟨0xe000, 64, .stolen, .protect 0xe000 64⟩] ∧
    ∀ freeing ∈ (runLoads arm64 (code 0x10000) stealing).reads, Matches freeing := by
  refine ⟨by decide, stealing_runs_release_rightly arm64 (code 0x10000) stealing ⟨?_, trivial, ?_,
    trivial, trivial⟩⟩
  · exact releasable_below false rfl
  · exact releasable_below true rfl

/-- The second time the kernel refuses the unused segment, and the trampolines come to the page
above. That page is protected in the end, not unmapped. And an unused segment from 2 GiB on is not
protected: another place is. -/
theorem mapped_memory_is_protected :
    (∃ freeing ∈ (runLoads arm64 (code 0x10000)
      [loadWith 0x10000 [true], .unload 7, loadWith 0x10000 [false, true], .unload 7]).reads,
      ¬Matches freeing) ∧
    ∃ freeing ∈ (runLoads arm64 (code 0x80010000) [loadWith 0x80010000 [true], .unload 7]).reads,
      ¬Matches freeing := by
  have freed : (runLoads arm64 (code 0x10000)
      [loadWith 0x10000 [true], .unload 7, loadWith 0x10000 [false, true], .unload 7]).reads =
      [⟨0xe000, 64, .stolen, .protect 0xe000 64⟩, ⟨0x11000, 64, .mapped, .protect 0x11000 64⟩] :=
      by decide
  have high : (runLoads arm64 (code 0x80010000) [loadWith 0x80010000 [true], .unload 7]).reads =
      [⟨0x8000e000, 64, .stolen, .protect 0xffffffff8000e000 64⟩] := by decide
  refine ⟨⟨⟨0x11000, 64, .mapped, .protect 0x11000 64⟩, by simp [freed], fun same => ?_⟩,
    ⟨0x8000e000, 64, .stolen, .protect 0xffffffff8000e000 64⟩, by simp [high], fun same => ?_⟩
  · have stolen := same.1.mp rfl
    cases stolen
  · have protects := same.1.mpr rfl
    simp at protects

end Adbi.ReleaseProofs
