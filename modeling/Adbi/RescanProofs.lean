import Adbi.TrampolineProofs

/-! Rescanning the memory map brings the segment tree in step with it, as long
as no region has changed in a way that `segment_equal` does not see. The states
of the segments are followed through one look at the map: all are marked
deleted, those that the map confirms become old again, and what is new is
entered unless it is the server's own. -/
namespace Adbi.RescanProofs
open Adbi.Lib Adbi.Trampoline Adbi.TrampolineProofs

variable {m : Machine} {s : Space} {lines : List Mapping} {setups : Nat → Setup}

/-- The segments of a tree have different starts. -/
def Tree (s : Space) : Prop := s.segments.Pairwise fun g h => g.start ≠ h.start

/-- The lines of a memory map: none is empty, and no two overlap. -/
structure Listing (lines : List Mapping) : Prop where
  nonempty : ∀ line ∈ lines, line.start < line.stop
  disjoint : lines.Pairwise Apart

/-- The map confirms the segment. -/
def Confirmed (lines : List Mapping) (g : Segment) : Prop :=
  ∃ line ∈ lines, segmentEqual line g.toMapping = true

/-- What is artificial and stays so through a scan: injections, and the
trampolines of segments that the map confirms. -/
def StaysArtificial (s : Space) (lines : List Mapping) (address : Nat) : Prop :=
  (∃ i ∈ s.injections, i.address ≤ address ∧ address < i.address + i.size) ∨
    ∃ g ∈ s.segments, Confirmed lines g ∧ g.trampolines ≠ 0 ∧ g.trampolines ≤ address ∧
      address < g.trampolines + g.trampolinesSize

/-- The segments are the regions of the map but for those of the server, and
another rescan changes nothing. -/
structure InStep (m : Machine) (s : Space) (lines : List Mapping) (final : Space) : Prop where
  members : ∀ mapping, (∃ g ∈ final.segments, g.toMapping = mapping) ↔
    mapping ∈ lines ∧ addressIsArtificial s mapping.start = false
  idempotent : ∀ again, rescanEnds m [⟨lines, again⟩] final = some final

/-- The rescan ends, with the tree in step with the map. -/
def Merged (m : Machine) (s : Space) (lines : List Mapping) (first second : Nat → Setup) : Prop :=
  ∃ final, rescanEnds m [⟨lines, first⟩, ⟨lines, second⟩] s = some final ∧ InStep m s lines final

/-- The tree is in step with the map, and so code is found in it where the map has code. -/
def Synchronised (m : Machine) (s : Space) (lines : List Mapping) (first second : Nat → Setup) : Prop :=
  ∃ final, rescanEnds m [⟨lines, first⟩, ⟨lines, second⟩] s = some final ∧ InStep m s lines final ∧
    ∀ address, addressIsArtificial s address = false →
      segmentCheckAddressIsCode final.segments address = procfsAddressExecutable lines address

/-- The process after the first look at the map. -/
def afterFirst (m : Machine) (s : Space) (lines : List Mapping) (first : Nat → Setup) : Space :=
  (scanOnce m ⟨lines, first⟩ s).value.1

/-- Nothing that is put into the process during the scan, in the first look or
in the second, covers the start of a region that is the server's, or that has
changed and waits for the second look. -/
def Undisturbed (m : Machine) (s : Space) (lines : List Mapping) (first second : Nat → Setup) : Prop :=
  ∀ line ∈ lines, addressIsArtificial s line.start = true ∨ (∃ g ∈ s.segments, g.start = line.start) →
    (∀ g ∈ s.segments, segmentEqual line g.toMapping = false) →
    (addressIsArtificial (afterFirst m s lines first) line.start = true →
      StaysArtificial s lines line.start) ∧
    (addressIsArtificial (scanOnce m ⟨lines, second⟩ (afterFirst m s lines first)).value.1
      line.start = true →
      StaysArtificial s lines line.start)

/-- No region changed but in its range, its file or its offset in the file, and
the map shows none of the server's regions that go away in the scan. -/
structure Tracked (s : Space) (lines : List Mapping) : Prop where
  unchanged : ∀ line ∈ lines, ∀ g ∈ s.segments, segmentEqual line g.toMapping = true →
    g.toMapping = line ∧ addressIsArtificial s line.start = false
  staying : ∀ line ∈ lines, addressIsArtificial s line.start = true → StaysArtificial s lines line.start

/-- No natural address is executable only as the end of a region, or within a region of the server. -/
def EndsInside (s : Space) (lines : List Mapping) : Prop :=
  ∀ address, addressIsArtificial s address = false → procfsAddressExecutable lines address = true →
    ∃ line ∈ lines, addressIsArtificial s line.start = false ∧ line.executable = true ∧
    line.start ≤ address ∧
      address < line.stop

/-! ## Lines and segments -/

private instance : Std.Symm Apart := ⟨fun _ _ => Or.symm⟩

private instance : Std.Symm fun g h : Segment => g.start ≠ h.start := ⟨fun _ _ => Ne.symm⟩

theorem Listing.unique (listing : Listing lines) {a b : Mapping} (first : a ∈ lines) (second : b ∈ lines)
    (same : a.start = b.start) : a = b := by
  by_contra different
  have filled := listing.nonempty a first
  have filled' := listing.nonempty b second
  rcases listing.disjoint.forall first second different with before | after <;> omega

theorem Tree.unique (tree : Tree s) {g h : Segment} (first : g ∈ s.segments) (second : h ∈ s.segments)
    (same : g.start = h.start) : g = h := by
  by_contra different
  exact tree.forall first second different same

theorem segmentEqual_start {a b : Mapping} (equal : segmentEqual a b = true) : a.start = b.start := by
  simp only [segmentEqual, Bool.and_eq_true, decide_eq_true_eq] at equal
  exact equal.1.1.1

theorem segmentEqual_self (a : Mapping) : segmentEqual a a = true := by
  simp [segmentEqual]

theorem artificial_iff {address : Nat} : addressIsArtificial s address = true ↔
    (∃ i ∈ s.injections, i.address ≤ address ∧ address < i.address + i.size) ∨
      ∃ g ∈ s.segments, g.trampolines ≠ 0 ∧ g.trampolines ≤ address ∧
        address < g.trampolines + g.trampolinesSize := by
  simp [addressIsArtificial, and_assoc]

theorem StaysArtificial.artificial {address : Nat} (stays : StaysArtificial s lines address) :
    addressIsArtificial s address = true := by
  rw [artificial_iff]
  rcases stays with injected | ⟨g, member, -, inside⟩
  · exact .inl injected
  · exact .inr ⟨g, member, inside⟩

/-! ## One look at the map -/

/-- The segment as it is when the lines have been seen. -/
def marked (seen : List Mapping) (g : Segment) : Segment :=
  { g with state := if seen.any (segmentEqual · g.toMapping) then .old else .deleted }

/-- The line is entered as a new segment. -/
def Entered (s : Space) (seen : List Mapping) (line : Mapping) : Prop :=
  line ∈ seen ∧ (∀ g ∈ s.segments, g.start ≠ line.start) ∧ addressIsArtificial s line.start = false

/-- How the bookkeeping stands when the lines have been seen. -/
private structure Looked (s : Space) (seen : List Mapping) (acc : Space × Bool) : Prop where
  tree : Tree acc.1
  members : ∀ g, g ∈ acc.1.segments ↔
    (∃ h ∈ s.segments, g = marked seen h) ∨ ∃ line, Entered s seen line ∧ g = segmentNew line
  injections : acc.1.injections = s.injections
  again : acc.2 = true ↔ ∃ line ∈ seen, ∃ h ∈ s.segments, h.start = line.start ∧
      segmentEqual line h.toMapping = false

private theorem Looked.artificial {seen : List Mapping} {acc : Space × Bool}
    (looked : Looked s seen acc) (address : Nat) :
    addressIsArtificial acc.1 address = addressIsArtificial s address := by
  rw [Bool.eq_iff_iff, artificial_iff, artificial_iff, looked.injections]
  apply or_congr_right
  constructor
  · rintro ⟨g, member, filled, inside⟩
    rcases (looked.members g).mp member with ⟨h, known, rfl⟩ | ⟨line, -, rfl⟩
    · exact ⟨h, known, filled, inside⟩
    · exact (filled rfl).elim
  · rintro ⟨h, known, inside⟩
    exact ⟨marked seen h, (looked.members _).mpr (.inl ⟨h, known, rfl⟩), inside⟩

private theorem marked_append {seen : List Mapping} {line : Mapping} {g : Segment}
    (other : segmentEqual line g.toMapping = false) : marked (seen ++ [line]) g = marked seen g := by
  simp [marked, other]

private theorem marked_equal {seen : List Mapping} {line : Mapping} {g : Segment}
    (equal : segmentEqual line g.toMapping = true) :
    marked (seen ++ [line]) g = { g with state := .old } := by
  simp [marked, equal]

private theorem find_none {start : Nat} (missing : s.segments.find? (fun g => g.start = start) = none) :
    ∀ g ∈ s.segments, g.start ≠ start := by
  simpa using missing

private theorem entered_append {seen : List Mapping} {line other : Mapping} :
    Entered s (seen ++ [line]) other ↔ Entered s seen other ∨ other = line ∧ Entered s [line] line := by
  unfold Entered
  constructor
  · rintro ⟨member, rest⟩
    rcases List.mem_append.mp member with before | here
    · exact .inl ⟨before, rest⟩
    · cases List.mem_singleton.mp here
      exact .inr ⟨rfl, here, rest⟩
  · rintro (⟨before, rest⟩ | ⟨rfl, here, rest⟩)
    · exact ⟨List.mem_append_left _ before, rest⟩
    · exact ⟨List.mem_append_right _ here, rest⟩

private theorem tree_put (tree : Tree s) (g : Segment) : Tree (s.put g) := by
  refine List.pairwise_map.mpr (tree.imp ?_)
  intro a b different
  split <;> split <;> simp_all

private theorem mem_put {g h : Segment} (known : ∃ k ∈ s.segments, k.start = g.start) :
    h ∈ (s.put g).segments ↔ h = g ∨ h ∈ s.segments ∧ h.start ≠ g.start := by
  unfold Space.put
  simp only [List.mem_map]
  constructor
  · rintro ⟨k, member, rfl⟩
    split
    · exact .inl rfl
    · exact .inr ⟨member, ‹_›⟩
  · rintro (rfl | ⟨member, elsewhere⟩)
    · obtain ⟨k, member, starts⟩ := known
      exact ⟨k, member, if_pos starts⟩
    · exact ⟨h, member, if_neg elsewhere⟩

/-- A line is compared with the segment that starts where it does, if there is one. -/
private theorem notify_looked (tree : Tree s) {seen : List Mapping} {acc : Space × Bool} {line : Mapping}
    (looked : Looked s seen acc) (apart : ∀ other ∈ seen, other.start ≠ line.start) :
    Looked s (seen ++ [line]) (notify acc line) := by
  have unequal : ∀ g : Segment, g.start ≠ line.start → segmentEqual line g.toMapping = false := by
    intro g different
    rw [Bool.eq_false_iff]
    exact fun equal => different (segmentEqual_start equal).symm
  unfold notify
  cases found : acc.1.segments.find? (fun g => g.start = line.start) with
  | some old =>
    obtain ⟨member, starts⟩ := find_start found
    obtain ⟨h, known, rfl⟩ : ∃ h ∈ s.segments, old = marked seen h := by
      rcases (looked.members old).mp member with before | ⟨other, ⟨new, -⟩, rfl⟩
      · exact before
      · exact (apart other new starts).elim
    have alone : ∀ k ∈ s.segments, k ≠ h → k.start ≠ line.start := fun k inside different same =>
      different (tree.unique inside known (same.trans starts.symm))
    have nothing : ¬ Entered s [line] line := fun entered => entered.2.1 h known starts
    cases equal : segmentEqual line h.toMapping with
    | true =>
      have equal' : segmentEqual line (marked seen h).toMapping = true := equal
      simp only [equal', ↓reduceIte]
      have here : ∃ k ∈ acc.1.segments, k.start =
          ({ marked seen h with state := .old } : Segment).start :=
        ⟨_, member, rfl⟩
      refine ⟨tree_put looked.tree _, fun g => ?_, looked.injections, ?_⟩
      · rw [mem_put here, looked.members]
        constructor
        · rintro (rfl | ⟨⟨k, inside, rfl⟩ | ⟨other, entered, rfl⟩, elsewhere⟩)
          · exact .inl ⟨h, known, (marked_equal equal).symm⟩
          · refine .inl ⟨k, inside, (marked_append (unequal k ?_)).symm⟩
            exact fun same => elsewhere (same.trans starts.symm)
          · exact .inr ⟨other, entered_append.mpr (.inl entered), rfl⟩
        · rintro (⟨k, inside, rfl⟩ | ⟨other, entered, rfl⟩)
          · by_cases same : k = h
            · cases same
              exact .inl (marked_equal equal)
            · have elsewhere := alone k inside same
              rw [marked_append (unequal k elsewhere)]
              exact .inr ⟨.inl ⟨k, inside, rfl⟩, fun back => elsewhere (back.trans starts)⟩
          · rcases entered_append.mp entered with before | ⟨rfl, here⟩
            · refine .inr ⟨.inr ⟨other, before, rfl⟩, fun back => ?_⟩
              exact apart other before.1 (back.trans starts)
            · exact (nothing here).elim
      · rw [looked.again]
        constructor
        · rintro ⟨other, before, rest⟩
          exact ⟨other, List.mem_append_left _ before, rest⟩
        · rintro ⟨other, member', k, inside, same, different⟩
          rcases List.mem_append.mp member' with before | here
          · exact ⟨other, before, k, inside, same, different⟩
          · cases List.mem_singleton.mp here
            cases tree.unique inside known (same.trans starts.symm)
            rw [equal] at different
            cases different
    | false =>
      have equal' : segmentEqual line (marked seen h).toMapping = false := equal
      simp only [equal', Bool.false_eq_true, ↓reduceIte]
      refine ⟨looked.tree, fun g => ?_, looked.injections, ?_⟩
      · rw [looked.members]
        apply or_congr
        · refine exists_congr fun k => and_congr_right fun inside => ?_
          by_cases same : k = h
          · cases same
            rw [marked_append equal]
          · rw [marked_append (unequal k (alone k inside same))]
        · refine exists_congr fun other => and_congr_left fun _ => ?_
          rw [entered_append]
          exact (or_iff_left fun here => nothing here.2).symm
      · exact iff_of_true rfl ⟨line, by simp, h, known, starts, equal⟩
  | none =>
    have free : ∀ k ∈ s.segments, k.start ≠ line.start := fun k inside =>
      find_none found (marked seen k) ((looked.members _).mpr (.inl ⟨k, inside, rfl⟩))
    have again : (∃ other ∈ seen ++ [line], ∃ h ∈ s.segments, h.start = other.start ∧
          segmentEqual other h.toMapping = false) ↔
        ∃ other ∈ seen, ∃ h ∈ s.segments, h.start = other.start ∧
        segmentEqual other h.toMapping = false := by
      constructor
      · rintro ⟨other, member, h, inside, same, rest⟩
        rcases List.mem_append.mp member with before | here
        · exact ⟨other, before, h, inside, same, rest⟩
        · cases List.mem_singleton.mp here
          exact (free h inside same).elim
      · rintro ⟨other, before, rest⟩
        exact ⟨other, List.mem_append_left _ before, rest⟩
    have kept : ∀ g, (∃ h ∈ s.segments, g = marked (seen ++ [line]) h) ↔
        ∃ h ∈ s.segments, g = marked seen h :=
      fun g => exists_congr fun k => and_congr_right fun inside =>
      by rw [marked_append (unequal k (free k inside))]
    simp only [looked.artificial]
    cases artificial : addressIsArtificial s line.start with
    | true =>
      have nothing : ¬ Entered s [line] line := fun entered => by
        rw [entered.2.2] at artificial
        cases artificial
      simp only [↓reduceIte]
      refine ⟨looked.tree, fun g => ?_, looked.injections, looked.again.trans again.symm⟩
      rw [looked.members, kept]
      refine or_congr_right (exists_congr fun other => and_congr_left fun _ => ?_)
      rw [entered_append]
      exact (or_iff_left fun here => nothing here.2).symm
    | false =>
      have entered : Entered s [line] line := ⟨by simp, free, artificial⟩
      simp only [Bool.false_eq_true, ↓reduceIte]
      refine ⟨?_, fun g => ?_, looked.injections, looked.again.trans again.symm⟩
      · refine (List.perm_orderedInsert _ _ _).symm.pairwise ?_ fun different => different.symm
        exact List.pairwise_cons.mpr ⟨fun k inside same => find_none found k inside same.symm,
          looked.tree⟩
      · rw [List.mem_orderedInsert, looked.members, kept]
        constructor
        · rintro (rfl | before | ⟨other, known, rfl⟩)
          · exact .inr ⟨line, entered_append.mpr (.inr ⟨rfl, entered⟩), rfl⟩
          · exact .inl before
          · exact .inr ⟨other, entered_append.mpr (.inl known), rfl⟩
        · rintro (before | ⟨other, known, rfl⟩)
          · exact .inr (.inl before)
          · rcases entered_append.mp known with before | ⟨rfl, -⟩
            · exact .inr (.inr ⟨other, before, rfl⟩)
            · exact .inl rfl

/-- All segments are marked deleted before the look. -/
def allDeleted (s : Space) : Space :=
  { s with segments := s.segments.map fun g => { g with state := .deleted } }

private theorem looked_start (tree : Tree s) : Looked s [] (allDeleted s, false) := by
  refine ⟨List.pairwise_map.mpr tree, fun g => ?_, rfl, by simp⟩
  constructor
  · intro member
    obtain ⟨h, known, rfl⟩ := List.mem_map.mp member
    exact .inl ⟨h, known, rfl⟩
  · rintro (⟨h, known, rfl⟩ | ⟨line, ⟨here, -⟩, -⟩)
    · exact List.mem_map.mpr ⟨h, known, rfl⟩
    · cases here

private theorem notifyAll_looked (tree : Tree s) (seen : List Mapping) {rest : List Mapping}
    {acc : Space × Bool}
    (looked : Looked s seen acc) (apart : (seen ++ rest).Pairwise fun a b => a.start ≠ b.start) :
    Looked s (seen ++ rest) (rest.foldl notify acc) := by
  induction rest generalizing seen acc with
  | nil => simpa using looked
  | cons line rest ih =>
    have before : ∀ other ∈ seen, other.start ≠ line.start := fun other member =>
      (List.pairwise_append.mp apart).2.2 other member line List.mem_cons_self
    have next := notify_looked tree looked before
    rw [List.append_cons] at apart ⊢
    exact ih _ next apart

private theorem Listing.apart (listing : Listing lines) :
    lines.Pairwise fun a b => a.start ≠ b.start := by
  apply listing.disjoint.imp_of_mem
  intro a b first second disjoint same
  have filled := listing.nonempty a first
  have filled' := listing.nonempty b second
  rcases disjoint with before | after <;> omega

/-- What the look at the map leaves, before the segments are visited. -/
private theorem look_spec (tree : Tree s) (listing : Listing lines) :
    Looked s lines (lines.foldl notify (allDeleted s, false)) :=
  notifyAll_looked tree [] (looked_start tree) listing.apart

private theorem marked_old {g : Segment} : (marked lines g).state = .old ↔ Confirmed lines g := by
  unfold marked Confirmed
  rw [← List.any_eq_true]
  split <;> simp_all

private theorem marked_fresh {g : Segment} : (marked lines g).state ≠ .fresh := by
  unfold marked
  split <;> simp

/-! ## Visiting the segments -/

/-- The ranges of the segments, with their states. -/
def shapes (s : Space) : List (Mapping × SegmentState) := s.segments.map fun g => (g.toMapping, g.state)

private theorem mem_shapes {shape : Mapping × SegmentState} :
    shape ∈ shapes s ↔ ∃ g ∈ s.segments, g.toMapping = shape.1 ∧ g.state = shape.2 := by
  simp [shapes, Prod.ext_iff]

/-- Handlers are loaded for a segment: the ranges and the states of all segments
remain, and the other segments remain as they are. -/
private structure Kept (s t : Space) (start : Nat) : Prop where
  shapes : shapes t = shapes s
  others : ∀ g ∈ s.segments, g.start ≠ start → g ∈ t.segments
  injections : ∀ i ∈ s.injections, i ∈ t.injections

private theorem Kept.refl (s : Space) (start : Nat) : Kept s s start :=
  ⟨rfl, fun _ member _ => member, fun _ => id⟩

private theorem Kept.trans {t u : Space} {start : Nat} (first : Kept s t start)
    (second : Kept t u start) : Kept s u start :=
  ⟨second.shapes.trans first.shapes, fun g member different =>
    second.others g (first.others g member different) different,
    fun i member => second.injections i (first.injections i member)⟩

/-- The record belongs to the segments that start where it does. -/
private def Owned (s : Space) (g : Segment) : Prop :=
  ∀ h ∈ s.segments, h.start = g.start → h.toMapping = g.toMapping ∧ h.state = g.state

private theorem Tree.owned (tree : Tree s) {g : Segment} (member : g ∈ s.segments) : Owned s g := by
  intro h inside same
  rw [tree.unique inside member same]
  exact ⟨rfl, rfl⟩

private theorem kept_put {g : Segment} (owned : Owned s g) : Kept s (s.put g) g.start := by
  refine ⟨?_, fun h member different => ?_, fun _ => id⟩
  · unfold shapes Space.put
    simp only [List.map_map]
    apply List.map_congr_left
    intro h member
    by_cases same : h.start = g.start
    · obtain ⟨mapping, state⟩ := owned h member same
      simp [mapping, state]
    · simp [same]
  · exact List.mem_map.mpr ⟨h, member, if_neg different⟩

private theorem owned_of_kept {t : Space} {g : Segment} (kept : Kept s t g.start)
    (owned : Owned s g) : Owned t g := by
  intro h member same
  have shape : (h.toMapping, h.state) ∈ shapes t := mem_shapes.mpr ⟨h, member, rfl, rfl⟩
  rw [kept.shapes] at shape
  obtain ⟨k, known, mapping, state⟩ := mem_shapes.mp shape
  simp only at mapping state
  rw [← mapping, ← state]
  exact owned k known ((congrArg Mapping.start mapping).trans same)

private theorem kept_tracepointsInit {g : Segment} (setup : Setup) (owned : Owned s g) :
    Kept s (tracepointsInit m setup s g).value g.start := by
  unfold tracepointsInit
  simp only
  split
  · exact kept_put (g := { g with tracepoints := _, trampolinesSize := 0 }) owned
  · split
    · split <;> exact kept_put (g :=
        { g with tracepoints := _, trampolines := _, trampolinesSize := _, stolen := _ }) owned
    · split
      · exact kept_put (g := tracepointsCleanup _) owned
      · simp only [Traced.value_pure]
        split
        · exact kept_put (g := { g with tracepoints := _, trampolines := _, trampolinesSize := _ }) owned
        · exact kept_put (g := tracepointsCleanup _) owned

private theorem kept_segmentInit {g : Segment} (setup : Setup) (owned : Owned s g) :
    Kept s (segmentInit m setup s g).value g.start := by
  by_cases skipped : (g.injection.isSome || g.filename.isNone || !g.executable || g.writeable) = true
  · simp only [segmentInit, injectionsInit, if_pos skipped]
    split
    · exact kept_tracepointsInit setup owned
    · exact Kept.refl s _
  · have first : Kept s ({ s with injections := s.injections ++ setup.injected }.put
        { g with injection := setup.handler })
        g.start := by
      refine Kept.trans ?_ (kept_put (g := { g with injection := setup.handler }) owned)
      exact ⟨rfl, fun _ member _ => member, fun _ member => List.mem_append_left _ member⟩
    simp only [segmentInit, injectionsInit, if_neg skipped]
    split
    · refine first.trans ?_
      exact kept_tracepointsInit (g := { g with injection := setup.handler }) setup
        (owned_of_kept (g := { g with injection := setup.handler }) first owned)
    · exact first

/-- What becomes of a segment when those with these starts have been visited. -/
def settle (starts : List Nat) (shape : Mapping × SegmentState) : Option (Mapping × SegmentState) :=
  if shape.1.start ∈ starts then if shape.2 = .deleted then none else some (shape.1, .old)
    else some shape

private theorem settle_cons (start : Nat) (rest : List Nat) (shape : Mapping × SegmentState) :
    (settle [start] shape).bind (settle rest) = settle (start :: rest) shape := by
  unfold settle
  by_cases here : shape.1.start = start
  · by_cases gone : shape.2 = .deleted <;> simp [here, gone]
  · simp [here]

/-- The visits keep the segments that the map has confirmed, and what is injected. -/
private structure Visited (s t : Space) (starts : List Nat) : Prop where
  shapes : shapes t = (shapes s).filterMap (settle starts)
  olds : ∀ g ∈ s.segments, g.state = .old → g ∈ t.segments
  injections : ∀ i ∈ s.injections, i ∈ t.injections

private theorem tree_shapes : Tree s ↔ (shapes s).Pairwise fun a b => a.1.start ≠ b.1.start := by
  unfold Tree shapes
  rw [List.pairwise_map]

private theorem settle_quiet {start : Nat} (quiet : ∀ g ∈ s.segments, g.start = start → g.state = .old) :
    (shapes s).filterMap (settle [start]) = shapes s := by
  unfold shapes
  rw [List.filterMap_map, ← List.filterMap_eq_map]
  refine List.filterMap_congr fun g member => ?_
  by_cases here : g.start = start
  · simp [settle, here, quiet g member here]
  · simp [settle, here]

private theorem visit_visited (m : Machine) (setups : Nat → Setup) (tree : Tree s) (start : Nat) :
    Visited s (visit m setups s start).value [start] := by
  unfold visit
  cases found : s.segments.find? (fun g => g.start = start) with
  | none =>
    have free := find_none found
    exact ⟨(settle_quiet fun g member here => (free g member here).elim).symm,
      fun _ member _ => member, fun _ => id⟩
  | some g =>
    obtain ⟨member, starts⟩ := find_start found
    have alone : ∀ h ∈ s.segments, h.start = start → h = g := fun h inside here =>
      tree.unique inside member (here.trans starts.symm)
    cases state : g.state with
    | old =>
      simp only [state]
      exact ⟨(settle_quiet fun h inside here => alone h inside here ▸ state).symm,
        fun _ member _ => member, fun _ => id⟩
    | deleted =>
      simp only [state]
      refine ⟨?_, fun h inside old => ?_, fun _ => id⟩
      · simp only [shapes, Traced.value_pure]
        rw [List.filterMap_map, ← List.filterMap_eq_map, List.filterMap_filter]
        refine List.filterMap_congr fun h inside => ?_
        by_cases here : h.start = start
        · simp [settle, here, alone h inside here ▸ state]
        · simp [settle, here]
      · refine List.mem_filter.mpr ⟨inside, ?_⟩
        simp only [ne_eq, decide_not, Bool.not_eq_true', decide_eq_false_iff_not]
        intro here
        rw [alone h inside here, state] at old
        cases old
    | fresh =>
      simp only [state]
      have kept := kept_segmentInit (m := m) (setups start) (tree.owned member)
      rw [starts] at kept
      refine ⟨?_, fun h inside old => ?_, kept.injections⟩
      · have fresh : ∀ h ∈ (segmentInit m (setups start) s g).value.segments, h.start = start →
            h.state = .fresh := by
          intro h inside here
          have shape : (h.toMapping, h.state) ∈ shapes (segmentInit m (setups start) s g).value :=
            mem_shapes.mpr ⟨h, inside, rfl, rfl⟩
          rw [kept.shapes] at shape
          obtain ⟨k, known, mapping, same⟩ := mem_shapes.mp shape
          simp only at mapping same
          have start' : k.start = start := (congrArg Mapping.start mapping).trans here
          rw [← same, alone k known start', state]
        rw [← kept.shapes]
        simp only [shapes, Traced.value_bind, Traced.value_pure, List.map_map]
        rw [List.filterMap_map, ← List.filterMap_eq_map]
        refine List.filterMap_congr fun h inside => ?_
        by_cases here : h.start = start
        · simp [settle, here, fresh h inside here]
        · simp [settle, here]
      · have different : h.start ≠ start := by
          intro here
          rw [alone h inside here, state] at old
          cases old
        exact List.mem_map.mpr ⟨h, kept.others h inside different, if_neg different⟩

private theorem tree_of_shapes {t : Space}
    {f : Mapping × SegmentState → Option (Mapping × SegmentState)} (tree : Tree s)
    (same : shapes t = (shapes s).filterMap f)
    (kept : ∀ shape other, f shape = some other → other.1 = shape.1) : Tree t := by
  rw [tree_shapes] at tree ⊢
  rw [same, List.pairwise_filterMap]
  apply tree.imp
  intro a b different a' first b' second
  rwa [kept a a' first, kept b b' second]

private theorem settle_mapping {starts : List Nat} {shape other : Mapping × SegmentState}
    (settled : settle starts shape = some other) : other.1 = shape.1 := by
  unfold settle at settled
  split at settled
  · split at settled
    · cases settled
    · exact (Option.some.inj settled) ▸ rfl
  · exact (Option.some.inj settled) ▸ rfl

private theorem visits_visited (m : Machine) (setups : Nat → Setup) (tree : Tree s) (starts : List Nat) :
    Visited s (starts.foldlM (visit m setups) s).value starts := by
  induction starts generalizing s with
  | nil =>
    have none : settle [] = some := by
      funext shape
      simp [settle]
    exact ⟨by rw [none]; simp, fun _ member _ => member, fun _ => id⟩
  | cons start rest ih =>
    rw [List.foldlM_cons, Traced.value_bind]
    have first := visit_visited m setups tree start
    have then_ := ih (tree_of_shapes tree first.shapes fun _ _ => settle_mapping)
    refine ⟨?_, fun g member old => then_.olds g (first.olds g member old) old,
      fun i member => then_.injections i (first.injections i member)⟩
    rw [then_.shapes, first.shapes, List.filterMap_filterMap]
    exact List.filterMap_congr fun shape _ => settle_cons start rest shape

/-! ## One round of the scan -/

/-- What one round leaves of a process. -/
private structure Scanned (s : Space) (lines : List Mapping) (t : Space) : Prop where
  tree : Tree t
  members : ∀ mapping, (∃ g ∈ t.segments, g.toMapping = mapping) ↔
    (∃ h ∈ s.segments, Confirmed lines h ∧ h.toMapping = mapping) ∨ Entered s lines mapping
  olds : ∀ g ∈ t.segments, g.state = .old
  confirmed : ∀ h ∈ s.segments, Confirmed lines h → { h with state := .old } ∈ t.segments
  injections : ∀ i ∈ s.injections, i ∈ t.injections

private theorem scanOnce_value (pass : Pass) (s : Space) :
    let looked := pass.mappings.foldl notify (allDeleted s, false)
    (scanOnce m pass s).value =
      (((looked.1.segments.map fun g => g.start).foldlM (visit m pass.setups) looked.1).value,
        looked.2) := rfl

private theorem settle_all {t : Space} (shape : Mapping × SegmentState) :
    shape ∈ (shapes t).filterMap (settle (t.segments.map fun g => g.start)) ↔
      shape.2 = .old ∧ ∃ g ∈ t.segments, g.state ≠ .deleted ∧ g.toMapping = shape.1 := by
  have here : ∀ g ∈ t.segments, settle (t.segments.map fun g => g.start) (g.toMapping, g.state) =
      if g.state = .deleted then none else some (g.toMapping, .old) := by
    intro g member
    have listed : g.start ∈ t.segments.map fun g => g.start := List.mem_map.mpr ⟨g, member, rfl⟩
    simp only [settle, listed, ↓reduceIte]
  rw [List.mem_filterMap]
  constructor
  · rintro ⟨former, member, settled⟩
    obtain ⟨g, known, mapping, state⟩ := mem_shapes.mp member
    obtain rfl : former = (g.toMapping, g.state) := Prod.ext mapping.symm state.symm
    rw [here g known] at settled
    split at settled
    · cases settled
    · cases settled
      exact ⟨rfl, g, known, ‹_›, rfl⟩
  · obtain ⟨mapping, state⟩ := shape
    rintro ⟨old, g, known, live, rfl⟩
    exact ⟨_, mem_shapes.mpr ⟨g, known, rfl, rfl⟩, by rw [here g known, if_neg live]; cases old; rfl⟩

private theorem scanOnce_scanned (m : Machine) (setups : Nat → Setup) (tree : Tree s)
    (listing : Listing lines) :
    Scanned s lines (scanOnce m ⟨lines, setups⟩ s).value.1 := by
  have looked := look_spec tree listing
  have visited := visits_visited m setups looked.tree
    ((lines.foldl notify (allDeleted s, false)).1.segments.map fun g => g.start)
  rw [scanOnce_value]
  set seen := (lines.foldl notify (allDeleted s, false)).1
  set after := ((seen.segments.map fun g => g.start).foldlM (visit m setups) seen).value
  have settled : ∀ mapping state, (∃ g ∈ after.segments, g.toMapping = mapping ∧ g.state = state) ↔
      state = .old ∧ ∃ g ∈ seen.segments, g.state ≠ .deleted ∧ g.toMapping = mapping := by
    intro mapping state
    rw [← settle_all (mapping, state), ← visited.shapes, mem_shapes]
  constructor
  · exact tree_of_shapes looked.tree visited.shapes fun _ _ => settle_mapping
  · intro mapping
    have shown : (∃ g ∈ after.segments, g.toMapping = mapping) ↔
        ∃ g ∈ seen.segments, g.state ≠ .deleted ∧ g.toMapping = mapping := by
      constructor
      · rintro ⟨g, member, same⟩
        exact ((settled mapping g.state).mp ⟨g, member, same, rfl⟩).2
      · intro live
        obtain ⟨g, member, same, -⟩ := (settled mapping .old).mpr ⟨rfl, live⟩
        exact ⟨g, member, same⟩
    rw [shown]
    constructor
    · rintro ⟨g, member, live, rfl⟩
      rcases (looked.members g).mp member with ⟨h, known, rfl⟩ | ⟨line, entered, rfl⟩
      · refine .inl ⟨h, known, ?_, rfl⟩
        rw [← marked_old]
        cases state : (marked lines h).state with
        | fresh => exact (marked_fresh state).elim
        | old => rfl
        | deleted => exact (live state).elim
      · exact .inr entered
    · rintro (⟨h, known, confirmed, rfl⟩ | entered)
      · refine ⟨marked lines h, (looked.members _).mpr (.inl ⟨h, known, rfl⟩), ?_, rfl⟩
        rw [marked_old.mpr confirmed]
        simp
      · exact ⟨segmentNew mapping, (looked.members _).mpr (.inr ⟨mapping, entered, rfl⟩),
          by simp [segmentNew], rfl⟩
  · intro g member
    exact ((settled g.toMapping g.state).mp ⟨g, member, rfl, rfl⟩).1
  · intro h known confirmed
    have state := marked_old.mpr confirmed
    have same : marked lines h = { h with state := .old } := by
      rw [← state]
      rfl
    rw [← same]
    exact visited.olds _ ((looked.members _).mpr (.inl ⟨h, known, rfl⟩)) state
  · intro i member
    exact visited.injections i (looked.injections ▸ member)

private theorem scanOnce_again (tree : Tree s) (listing : Listing lines) :
    (scanOnce m ⟨lines, setups⟩ s).value.2 = true ↔
      ∃ line ∈ lines, ∃ h ∈ s.segments, h.start = line.start ∧ segmentEqual line h.toMapping = false :=
  (look_spec tree listing).again

/-! ## A round that changes nothing -/

/-- The bookkeeping is in step with the map already. -/
private structure Settled (s : Space) (lines : List Mapping) : Prop where
  tree : Tree s
  olds : ∀ g ∈ s.segments, g.state = .old
  confirmed : ∀ g ∈ s.segments, Confirmed lines g
  covered : ∀ line ∈ lines, (∃ g ∈ s.segments, g.start = line.start) ∨
      addressIsArtificial s line.start = true

private theorem Settled.equal (settled : Settled s lines) (listing : Listing lines) {line : Mapping}
    {g : Segment}
    (listed : line ∈ lines) (member : g ∈ s.segments) (starts : g.start = line.start) :
    segmentEqual line g.toMapping = true := by
  obtain ⟨other, known, equal⟩ := settled.confirmed g member
  have same := listing.unique known listed ((segmentEqual_start equal).trans starts)
  rwa [same] at equal

private theorem notify_settled (settled : Settled s lines) (listing : Listing lines)
    {seen : List Mapping} {line : Mapping}
    (listed : line ∈ lines) :
    notify ({ s with segments := s.segments.map (marked seen) }, false) line =
      ({ s with segments := s.segments.map (marked (seen ++ [line])) }, false) := by
  have other : ∀ g ∈ s.segments, g.start ≠ line.start → marked (seen ++ [line]) g = marked seen g := by
    intro g _ elsewhere
    apply marked_append
    rw [Bool.eq_false_iff]
    exact fun equal => elsewhere (segmentEqual_start equal).symm
  unfold notify
  cases found : (s.segments.map (marked seen)).find? (fun g => g.start = line.start) with
  | some old =>
    obtain ⟨member, starts⟩ := find_start (s :=
      { s with segments := s.segments.map (marked seen) }) found
    obtain ⟨h, known, rfl⟩ := List.mem_map.mp member
    have equal := settled.equal listing listed known starts
    have equal' : segmentEqual line (marked seen h).toMapping = true := equal
    simp only [equal', ↓reduceIte]
    unfold Space.put
    simp only [List.map_map, Prod.mk.injEq, Space.mk.injEq, and_true]
    refine List.map_congr_left fun g inside => ?_
    by_cases here : g.start = line.start
    · have same := settled.tree.unique inside known (here.trans starts.symm)
      rw [same, marked_equal equal]
      simp [marked]
    · rw [other g inside here]
      exact if_neg fun back => here (back.trans starts)
  | none =>
    have free : ∀ g ∈ s.segments, g.start ≠ line.start := fun g inside =>
      find_none (s := { s with segments := s.segments.map (marked seen) }) found (marked seen g)
        (List.mem_map.mpr ⟨g, inside, rfl⟩)
    have artificial : addressIsArtificial { s with segments := s.segments.map (marked seen) }
        line.start = true := by
      rcases settled.covered line listed with ⟨g, inside, starts⟩ | artificial
      · exact (free g inside starts).elim
      · rw [artificial_iff] at artificial ⊢
        refine artificial.imp id ?_
        rintro ⟨g, inside, rest⟩
        exact ⟨marked seen g, List.mem_map.mpr ⟨g, inside, rfl⟩, rest⟩
    simp only [artificial, ↓reduceIte]
    rw [List.map_congr_left fun g inside => other g inside (free g inside)]

private theorem notifyAll_settled (settled : Settled s lines) (listing : Listing lines)
    (seen : List Mapping) {rest : List Mapping}
    (listed : ∀ line ∈ rest, line ∈ lines) :
    rest.foldl notify ({ s with segments := s.segments.map (marked seen) }, false) =
      ({ s with segments := s.segments.map (marked (seen ++ rest)) }, false) := by
  induction rest generalizing seen with
  | nil => simp
  | cons line rest ih =>
    rw [List.foldl_cons, notify_settled settled listing (listed line List.mem_cons_self),
      ih _ fun other member => listed other (List.mem_cons_of_mem _ member), List.append_assoc,
      List.singleton_append]

private theorem visits_settled (olds : ∀ g ∈ s.segments, g.state = .old) (starts : List Nat) :
    (starts.foldlM (visit m setups) s).value = s := by
  induction starts with
  | nil => rfl
  | cons start rest ih =>
    have still : (visit m setups s start).value = s := by
      unfold visit
      cases found : s.segments.find? (fun g => g.start = start) with
      | none => rfl
      | some g =>
        simp only [olds g (find_start found).1]
        rfl
    rw [List.foldlM_cons, Traced.value_bind, still, ih]

private theorem scanOnce_settled (settled : Settled s lines) (listing : Listing lines) :
    (scanOnce m ⟨lines, setups⟩ s).value = (s, false) := by
  have looked := notifyAll_settled settled listing [] fun _ member => member
  have same : s.segments.map (marked lines) = s.segments := by
    apply List.map_congr_left (g := id) _ |>.trans (List.map_id _)
    intro g member
    have state := marked_old.mpr (settled.confirmed g member)
    have old : marked lines g = { g with state := (marked lines g).state } := rfl
    rw [old, state, ← settled.olds g member]
    rfl
  have start : (allDeleted s, false) = ({ s with segments := s.segments.map (marked []) }, false) := rfl
  rw [scanOnce_value, start]
  simp only [looked, List.nil_append, same, visits_settled settled.olds]

/-! ## How a rescan ends -/

/-- What a rescan leaves of a process. -/
private structure Ended (m : Machine) (s : Space) (lines : List Mapping) (first : Nat → Setup)
    (final : Space) : Prop where
  tree : Tree final
  olds : ∀ g ∈ final.segments, g.state = .old
  confirmed : ∀ g ∈ final.segments, Confirmed lines g
  members : ∀ mapping, (∃ g ∈ final.segments, g.toMapping = mapping) ↔
    (∃ h ∈ s.segments, Confirmed lines h ∧ h.toMapping = mapping) ∨ Entered s lines mapping ∨
      (scanOnce m ⟨lines, first⟩ s).value.2 = true ∧ Entered (afterFirst m s lines first) lines mapping
  stays : ∀ address, StaysArtificial s lines address → addressIsArtificial final address = true

private theorem Scanned.all_confirmed {t : Space} (scanned : Scanned s lines t) :
    ∀ g ∈ t.segments, Confirmed lines g := by
  intro g member
  rcases (scanned.members g.toMapping).mp ⟨g, member, rfl⟩ with
      ⟨h, -, ⟨line, listed, equal⟩, same⟩ | ⟨listed, -⟩
  · exact ⟨line, listed, same ▸ equal⟩
  · exact ⟨g.toMapping, listed, segmentEqual_self _⟩

private theorem Scanned.stays {t : Space} (scanned : Scanned s lines t) {address : Nat}
    (stays : StaysArtificial s lines address) : StaysArtificial t lines address := by
  rcases stays with ⟨i, member, inside⟩ | ⟨g, member, confirmed, inside⟩
  · exact .inl ⟨i, scanned.injections i member, inside⟩
  · exact .inr ⟨{ g with state := .old }, scanned.confirmed g member confirmed, confirmed, inside⟩

/-- The second look finds every segment as the map has it. -/
private theorem second_enough (tree : Tree s) (listing : Listing lines) {first second : Nat → Setup} :
    (scanOnce m ⟨lines, second⟩ (afterFirst m s lines first)).value.2 = false := by
  have scanned : Scanned s lines (afterFirst m s lines first) := scanOnce_scanned m first tree listing
  rw [Bool.eq_false_iff, ne_eq, scanOnce_again scanned.tree listing]
  rintro ⟨line, listed, g, member, starts, different⟩
  obtain ⟨other, known, equal⟩ := scanned.all_confirmed g member
  have same := listing.unique known listed ((segmentEqual_start equal).trans starts)
  rw [← same, equal] at different
  cases different

private theorem rescan_ended (tree : Tree s) (listing : Listing lines) (first second : Nat → Setup) :
    ∃ final, rescanEnds m [⟨lines, first⟩, ⟨lines, second⟩] s = some final ∧
    Ended m s lines first final ∧
      (final = afterFirst m s lines first ∨
        final = (scanOnce m ⟨lines, second⟩ (afterFirst m s lines first)).value.1) := by
  have scanned := scanOnce_scanned m first tree listing
  have again := scanOnce_scanned m second scanned.tree listing
  have enough : (scanOnce m ⟨lines, second⟩ (scanOnce m ⟨lines, first⟩ s).value.1).value.2 = false :=
    second_enough tree listing
  unfold rescanEnds
  cases changed : (scanOnce m ⟨lines, first⟩ s).value.2 with
  | false =>
    refine ⟨_, rfl, ⟨scanned.tree, scanned.olds, scanned.all_confirmed, fun mapping => ?_,
      fun address stays =>
      (scanned.stays stays).artificial⟩, .inl rfl⟩
    rw [scanned.members]
    simp [changed]
  | true =>
    refine ⟨(scanOnce m ⟨lines, second⟩ (scanOnce m ⟨lines, first⟩ s).value.1).value.1, ?_,
      ⟨again.tree, again.olds, again.all_confirmed, fun mapping => ?_, fun address stays =>
      (again.stays (scanned.stays stays)).artificial⟩, .inr rfl⟩
    · simp [rescanEnds, enough]
    · have all : (∃ h ∈ (scanOnce m ⟨lines, first⟩ s).value.1.segments, Confirmed lines h ∧
          h.toMapping = mapping) ↔
          ∃ h ∈ (scanOnce m ⟨lines, first⟩ s).value.1.segments, h.toMapping = mapping :=
        exists_congr fun h => and_congr_right fun member =>
        and_iff_right (scanned.all_confirmed h member)
      rw [again.members, all, scanned.members, or_assoc]
      simp only [changed, true_and]
      rfl

/-! ## Code addresses -/

/-- Every segment is a line of the map. -/
private theorem code_iff {final : Space} (tree : Tree final) (listing : Listing lines)
    (listed : ∀ g ∈ final.segments, g.toMapping ∈ lines) (address : Nat) :
    segmentCheckAddressIsCode final.segments address = true ↔
      ∃ g ∈ final.segments, g.executable = true ∧ g.start ≤ address ∧ address < g.stop := by
  have apart : final.segments.Pairwise fun g h => Apart g.toMapping h.toMapping := by
    apply tree.imp_of_mem
    intro g h first second different
    exact listing.disjoint.forall (listed g first) (listed h second) fun same =>
      different (congrArg Mapping.start same)
  unfold segmentCheckAddressIsCode
  cases found : segmentGet final.segments address with
  | none =>
    refine iff_of_false (by simp) ?_
    rintro ⟨g, member, -, starts, stops⟩
    exact segmentGet_finds apart (fun h inside => listing.nonempty _ (listed h inside)) member
      starts stops found
  | some g =>
    obtain ⟨member, starts, stops⟩ := segmentGet_member found
    simp only [Option.map_some, Option.getD_some]
    constructor
    · exact fun executable => ⟨g, member, executable, starts, stops⟩
    · rintro ⟨h, known, executable, starts', stops'⟩
      have same : h.toMapping = g.toMapping := by
        by_contra different
        rcases listing.disjoint.forall (listed h known) (listed g member)
          different with before | after <;> omega
      exact (congrArg Mapping.executable same) ▸ executable

private theorem executable_iff {address : Nat} : procfsAddressExecutable lines address = true ↔
    ∃ line ∈ lines, line.start ≤ address ∧ address ≤ line.stop ∧ line.executable = true := by
  simp [procfsAddressExecutable, and_assoc]

/-! ## When the tree is in step with the map -/

section
variable {first second : Nat → Setup} {final : Space}

/-- A region of the map that is not the server's is in the tree. -/
private theorem Tracked.appears (tree : Tree s) (listing : Listing lines) (tracked : Tracked s lines)
    (undisturbed : Undisturbed m s lines first second) (ended : Ended m s lines first final)
    {line : Mapping}
    (listed : line ∈ lines) (natural : addressIsArtificial s line.start = false) :
    ∃ g ∈ final.segments, g.toMapping = line := by
  rw [ended.members]
  by_cases confirmed : ∃ g ∈ s.segments, segmentEqual line g.toMapping = true
  · obtain ⟨g, member, equal⟩ := confirmed
    exact .inl ⟨g, member, ⟨line, listed, equal⟩, (tracked.unchanged line listed g member equal).1⟩
  · have changed : ∀ g ∈ s.segments, segmentEqual line g.toMapping = false := by simpa using confirmed
    by_cases former : ∃ g ∈ s.segments, g.start = line.start
    · -- The region has changed, so that it is entered in the second look.
      obtain ⟨h, member, starts⟩ := former
      have scanned := scanOnce_scanned m first tree listing
      by_cases new : ∃ g ∈ (afterFirst m s lines first).segments, g.start = line.start
      · obtain ⟨g, known, here⟩ := new
        have shown := (scanned.members g.toMapping).mp ⟨g, known, rfl⟩
        have same : g.toMapping = line := by
          rcases shown with ⟨k, inside, ⟨other, seen, equal⟩, same⟩ | entered
          · have at_ := listing.unique seen listed
              ((segmentEqual_start equal).trans ((congrArg Mapping.start same).trans here))
            rw [at_, changed k inside] at equal
            cases equal
          · exact listing.unique entered.1 listed here
        rw [same] at shown
        exact shown.imp id .inl
      · refine .inr (.inr ⟨(scanOnce_again tree listing).mpr ⟨line, listed, h, member, starts,
          changed h member⟩, listed, ?_, ?_⟩)
        · simpa using new
        · rw [Bool.eq_false_iff]
          intro covered
          have stays := (undisturbed line listed (.inr ⟨h, member, starts⟩) changed).1 covered
          rw [stays.artificial] at natural
          cases natural
    · exact .inr (.inl ⟨listed, by simpa using former, natural⟩)

/-- A segment of the tree is a region of the map that is not the server's. -/
private theorem Tracked.natural (tree : Tree s) (listing : Listing lines) (tracked : Tracked s lines)
    (ended : Ended m s lines first final) {g : Segment} (member : g ∈ final.segments) :
    g.toMapping ∈ lines ∧ addressIsArtificial s g.start = false := by
  rcases (ended.members g.toMapping).mp ⟨g, member, rfl⟩ with
      ⟨h, known, ⟨line, listed, equal⟩, same⟩ | entered | ⟨-, entered⟩
  · obtain ⟨here, natural⟩ := tracked.unchanged line listed h known equal
    rw [← same, here]
    exact ⟨listed, natural⟩
  · exact ⟨entered.1, entered.2.2⟩
  · refine ⟨entered.1, Bool.eq_false_iff.mpr fun artificial => ?_⟩
    have stays := (scanOnce_scanned m first tree listing).stays (tracked.staying _ entered.1 artificial)
    have natural : addressIsArtificial (afterFirst m s lines first) g.start = false := entered.2.2
    rw [show addressIsArtificial (afterFirst m s lines first) g.start =
      true from stays.artificial] at natural
    cases natural

/-- What a rescan that changes nothing does not enter is the server's. -/
private theorem absent_artificial (tree : Tree final) (listing : Listing lines)
    (idempotent : rescanEnds m [⟨lines, setups⟩] final = some final) {line : Mapping}
    (listed : line ∈ lines)
    (absent : ∀ g ∈ final.segments, g.start ≠ line.start) :
    addressIsArtificial final line.start = true := by
  by_contra natural
  have scanned := scanOnce_scanned m setups tree listing
  have still : (scanOnce m ⟨lines, setups⟩ final).value.1 = final := by
    unfold rescanEnds at idempotent
    split at idempotent
    · cases idempotent
    · exact Option.some.inj idempotent
  obtain ⟨g, member, same⟩ := (scanned.members line).mpr (.inr ⟨listed, absent, by simpa using natural⟩)
  rw [still] at member
  exact absent g member (congrArg Mapping.start same)

/-- The rescan puts the tree in step with the map exactly when the regions are
tracked, as far as the server puts nothing where the map has other regions. -/
theorem rescan_merges_iff (tree : Tree s) (listing : Listing lines)
    (undisturbed : Undisturbed m s lines first second) :
    Merged m s lines first second ↔ Tracked s lines := by
  obtain ⟨final, ends, ended, last⟩ := rescan_ended (m := m) tree listing first second
  constructor
  · rintro ⟨final', ends', inStep⟩
    obtain rfl : final' = final := Option.some.inj (ends'.symm.trans ends)
    have shown : ∀ g ∈ final'.segments, g.toMapping ∈ lines ∧ addressIsArtificial s g.start = false :=
      fun g member => (inStep.members g.toMapping).mp ⟨g, member, rfl⟩
    constructor
    · intro line listed g member equal
      obtain ⟨h, known, same⟩ :=
        (ended.members g.toMapping).mpr (.inl ⟨g, member, ⟨line, listed, equal⟩, rfl⟩)
      obtain ⟨there, natural⟩ := shown h known
      have here := listing.unique there listed
        ((congrArg Mapping.start same).trans (segmentEqual_start equal).symm)
      rw [← same, here]
      exact ⟨rfl, here ▸ natural⟩
    · intro line listed artificial
      have absent : ∀ g ∈ final'.segments, g.start ≠ line.start := by
        intro g member here
        obtain ⟨there, natural⟩ := shown g member
        rw [← congrArg Mapping.start (listing.unique there listed here), natural] at artificial
        cases artificial
      have covered := absent_artificial ended.tree listing (inStep.idempotent first) listed absent
      have changed : ∀ g ∈ s.segments, segmentEqual line g.toMapping = false := by
        intro g member
        rw [Bool.eq_false_iff]
        intro equal
        obtain ⟨h, known, same⟩ :=
          (ended.members g.toMapping).mpr (.inl ⟨g, member, ⟨line, listed, equal⟩, rfl⟩)
        exact absent h known ((congrArg Mapping.start same).trans (segmentEqual_start equal).symm)
      obtain ⟨early, late⟩ := undisturbed line listed (.inl artificial) changed
      rcases last with rfl | rfl
      · exact early covered
      · exact late covered
  · intro tracked
    have appears : ∀ line ∈ lines, addressIsArtificial s line.start = false →
        ∃ g ∈ final.segments, g.toMapping = line :=
      fun line listed free => tracked.appears tree listing undisturbed ended listed free
    refine ⟨final, ends, fun mapping => ⟨?_, fun ⟨listed, free⟩ => appears mapping listed free⟩,
      fun again => ?_⟩
    · rintro ⟨g, member, rfl⟩
      exact tracked.natural tree listing ended member
    · have settled : Settled final lines := by
        refine ⟨ended.tree, ended.olds, ended.confirmed, fun line listed => ?_⟩
        cases artificial : addressIsArtificial s line.start with
        | true => exact .inr (ended.stays _ (tracked.staying line listed artificial))
        | false =>
          obtain ⟨g, member, same⟩ := appears line listed artificial
          exact .inl ⟨g, member, congrArg Mapping.start same⟩
      simp [rescanEnds, scanOnce_settled settled listing]

/-- Code is found in a tree that is in step with the map where the map has code,
exactly when no region is needed beyond its last address. -/
private theorem code_agrees_iff (tree : Tree final) (listing : Listing lines)
    (inStep : InStep m s lines final) :
    (∀ address, addressIsArtificial s address = false →
      segmentCheckAddressIsCode final.segments address = procfsAddressExecutable lines address) ↔
      EndsInside s lines := by
  have shown : ∀ g ∈ final.segments, g.toMapping ∈ lines ∧ addressIsArtificial s g.start = false :=
    fun g member => (inStep.members g.toMapping).mp ⟨g, member, rfl⟩
  have code := code_iff tree listing fun g member => (shown g member).1
  constructor
  · intro agrees address natural executable
    obtain ⟨g, member, executable', starts, stops⟩ :=
      (code address).mp ((agrees address natural).trans executable)
    exact ⟨g.toMapping, (shown g member).1, (shown g member).2, executable', starts, stops⟩
  · intro inside address natural
    rw [Bool.eq_iff_iff, code, executable_iff]
    constructor
    · rintro ⟨g, member, executable, starts, stops⟩
      exact ⟨g.toMapping, (shown g member).1, starts, stops.le, executable⟩
    · intro executable
      obtain ⟨line, listed, own, executable', starts, stops⟩ :=
        inside address natural (executable_iff.mpr executable)
      obtain ⟨g, member, rfl⟩ := (inStep.members line).mpr ⟨listed, own⟩
      exact ⟨g, member, executable', starts, stops⟩

end

/-- The segments are synchronised exactly when the regions are tracked and none
is executable beyond its last address. -/
theorem rescan_synchronises_iff (m : Machine) (s : Space) (lines : List Mapping)
    (first second : Nat → Setup)
    (tree : Tree s) (listing : Listing lines) (undisturbed : Undisturbed m s lines first second) :
    Synchronised m s lines first second ↔ Tracked s lines ∧ EndsInside s lines := by
  obtain ⟨final, ends, ended, -⟩ := rescan_ended (m := m) tree listing first second
  rw [← rescan_merges_iff tree listing undisturbed]
  constructor
  · rintro ⟨final', ends', inStep, agrees⟩
    obtain rfl : final' = final := Option.some.inj (ends'.symm.trans ends)
    exact ⟨⟨final', ends, inStep⟩, (code_agrees_iff ended.tree listing inStep).mp agrees⟩
  · rintro ⟨⟨final', ends', inStep⟩, inside⟩
    obtain rfl : final' = final := Option.some.inj (ends'.symm.trans ends)
    exact ⟨final', ends, inStep, (code_agrees_iff ended.tree listing inStep).mpr inside⟩

/-! ## A page that loses its protection -/

/-- A text page of a file, and a page of its data. -/
def textPage : Mapping := ⟨0x400000, 0x401000, some 1, 0, true, false, true, false⟩
def dataPage : Mapping := ⟨0x410000, 0x411000, some 1, 0x1000, true, true, false, false⟩

/-- Nothing is loaded. -/
def noSetups (_ : Nat) : Setup := ⟨[], none, [], 0, [], none, false⟩

/-- The process after a scan that found the page. -/
def holding (page : Mapping) : Space := ⟨[{ segmentNew page with state := .old }], []⟩

private theorem holding_tree (page : Mapping) : Tree (holding page) := List.pairwise_singleton _ _

/-- The map shows a stack that is new, and no code. -/
theorem data_synchronised :
    Synchronised arm64 (holding dataPage)
    [dataPage, ⟨0x411000, 0x412000, none, 0, true, true, false, false⟩] noSetups noSetups := by
  refine (rescan_synchronises_iff _ _ _ _ _ (holding_tree _) ⟨?_, ?_⟩ ?_).mpr ⟨⟨?_, ?_⟩, ?_⟩
  · decide
  · simp [dataPage, TrampolineProofs.Apart]
  · intro line listed covered unequal
    have natural : addressIsArtificial (holding dataPage) line.start = false :=
      by simp [addressIsArtificial, holding, segmentNew]
    rw [natural] at covered
    simp only [List.mem_cons, List.not_mem_nil, or_false] at listed
    rcases listed with rfl | rfl
    · exact absurd (unequal _ List.mem_cons_self) (by decide)
    · exact absurd covered (by decide)
  · intro line listed g member equal
    simp only [List.mem_cons, List.not_mem_nil, or_false] at listed
    cases List.mem_singleton.mp member
    rcases listed with rfl | rfl
    · exact ⟨rfl, by decide⟩
    · exact absurd equal (by decide)
  · intro line listed artificial
    simp [addressIsArtificial, holding, segmentNew] at artificial
  · intro address natural executable
    simp [procfsAddressExecutable, dataPage] at executable

/-- After `mprotect` takes away the permission to execute the page, the segment has it still. -/
theorem mprotect_unseen : rescanEnds arm64 [⟨[textPage], noSetups⟩] ⟨[], []⟩ = some (holding textPage) ∧
    Listing [{ textPage with executable := false }] ∧
    ¬ Synchronised arm64 (holding textPage)
    [{ textPage with executable := false }] noSetups noSetups := by
  refine ⟨by decide, ⟨by decide, List.pairwise_singleton _ _⟩, ?_⟩
  rintro ⟨final, ends, inStep, -⟩
  have stays : rescanEnds arm64 [⟨[{ textPage with executable := false }], noSetups⟩,
      ⟨[{ textPage with executable := false }], noSetups⟩] (holding textPage) =
        some (holding textPage) := by decide
  obtain rfl : final = holding textPage := Option.some.inj (ends.symm.trans stays)
  obtain ⟨listed, -⟩ := (inStep.members textPage).mp ⟨_, List.mem_singleton.mpr rfl, rfl⟩
  exact absurd (List.mem_singleton.mp listed) (by decide)

end Adbi.RescanProofs
