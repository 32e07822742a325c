import Mathlib.Data.ZMod.Basic
import Mathlib.Tactic.Ring
import Adbi.Lib.OrderedTree
import Adbi.Trampoline

/-! When the search for room near the tracepoints takes only free memory. It
looks at the segments alone, so it must not find a trampoline or an injection
in what it takes for a gap, and above the tracepoints it tells the size of a
gap by the pages below them. When its requests are granted, it comes no farther
than the nearest gap below that is long enough. -/
namespace Adbi.TrampolineProofs
open Adbi.Lib Adbi.Trampoline

variable {m : Machine} {s : Space} {owner : Segment} {a x start stop page : Nat}

/-! ## Places that are in use -/

/-- Two stretches of memory do not overlap. -/
def Apart (a b : Mapping) : Prop := a.stop ≤ b.start ∨ b.stop ≤ a.start

/-- A line of the memory map as the kernel writes it. -/
structure Valid (m : Machine) (mapping : Mapping) : Prop where
  nonempty : mapping.start < mapping.stop
  start : m.page ∣ mapping.start
  stop : m.page ∣ mapping.stop
  bound : mapping.stop < m.modulus

/-- The address belongs to the trampolines of another segment or to an injection. -/
def Artificial (m : Machine) (s : Space) (owner : Segment) (x : Nat) : Prop :=
  (∃ g ∈ s.segments, g.start ≠ owner.start ∧ g.trampolines ≠ 0 ∧ g.trampolines ≤ x ∧
    x < g.trampolines + m.alignToPage g.trampolinesSize) ∨
  ∃ i ∈ s.injections, i.address ≤ x ∧ x < i.address + m.alignToPage i.size

/-- The address belongs to a segment that is not unused. -/
def Used (s : Space) (x : Nat) : Prop := ∃ g ∈ s.segments, g.unused = false ∧ g.start ≤ x ∧ x < g.stop

/-- Nothing that is in use is replaced. -/
def Clean (m : Machine) (p : Placement) : Prop :=
  ∀ x, p.start ≤ x → x < p.start + m.alignToPage p.owner.trampolinesSize →
    ¬ Used p.space x ∧ ¬ Artificial m p.space p.owner x

/-! ## What the search relies on -/

/-- The lowest tracepoint. -/
abbrev lowest (owner : Segment) : Nat := (tracepointRange owner).1

/-- The highest one. -/
abbrev highest (owner : Segment) : Nat := (tracepointRange owner).2

/-- The page that the search counts from. -/
abbrev middle (m : Machine) (owner : Segment) : Nat := center m (lowest owner) (highest owner)

/-- What the trampolines take up. -/
abbrev roomFor (m : Machine) (owner : Segment) : Nat := m.alignToPage owner.trampolinesSize

/-- No segment has this address, as far as `segment_get` can tell. -/
def Free (s : Space) (x : Nat) : Prop := segmentGet s.segments x = none

/-- A search that starts from the tracepoints of `owner` may take memory from here on. -/
def Near (m : Machine) (s : Space) (owner : Segment) (a : Nat) : Prop :=
  let low := (tracepointRange owner).1
  let hi := (tracepointRange owner).2
  m.checkRelativeJump hi a = true ∨ m.checkRelativeJump low a = true ∨
    m.checkRelativeJump low (m.add a m.page) = true ∨
    (∃ off, a = m.add (center m low hi) off ∧
      m.checkRelativeJump low (m.add (m.sub (center m low hi) off) m.page) = true) ∨
    ∃ g ∈ s.segments, g.unused = true ∧ g.start = a ∧ m.checkRelativeJump low g.stop = true

/-- A gap below a segment, the tracepoints' or a lower one, that has room for the trampolines; it
and the pages up to the tracepoints are in reach. -/
structure Ample (m : Machine) (s : Space) (owner g : Segment) : Prop where
  member : g ∈ s.segments
  below : g.start ≤ owner.start
  /-- As for tracepoints that are in the segment. -/
  centered : owner.start ≤ middle m owner + m.page
  positive : 0 < roomFor m owner
  fits : roomFor m owner ≤ g.start
  free : ∀ j, j * m.page < roomFor m owner → Free s (g.start - (j + 1) * m.page)
  reach : ∀ a, m.page ∣ a → g.start ≤ a + roomFor m owner → a ≤ middle m owner →
    m.checkRelativeJump (highest owner) a = true
  /-- As far above the tracepoints as the gap is below, there are still addresses. -/
  bound : 2 * middle m owner + m.page + roomFor m owner ≤ g.start + m.modulus

/-- The address is no farther from the tracepoints, on both sides, than the gap below `g`. -/
def Close (m : Machine) (owner g : Segment) (a : Nat) : Prop :=
  g.start ≤ a + roomFor m owner ∧ a + g.start ≤ 2 * middle m owner + m.page

/-- The search may come as far as this address. If its first request is granted, it ends at the
latest in the nearest gap that is long enough. -/
def Comes (m : Machine) (s : Space) (owner : Segment) (answers : List Bool) (a : Nat) : Prop :=
  answers.head? = some true → ∀ g, Ample m s owner g → Close m owner g a

/-- The state in which room is looked for lets the search see what it must see, as far as it
comes. -/
structure Safe (m : Machine) (s : Space) (owner : Segment) (answers : List Bool) : Prop where
  /-- A segment that is gone from the map overlaps none of the others. -/
  gone : s.segments.Pairwise fun g h => g.state = .deleted ∨ h.state = .deleted →
      Apart g.toMapping h.toMapping
  /-- Above the tracepoints, where the pages mirrored at the center are free, the pages themselves
  are. -/
  mirrored : ∀ off, owner.stop ≤ middle m owner + off → Comes m s owner answers (middle m owner + off) →
    Free s (m.add (middle m owner) off) →
    (∀ j, 1 ≤ j → j * m.page < roomFor m owner → Free s (m.sub (middle m owner) (off + j * m.page))) →
    ∀ j, 1 ≤ j → j * m.page < roomFor m owner → Free s (m.add (middle m owner) (off + j * m.page))
  /-- No trampoline of another segment and no injection is near the tracepoints, in a gap or in an
  unused segment. -/
  natural : ∀ a x, Near m s owner a → Comes m s owner answers a → a ≤ x → x < a + roomFor m owner →
    Artificial m s owner x → Used s x

/-! ## Address arithmetic -/

theorem add_lt (m : Machine) (a b : Nat) : m.add a b < m.modulus := Nat.mod_lt _ m.modulus_pos

theorem sub_lt (m : Machine) (a b : Nat) : m.sub a b < m.modulus := Nat.mod_lt _ m.modulus_pos

theorem add_of_lt {a b : Nat} (fits : a + b < m.modulus) : m.add a b = a + b := Nat.mod_eq_of_lt fits

theorem sub_of_le {a b : Nat} (ordered : b ≤ a) (inside : a < m.modulus) : m.sub a b = a - b := by
  rw [Machine.sub, Nat.mod_eq_of_lt (by omega : b < m.modulus),
    show a + (m.modulus - b) = a - b + m.modulus by omega,
    Nat.add_mod_right, Nat.mod_eq_of_lt (by omega)]

private theorem add_cast (m : Machine) (a b : Nat) : ((m.add a b : Nat) : ZMod m.modulus) = a + b := by
  simp [Machine.add]

private theorem sub_cast (m : Machine) (a b : Nat) : ((m.sub a b : Nat) : ZMod m.modulus) = a - b := by
  have below : b % m.modulus ≤ m.modulus := (Nat.mod_lt b m.modulus_pos).le
  simp [Machine.sub, Nat.cast_sub below, sub_eq_add_neg]

private theorem eq_of_cast {a b : Nat} (first : a < m.modulus) (second : b < m.modulus)
    (same : (a : ZMod m.modulus) = b) : a = b := by
  have := (ZMod.natCast_eq_natCast_iff' a b m.modulus).mp same
  rwa [Nat.mod_eq_of_lt first, Nat.mod_eq_of_lt second] at this

theorem sub_sub_add (m : Machine) (a b c : Nat) : m.sub (m.sub a b) c = m.sub a (b + c) := by
  apply eq_of_cast (sub_lt m _ _) (sub_lt m _ _)
  simp only [sub_cast]
  push_cast
  ring

theorem add_of_sub (m : Machine) (a : Nat) (j : Nat) :
    m.add (m.sub a m.page) ((j + 1) * m.page) = m.add a (j * m.page) := by
  apply eq_of_cast (add_lt m _ _) (add_lt m _ _)
  simp only [add_cast, sub_cast]
  push_cast
  ring

theorem add_add (m : Machine) (a b c : Nat) : m.add (m.add a b) c = m.add a (b + c) := by
  apply eq_of_cast (add_lt m _ _) (add_lt m _ _)
  simp only [add_cast]
  push_cast
  ring

theorem add_sub (m : Machine) (a b : Nat) : m.add a (m.sub b a) = b % m.modulus := by
  apply eq_of_cast (add_lt m _ _) (Nat.mod_lt _ m.modulus_pos)
  simp only [add_cast, sub_cast]
  simp

theorem dvd_add {a b : Nat} (first : m.page ∣ a) (second : m.page ∣ b) : m.page ∣ m.add a b :=
  (Nat.dvd_mod_iff m.page_dvd).mpr (Nat.dvd_add first second)

theorem dvd_sub {a b : Nat} (first : m.page ∣ a) (second : m.page ∣ b) : m.page ∣ m.sub a b := by
  apply (Nat.dvd_mod_iff m.page_dvd).mpr
  exact Nat.dvd_add first (Nat.dvd_sub m.page_dvd ((Nat.dvd_mod_iff m.page_dvd).mpr second))

private theorem dvd_alignToPage (m : Machine) (size : Nat) : m.page ∣ m.alignToPage size :=
  (Nat.dvd_mod_iff m.page_dvd).mpr (Nat.dvd_mul_left _ _)

theorem dvd_center (m : Machine) (low hi : Nat) : m.page ∣ center m low hi :=
  dvd_sub (dvd_alignToPage m _) (Nat.dvd_refl _)

/-- The offset above counts from the end of the segment. -/
private theorem stop_le (bound : stop < m.modulus) (inside : a < m.modulus) :
    stop ≤ a + m.sub stop a := by
  unfold Machine.sub
  rw [Nat.mod_eq_of_lt inside]
  by_cases before : a ≤ stop
  · have wraps : stop + (m.modulus - a) = (stop - a) + m.modulus := by omega
    rw [wraps, Nat.add_mod_right, Nat.mod_eq_of_lt (by omega)]
    omega
  · rw [Nat.mod_eq_of_lt (by omega)]
    omega

/-! ## Free pages -/

variable {low hi : Nat} {maxSize : Nat}

private instance : Std.Symm fun g h : Segment => Apart g.toMapping h.toMapping := ⟨fun _ _ => Or.symm⟩

/-- With segments that do not overlap, `segment_get` finds the segment of an address. -/
theorem segmentGet_finds {g : Segment}
    (apart : s.segments.Pairwise fun g h => Apart g.toMapping h.toMapping)
    (nonempty : ∀ g ∈ s.segments, g.start < g.stop) (member : g ∈ s.segments) (from_ : g.start ≤ x)
    (upto : x < g.stop) :
    ¬ Free s x := by
  intro free
  unfold Free segmentGet at free
  have candidate : g ∈ s.segments.filter fun h => h.start ≤ x :=
    List.mem_filter.mpr ⟨member, by simpa using from_⟩
  cases best : (s.segments.filter fun h => h.start ≤ x).argmax fun h => h.start with
  | none =>
    rw [List.argmax_eq_none.mp best] at candidate
    cases candidate
  | some t =>
    have chosen := List.argmax_mem best
    have largest := List.le_of_mem_argmax candidate best
    obtain ⟨known, starts⟩ := List.mem_filter.mp chosen
    simp only [decide_eq_true_eq] at starts
    have ended : t.stop ≤ x := by
      rw [best] at free
      simpa [Option.filter] using free
    have different : g ≠ t := by
      rintro rfl
      omega
    have filled := nonempty t known
    rcases apart.forall member known different with before | after <;> omega

/-- A free page holds no part of a segment. -/
theorem free_page {g : Segment} (apart : s.segments.Pairwise fun g h => Apart g.toMapping h.toMapping)
    (valid : ∀ g ∈ s.segments, Valid m g.toMapping) (free : Free s page) (aligned : m.page ∣ page)
    (member : g ∈ s.segments) (from_ : page ≤ x) (upto : x < page + m.page) :
    ¬ (g.start ≤ x ∧ x < g.stop) := by
  rintro ⟨starts, ends⟩
  obtain ⟨k, rfl⟩ := aligned
  obtain ⟨first, start⟩ := (valid g member).start
  obtain ⟨last, stop⟩ := (valid g member).stop
  apply segmentGet_finds apart (fun h inside => (valid h inside).nonempty) member ?_ ?_ free
  · rw [start] at starts ⊢
    have : first < k + 1 := by
      apply Nat.lt_of_mul_lt_mul_left (a := m.page)
      rw [Nat.mul_add, Nat.mul_one]
      omega
    exact Nat.mul_le_mul_left _ (by omega)
  · rw [stop] at ends ⊢
    omega

/-- Every page from `start` on, for `size` bytes, is free. -/
def FreePages (m : Machine) (s : Space) (start : Nat) (size : Nat) : Prop :=
  ∀ j, j * m.page < size → Free s (m.add start (j * m.page))

/-- One free page. -/
theorem freePages_one (bound : start < m.modulus) (free : Free s start) :
    FreePages m s start m.page := by
  intro j inside
  have first : j = 0 := by
    by_contra positive
    have := Nat.le_mul_of_pos_left m.page (Nat.pos_of_ne_zero positive)
    omega
  rw [first, Nat.zero_mul, Machine.add, Nat.add_zero, Nat.mod_eq_of_lt bound]
  exact free

/-- What the search took, if it takes anything. -/
private inductive Taken (m : Machine) (s : Space) (owner : Segment) (size : Nat) (start : Nat) : Prop
  | pages (aligned : m.page ∣ start) (near : Near m s owner start) (free : FreePages m s start size)
  | unused (segment : Segment) (member : segment ∈ s.segments) (unused : segment.unused = true)
      (at_ : start = segment.start) (room : size ≤ segment.stop - segment.start)
        (near : Near m s owner start)

private theorem taken_clean {answers : List Bool} (safe : Safe m s owner answers)
    (comes : Comes m s owner answers start) (valid : ∀ g ∈ s.segments, Valid m g.toMapping)
    (apart : s.segments.Pairwise fun g h => Apart g.toMapping h.toMapping)
    (taken : Taken m s owner (m.alignToPage owner.trampolinesSize) start)
    (bound : start + m.alignToPage owner.trampolinesSize ≤ m.modulus) :
    Clean m ⟨s, owner, answers, start⟩ := by
  intro x from_ upto
  dsimp only at from_ upto ⊢
  have unusedOnly : ¬ Used s x := by
    rintro ⟨g, member, used, starts, ends⟩
    cases taken with
    | pages aligned near free =>
      have inPage : start + (x - start) / m.page * m.page ≤ x := by
        have := Nat.div_mul_le_self (x - start) m.page
        omega
      have before : x < start + (x - start) / m.page * m.page + m.page := by
        have := Nat.lt_div_mul_add m.page_pos (a := x - start)
        omega
      have freeHere := free ((x - start) / m.page) (by omega)
      rw [Machine.add, Nat.mod_eq_of_lt (by omega)] at freeHere
      exact free_page apart valid freeHere (Nat.dvd_add aligned (Nat.dvd_mul_left _ _)) member
        inPage before ⟨starts, ends⟩
    | unused segment known unused at_ room near =>
      have different : g ≠ segment := by
        rintro rfl
        rw [unused] at used
        cases used
      rcases apart.forall member known different with before | after <;> omega
  refine ⟨unusedOnly, fun artificial => unusedOnly ?_⟩
  cases taken with
  | pages _ near _ => exact safe.natural start x near comes from_ upto artificial
  | unused _ _ _ _ _ near => exact safe.natural start x near comes from_ upto artificial

/-! ## The search -/

private theorem middle_lt (m : Machine) (owner : Segment) : middle m owner < m.modulus := sub_lt m _ _

/-- A gap that grows downwards stays free and aligned. -/
theorem extendBelow_free {pages size beoff : Nat} {reachable : Bool}
    (next : m.sub start m.page = m.sub (center m low hi) beoff) (free : FreePages m s start size)
    (aligned : m.page ∣ start) (offset : m.page ∣ beoff) (whole : m.page ∣ size) (positive : 0 < size)
    (ends : extendBelow m s.segments low hi maxSize pages start size beoff reachable =
      (start', size', beoff', reachable')) :
    FreePages m s start' size' ∧ m.page ∣ start' ∧ m.page ∣ beoff' ∧ m.page ∣ size' ∧ 0 < size' := by
  induction pages generalizing start size beoff reachable with
  | zero =>
    cases ends
    exact ⟨free, aligned, offset, whole, positive⟩
  | succ pages ih =>
    simp only [extendBelow] at ends
    split at ends
    · rename_i grows
      simp only [Bool.and_eq_true, decide_eq_true_eq, Option.isNone_iff_eq_none] at grows
      obtain ⟨-, freeNext⟩ := grows
      apply ih ?_ ?_ (dvd_sub aligned (Nat.dvd_refl _)) (Nat.dvd_add offset (Nat.dvd_refl _))
        (Nat.dvd_add whole (Nat.dvd_refl _)) (by omega) ends
      · rw [next, sub_sub_add]
      · intro j inside
        cases j with
        | zero =>
          rw [Nat.zero_mul, Machine.add, Nat.add_zero, Nat.mod_eq_of_lt (sub_lt m _ _), next]
          exact freeNext
        | succ j =>
          rw [add_of_sub]
          apply free
          rw [Nat.add_mul] at inside
          omega
    · cases ends
      exact ⟨free, aligned, offset, whole, positive⟩

/-- A gap that grows downwards stays in reach. -/
private theorem extendBelow_reach {pages size beoff : Nat} {reachable : Bool}
    (next : m.sub start m.page = m.sub (center m low hi) beoff)
    (reach : m.checkRelativeJump hi start = true)
    (current : reachable = true → m.checkRelativeJump hi (m.sub (center m low hi) beoff) = true)
    (ends : extendBelow m s.segments low hi maxSize pages start size beoff reachable =
      (start', size', beoff', reachable')) :
    m.checkRelativeJump hi start' = true ∧
      (reachable' = true → m.checkRelativeJump hi (m.sub (center m low hi) beoff') = true) := by
  induction pages generalizing start size beoff reachable with
  | zero =>
    cases ends
    exact ⟨reach, current⟩
  | succ pages ih =>
    simp only [extendBelow] at ends
    split at ends
    · rename_i grows
      simp only [Bool.and_eq_true, decide_eq_true_eq] at grows
      apply ih ?_ ?_ id ends
      · rw [next, sub_sub_add]
      · rw [next]
        exact current grows.1.2
    · cases ends
      exact ⟨reach, current⟩

/-- The pages that the loop above has looked at are those below the center. -/
private theorem extendAbove_spec {pages size off aboff : Nat} {reachable : Bool}
    (counted : aboff = off + size) (whole : m.page ∣ size) (offset : m.page ∣ off)
    (free : ∀ j, 1 ≤ j → j * m.page < size → Free s (m.sub (middle m owner) (off + j * m.page)))
    (current : reachable = true →
      m.checkRelativeJump (lowest owner) (m.add (m.add (middle m owner) aboff) m.page) = true ∨
      m.checkRelativeJump (lowest owner) (m.add (m.sub (middle m owner) aboff) m.page) = true)
    (ends : extendAbove m s.segments (lowest owner) (highest owner) maxSize pages size aboff reachable =
      (size', aboff', reachable')) :
    off + size ≤ aboff' ∧ m.page ∣ aboff' ∧
      (∀ j, 1 ≤ j → j * m.page < size' → Free s (m.sub (middle m owner) (off + j * m.page))) ∧
      (reachable' = true → m.checkRelativeJump (lowest owner)
        (m.add (m.add (middle m owner) aboff') m.page) = true ∨
        m.checkRelativeJump (lowest owner) (m.add (m.sub (middle m owner) aboff') m.page) = true) := by
  induction pages generalizing size aboff reachable with
  | zero =>
    cases ends
    exact ⟨counted.ge, counted ▸ Nat.dvd_add offset whole, free, current⟩
  | succ pages ih =>
    simp only [extendAbove] at ends
    split at ends
    · rename_i grows
      simp only [Bool.and_eq_true, decide_eq_true_eq, Option.isNone_iff_eq_none] at grows
      obtain ⟨-, freeNext⟩ := grows
      have more : ∀ j, 1 ≤ j → j * m.page < size + m.page →
          Free s (m.sub (middle m owner) (off + j * m.page)) := by
        intro j positive inside
        by_cases known : j * m.page < size
        · exact free j positive known
        · -- The page looked at last.
          obtain ⟨k, rfl⟩ := whole
          have last : j = k := by
            have upper : j < k + 1 := by
              apply Nat.lt_of_mul_lt_mul_left (a := m.page)
              rw [Nat.mul_add, Nat.mul_one, Nat.mul_comm]
              exact inside
            have lower : ¬ j < k := by
              intro fewer
              apply known
              rw [Nat.mul_comm]
              exact Nat.mul_lt_mul_of_pos_left fewer m.page_pos
            omega
          rw [last, Nat.mul_comm, ← counted]
          exact freeNext
      obtain ⟨longer, rest⟩ := ih (by omega) (Nat.dvd_add whole (Nat.dvd_refl _)) more Or.inr ends
      exact ⟨by omega, rest⟩
    · cases ends
      exact ⟨counted.ge, counted ▸ Nat.dvd_add offset whole, free, current⟩

/-- Where the two loops stand. -/
private structure Sound (m : Machine) (owner : Segment) (cursor : Cursor) : Prop where
  below : cursor.beoffIsReachable = true →
    m.checkRelativeJump (highest owner) (m.sub (middle m owner) cursor.beoff) = true
  above : cursor.aboffIsReachable = true →
    m.checkRelativeJump (lowest owner) (m.add (middle m owner) cursor.aboff) = true ∨
      m.checkRelativeJump (lowest owner) (m.add (m.add (middle m owner) cursor.aboff) m.page) = true ∨
      m.checkRelativeJump (lowest owner) (m.add (m.sub (middle m owner) cursor.aboff) m.page) = true
  past : owner.stop ≤ middle m owner + cursor.aboff
  beoff : m.page ∣ cursor.beoff
  aboff : m.page ∣ cursor.aboff

/-- Where a room begins. -/
private def place : Room → Nat
  | .gap start _ => start
  | .unused segment => segment.start

/-- How much there is of it. -/
private def extent : Room → Nat
  | .gap _ size => size
  | .unused segment => segment.stop - segment.start

/-- A place that may be offered to `find_coherent`. -/
private def Offered (m : Machine) (s : Space) (owner : Segment) (size : Nat) (room : Room) : Prop :=
  size ≤ extent room → Taken m s owner size (place room)

theorem segmentGet_member {g : Segment} (found : segmentGet s.segments x = some g) :
    g ∈ s.segments ∧ g.start ≤ x ∧ x < g.stop := by
  unfold segmentGet at found
  obtain ⟨best, inside⟩ := Option.filter_eq_some_iff.mp found
  obtain ⟨member, starts⟩ := List.mem_filter.mp (List.argmax_mem best)
  exact ⟨member, by simpa using starts, by simpa using inside⟩

/-- In the list of the segments of an ordered tree, the lookup is that of the tree. -/
theorem segmentGet_ordered (tree : OrderedTree Nat Segment)
    (keyed : ∀ e ∈ tree.entries, e.2.start = e.1) (address : Nat) :
    segmentGet (tree.entries.map (·.2)) address = (tree.getLe address).filter fun g =>
    address < g.stop := by
  rw [segmentGet, OrderedTree.argmax_eq_getLe tree keyed]

theorem dvd_length {g : Segment} (valid : Valid m g.toMapping) : m.page ∣ g.stop - g.start :=
  Nat.dvd_sub valid.stop valid.start

private theorem lookBelow_spec {cursor : Cursor} (valid : ∀ g ∈ s.segments, Valid m g.toMapping)
    (sound : Sound m owner cursor) (reachable : cursor.beoffIsReachable = true)
    (looked : lookBelow m s.segments (lowest owner) (highest owner) maxSize cursor = (next, room)) :
    Sound m owner next ∧ ∀ r, room = some r → Offered m s owner maxSize r := by
  unfold lookBelow at looked
  cases here : segmentGet s.segments (m.sub (middle m owner) cursor.beoff) with
  | none =>
    simp only [here] at looked
    generalize extends_ : extendBelow m s.segments (lowest owner) (highest owner) maxSize
      (maxSize / m.page)
      (m.sub (middle m owner) cursor.beoff) m.page (cursor.beoff + m.page) _ = grown at looked
    obtain ⟨start', size', beoff', reachable'⟩ := grown
    cases looked
    obtain ⟨free, aligned, offset, -, -⟩ :=
      extendBelow_free (sub_sub_add m _ _ _) (freePages_one (sub_lt m _ _) here)
      (dvd_sub (dvd_center m _ _) sound.beoff) (Nat.dvd_add sound.beoff (Nat.dvd_refl _))
        (Nat.dvd_refl _) m.page_pos
      extends_
    obtain ⟨reach, current⟩ := extendBelow_reach (sub_sub_add m _ _ _)
      (sound.below reachable) id extends_
    refine ⟨⟨current, sound.above, sound.past, offset, sound.aboff⟩, ?_⟩
    rintro r ⟨⟩ enough
    have room : maxSize ≤ size' := enough
    exact .pages aligned (.inl reach) fun j inside => free j (by omega)
  | some seg =>
    simp only [here] at looked
    cases looked
    obtain ⟨member, -, -⟩ := segmentGet_member here
    refine ⟨⟨id, sound.above, sound.past, Nat.dvd_add sound.beoff (dvd_length (valid seg member)),
      sound.aboff⟩, ?_⟩
    intro r offered
    split at offered
    · rename_i fits
      simp only [Bool.and_eq_true] at fits
      cases offered
      intro enough
      exact .unused seg member fits.1 rfl enough (.inl fits.2)
    · cases offered

private theorem lookAbove_spec {cursor : Cursor} {answers : List Bool} (safe : Safe m s owner answers)
    (comes : Comes m s owner answers (middle m owner + cursor.aboff))
    (valid : ∀ g ∈ s.segments, Valid m g.toMapping) (sound : Sound m owner cursor)
    (reachable : cursor.aboffIsReachable = true)
    (looked : lookAbove m s.segments (lowest owner) (highest owner)
      (roomFor m owner) cursor =
      (next, room)) :
    Sound m owner next ∧ ∀ r, room = some r →
    Offered m s owner (roomFor m owner) r := by
  unfold lookAbove at looked
  cases here : segmentGet s.segments (m.add (middle m owner) cursor.aboff) with
  | none =>
    simp only [here] at looked
    generalize extends_ : extendAbove m s.segments (lowest owner) (highest owner) _ _ m.page
      (cursor.aboff + m.page) _ = grown at looked
    obtain ⟨size', aboff', reachable'⟩ := grown
    cases looked
    obtain ⟨longer, offset, mirror, current⟩ :=
      extendAbove_spec (s := s) rfl (Nat.dvd_refl _) sound.aboff
      (fun j positive inside => by
        have := Nat.le_mul_of_pos_left m.page positive
        omega) Or.inl extends_
    have past := sound.past
    refine ⟨⟨sound.below, fun reaches => .inr (current reaches), by dsimp only; omega,
      sound.beoff, offset⟩, ?_⟩
    rintro r ⟨⟩ enough
    have enough : roomFor m owner ≤ size' := enough
    refine .pages (dvd_add (dvd_center m _ _) sound.aboff) ?_ ?_
    · rcases sound.above reachable with reach | reach | reach
      · exact .inr (.inl reach)
      · exact .inr (.inr (.inl reach))
      · exact .inr (.inr (.inr (.inl ⟨_, rfl, reach⟩)))
    · intro j inside
      change Free s (m.add (m.add (middle m owner) cursor.aboff) (j * m.page))
      rw [add_add]
      by_cases positive : 1 ≤ j
      · exact safe.mirrored cursor.aboff sound.past comes here (fun j positive inside =>
          mirror j positive (by omega)) j positive
          inside
      · rw [show j = 0 by omega, Nat.zero_mul, Nat.add_zero]
        exact here
  | some seg =>
    simp only [here] at looked
    cases looked
    obtain ⟨member, -, -⟩ := segmentGet_member here
    have past := sound.past
    refine ⟨⟨sound.below, .inl, by dsimp only; omega, sound.beoff,
      Nat.dvd_add sound.aboff (dvd_length (valid seg member))⟩, ?_⟩
    intro r offered
    split at offered
    · rename_i fits
      simp only [Bool.and_eq_true] at fits
      cases offered
      intro enough
      exact .unused seg member fits.1 rfl enough
        (.inr (.inr (.inr (.inr ⟨seg, member, fits.1, rfl, fits.2⟩))))
    · cases offered

private theorem mmap_spec {answers rest : List Bool}
    (mapped : trampolineMmap m maxSize start stolen answers = (some found, rest)) :
    found.start = start ∧ start + maxSize ≤ m.modulus := by
  cases answers with
  | nil => cases mapped
  | cons answer answers =>
    simp only [trampolineMmap, Prod.mk.injEq] at mapped
    obtain ⟨granted, -⟩ := mapped
    split at granted
    · rename_i fits
      simp only [Bool.and_eq_true, decide_eq_true_eq] at fits
      cases granted
      exact ⟨rfl, fits.2⟩
    · cases granted

/-- What `find_coherent` takes is the room that it was offered, which is long enough. -/
private theorem findCoherent_took {answers rest : List Bool} {room : Option Room}
    (took : findCoherent m maxSize room answers = (some found, rest)) :
    ∃ r, room = some r ∧ maxSize ≤ extent r ∧ found.start = place r ∧ place r + maxSize ≤ m.modulus := by
  rcases room with _ | ⟨start, size⟩ | segment
  · cases took
  · simp only [findCoherent] at took
    split at took
    · obtain ⟨same, bound⟩ := mmap_spec took
      exact ⟨_, rfl, ‹_›, same, bound⟩
    · cases took
  · simp only [findCoherent] at took
    split at took
    · obtain ⟨same, bound⟩ := mmap_spec took
      exact ⟨_, rfl, ‹_›, same, bound⟩
    · cases took

/-- With a kernel that grants the next request, `find_coherent` only turns down what is too short,
and asks for nothing then. -/
private theorem findCoherent_declined {answers rest : List Bool} {room : Option Room}
    (declined : findCoherent m maxSize room answers = (none, rest))
    (granted : answers.head? = some true)
    (bound : ∀ r, room = some r → place r + maxSize ≤ m.modulus) :
    rest = answers ∧ ∀ r, room = some r → extent r < maxSize := by
  obtain ⟨later, rfl⟩ : ∃ later, answers = true :: later := by
    cases answers with
    | nil => cases granted
    | cons answer later => exact ⟨later, by rw [Option.some.inj granted]⟩
  rcases room with _ | ⟨start, size⟩ | segment
  · cases declined
    exact ⟨rfl, nofun⟩
  · have fits := bound _ rfl
    simp only [place] at fits
    simp only [findCoherent] at declined
    split at declined
    · simp [trampolineMmap, fits] at declined
    · cases declined
      refine ⟨rfl, ?_⟩
      rintro r ⟨⟩
      simpa [extent] using ‹¬maxSize ≤ size›
  · have fits := bound _ rfl
    simp only [place] at fits
    simp only [findCoherent] at declined
    split at declined
    · simp [trampolineMmap, fits] at declined
    · cases declined
      refine ⟨rfl, ?_⟩
      rintro r ⟨⟩
      simpa [extent] using ‹¬maxSize ≤ segment.stop - segment.start›

/-! ## How far the search comes -/

variable {g : Segment} {cursor next : Cursor} {room : Option Room}

/-- The loop below is above the gap below `g`, or at its top: between two segments, or below a page
that is free. -/
private structure Before (m : Machine) (s : Space) (owner g : Segment) (cursor : Cursor) (top : Nat) :
    Prop where
  reachable : cursor.beoffIsReachable = true
  counted : cursor.beoff + top = middle m owner + m.page
  above : g.start ≤ top
  aligned : m.page ∣ top
  edge : (∃ h ∈ s.segments, h.start = top) ∨ Free s top

/-- Pages lie a page apart. -/
private theorem page_step {a b : Nat} (first : m.page ∣ a) (second : m.page ∣ b) (less : a < b) :
    a + m.page ≤ b := by
  have := Nat.le_of_dvd (by omega) (Nat.dvd_sub second first)
  omega

private theorem Ample.page_le (ample : Ample m s owner g) : m.page ≤ roomFor m owner :=
  Nat.le_of_dvd ample.positive (dvd_alignToPage m _)

/-- Places that are close enough do not go past the last address. -/
private theorem Ample.inside (ample : Ample m s owner g) (close : Close m owner g a) :
    a + roomFor m owner ≤ m.modulus := by
  have := ample.bound
  have := close.2
  omega

/-- The page below `top`, if it is no lower than the gap, is in reach. -/
private theorem Ample.reached (ample : Ample m s owner g) {top beoff : Nat}
    (counted : beoff + top = middle m owner + m.page) (above : g.start + m.page ≤ top + roomFor m owner)
    (aligned : m.page ∣ top) :
    m.page ≤ top ∧ m.sub (middle m owner) beoff = top - m.page ∧
      m.checkRelativeJump (highest owner) (m.sub (middle m owner) beoff) = true := by
  have fits := ample.fits
  have positive : m.page ≤ top := by omega
  have same : m.sub (middle m owner) beoff = top - m.page := by
    rw [sub_of_le (by omega) (middle_lt m owner)]
    omega
  refine ⟨positive, same, ?_⟩
  rw [same]
  exact ample.reach _ (Nat.dvd_sub aligned (Nat.dvd_refl _)) (by omega) (by omega)

/-- The search starts at the end of the gap below the tracepoints. -/
private theorem start_before (ample : Ample m s owner g) (own : Valid m owner.toMapping)
    (known : ∃ h ∈ s.segments, h.start = owner.start) :
    Before m s owner g (startCursor m owner (lowest owner) (highest owner)) owner.start := by
  have page := ample.page_le
  have fits := ample.fits
  have below := ample.below
  have centered := ample.centered
  have inside := middle_lt m owner
  have bound : owner.start < m.modulus := own.nonempty.trans own.bound
  have counted : m.add (m.sub (middle m owner) owner.start) m.page + owner.start =
      middle m owner + m.page := by
    by_cases ordered : owner.start ≤ middle m owner
    · rw [sub_of_le ordered inside, add_of_lt (by omega)]
      omega
    · -- The tracepoint is at the start of the segment, and the center a page below.
      have first : middle m owner + m.page = owner.start :=
        le_antisymm (page_step (dvd_center m _ _) own.start (by omega)) centered
      have wraps : m.sub (middle m owner) owner.start = m.modulus - m.page := by
        rw [Machine.sub, Nat.mod_eq_of_lt bound, Nat.mod_eq_of_lt (by omega)]
        omega
      rw [wraps, Machine.add, Nat.sub_add_cancel (by omega), Nat.mod_self, Nat.zero_add, first]
  exact ⟨(ample.reached counted (by omega) own.start).2.2, counted, below, own.start, .inl known⟩

/-- A gap that grows downwards ends at a page that is not in reach or not free, or when it is long
enough. -/
private theorem extendBelow_walk {pages size beoff : Nat} {reachable : Bool} {top : Nat}
    (ample : Ample m s owner g) (above : g.start ≤ top)
    (counted : beoff + start = middle m owner + m.page) (begun : start + size = top)
    (low : start ≤ middle m owner) (short : size ≤ roomFor m owner) (whole : m.page ∣ size)
    (enough : roomFor m owner ≤ size + pages * m.page)
    (current : reachable = m.checkRelativeJump (highest owner) (m.sub (middle m owner) beoff))
    (ends : extendBelow m s.segments (lowest owner) (highest owner) (roomFor m owner) pages start size
      beoff reachable = (start', size', beoff', reachable')) :
    beoff' + start' = middle m owner + m.page ∧ start' + size' = top ∧ size' ≤ roomFor m owner ∧
      reachable' = m.checkRelativeJump (highest owner) (m.sub (middle m owner) beoff') ∧
      (size' < roomFor m owner → reachable' = true → ¬ Free s (start' - m.page)) := by
  have inside := middle_lt m owner
  have fits := ample.fits
  induction pages generalizing start size beoff reachable with
  | zero =>
    cases ends
    exact ⟨counted, begun, short, current, fun less => by omega⟩
  | succ pages ih =>
    have further : size < roomFor m owner → size + m.page ≤ roomFor m owner :=
      page_step whole (dvd_alignToPage m _)
    simp only [extendBelow] at ends
    split at ends
    · rename_i grows
      simp only [Bool.and_eq_true, decide_eq_true_eq] at grows
      have longer := further grows.1.1
      have next : m.sub start m.page = start - m.page := sub_of_le (by omega) (by omega)
      rw [Nat.succ_mul] at enough
      exact ih (by omega) (by omega) (by omega) longer (Nat.dvd_add whole (Nat.dvd_refl _)) (by omega)
        rfl ends
    · rename_i stops
      cases ends
      refine ⟨counted, begun, short, current, fun less reached free => stops ?_⟩
      have longer := further less
      have next : m.sub (middle m owner) beoff' = start' - m.page := by
        rw [sub_of_le (by omega) inside]
        omega
      rw [Free, ← next] at free
      simp [less, reached, free]

/-- A gap whose pages are free ends above the start of a segment that is below its end. -/
private theorem above_of_free (valid : ∀ g ∈ s.segments, Valid m g.toMapping)
    (apart : s.segments.Pairwise fun g h => Apart g.toMapping h.toMapping) (member : g ∈ s.segments)
    (aligned : m.page ∣ start) (free : FreePages m s start size) (below : g.start < start + size) :
    g.start < start := by
  by_contra low
  have here := valid g member
  have nonempty := here.nonempty
  have bound := here.bound
  have counted : start + (g.start - start) / m.page * m.page = g.start := by
    rw [Nat.div_mul_cancel (Nat.dvd_sub here.start aligned)]
    omega
  have freeHere := free ((g.start - start) / m.page) (by omega)
  rw [add_of_lt (by omega), counted] at freeHere
  exact segmentGet_finds apart (fun h inside => (valid h inside).nonempty) member (Nat.le_refl _)
    nonempty freeHere

/-- What is found below an edge ends there. -/
private theorem Before.stop_eq {top : Nat} (before : Before m s owner g cursor top)
    (valid : ∀ g ∈ s.segments, Valid m g.toMapping)
    (apart : s.segments.Pairwise fun g h => Apart g.toMapping h.toMapping) {seg : Segment}
    (member : seg ∈ s.segments) (starts : seg.start < top) (ends : top ≤ seg.stop) :
    seg.stop = top := by
  rcases before.edge with ⟨h, known, same⟩ | free
  · have different : seg ≠ h := by
      rintro rfl
      omega
    have nonempty := (valid h known).nonempty
    rcases apart.forall member known different with before | after <;> omega
  · by_contra later
    exact segmentGet_finds apart (fun h inside => (valid h inside).nonempty) member starts.le
      (by omega) free

/-- A round of the loop below ends above the gap below `g` or at its top, or it finds room in it. -/
private theorem Before.looked {top : Nat} (before : Before m s owner g cursor top)
    (ample : Ample m s owner g) (valid : ∀ g ∈ s.segments, Valid m g.toMapping)
    (apart : s.segments.Pairwise fun g h => Apart g.toMapping h.toMapping)
    (looked : lookBelow m s.segments (lowest owner) (highest owner) (roomFor m owner) cursor =
      (next, room)) :
    (∀ r, room = some r → Close m owner g (place r)) ∧
      ((∃ top, Before m s owner g next top) ∨ ∃ r, room = some r ∧ roomFor m owner ≤ extent r) := by
  have some_ := m.page_pos
  have page := ample.page_le
  have fits := ample.fits
  have below := ample.below
  have centered := ample.centered
  have counted := before.counted
  have above := before.above
  have offset : m.page ∣ cursor.beoff := (Nat.dvd_add_iff_left before.aligned).mpr
    (counted ▸ Nat.dvd_add (dvd_center m _ _) (Nat.dvd_refl _))
  obtain ⟨positive, same, -⟩ := ample.reached counted (by omega) before.aligned
  unfold lookBelow at looked
  cases here : segmentGet s.segments (m.sub (middle m owner) cursor.beoff) with
  | none =>
    simp only [here] at looked
    generalize extends_ : extendBelow m s.segments (lowest owner) (highest owner) (roomFor m owner)
      (roomFor m owner / m.page) (m.sub (middle m owner) cursor.beoff) m.page (cursor.beoff + m.page)
      _ = grown at looked
    obtain ⟨start', size', beoff', reachable'⟩ := grown
    cases looked
    obtain ⟨free, aligned', -, whole', positive'⟩ :=
      extendBelow_free (sub_sub_add m _ _ _) (freePages_one (sub_lt m _ _) here)
      (dvd_sub (dvd_center m _ _) offset) (Nat.dvd_add offset (Nat.dvd_refl _)) (Nat.dvd_refl _)
      m.page_pos extends_
    have rounds : roomFor m owner / m.page * m.page = roomFor m owner :=
      Nat.div_mul_cancel (dvd_alignToPage m _)
    obtain ⟨counted', begun', short', current', stops⟩ :=
      extendBelow_walk ample above (by omega) (by omega) (by omega) page (Nat.dvd_refl _) (by omega)
        rfl extends_
    have onePage : m.page ≤ size' := Nat.le_of_dvd positive' whole'
    refine ⟨?_, ?_⟩
    · rintro r ⟨⟩
      exact ⟨by simp only [place]; omega, by simp only [place]; omega⟩
    · by_cases bottom : g.start = top
      · -- The gap below `g`, which is long enough.
        refine .inr ⟨.gap start' size', rfl, ?_⟩
        by_contra less
        have less : size' < roomFor m owner := not_le.mp less
        have longer : size' + m.page ≤ roomFor m owner := page_step whole' (dvd_alignToPage m _) less
        obtain ⟨-, -, reached⟩ := ample.reached counted' (by omega) aligned'
        refine stops less (current'.trans reached) ?_
        obtain ⟨j, rfl⟩ := whole'
        have freeNext := ample.free j (by rwa [Nat.mul_comm])
        rw [show g.start - (j + 1) * m.page = start' - m.page by
          rw [Nat.succ_mul, Nat.mul_comm]
          omega] at freeNext
        exact freeNext
      · have higher := above_of_free valid apart ample.member aligned' free (by omega)
        obtain ⟨-, -, reached⟩ := ample.reached counted' (by omega) aligned'
        have freeHere := free 0 (by omega)
        rw [Nat.zero_mul, add_of_lt (by have := middle_lt m owner; omega), Nat.add_zero] at freeHere
        exact .inl ⟨start', current'.trans reached, counted', higher.le, aligned', .inr freeHere⟩
  | some seg =>
    simp only [here] at looked
    cases looked
    obtain ⟨member, starts, ends⟩ := segmentGet_member here
    have valid' := valid seg member
    have lower : seg.start < top := by omega
    have upper := page_step (Nat.dvd_sub before.aligned (Nat.dvd_refl _)) valid'.stop (same ▸ ends)
    have stop := before.stop_eq valid apart member lower (by omega)
    have different : g.start ≠ top := by
      rintro rfl
      have freeNext := ample.free 0 (by have := ample.positive; omega)
      rw [Nat.zero_add, Nat.one_mul, ← same] at freeNext
      rw [Free, here] at freeNext
      cases freeNext
    have higher : g.start ≤ seg.start := by
      have filled := (valid g ample.member).nonempty
      by_cases itself : seg = g
      · rw [itself]
      · rcases apart.forall member ample.member itself with below | after <;> omega
    have counted' : cursor.beoff + (seg.stop - seg.start) + seg.start = middle m owner + m.page := by
      omega
    refine ⟨?_, .inl ⟨seg.start, (ample.reached counted' (by omega) valid'.start).2.2, counted', higher,
      valid'.start, .inl ⟨seg, member, rfl⟩⟩⟩
    intro r offered
    split at offered
    · cases offered
      exact ⟨by simp only [place]; omega, by simp only [place]; omega⟩
    · cases offered

/-- Above, the search comes no farther than below. -/
private theorem Before.level {top : Nat} (before : Before m s owner g cursor top)
    (ample : Ample m s owner g) (own : Valid m owner.toMapping)
    (past : owner.stop ≤ middle m owner + cursor.aboff) (turn : cursor.aboff ≤ cursor.beoff) :
    Close m owner g (middle m owner + cursor.aboff) := by
  have below := ample.below
  have nonempty := own.nonempty
  have counted := before.counted
  have above := before.above
  exact ⟨by omega, by omega⟩

private theorem Before.lookedAbove {top : Nat} (before : Before m s owner g cursor top)
    (ample : Ample m s owner g) (own : Valid m owner.toMapping)
    (valid : ∀ g ∈ s.segments, Valid m g.toMapping)
    (apart : s.segments.Pairwise fun g h => Apart g.toMapping h.toMapping)
    (past : owner.stop ≤ middle m owner + cursor.aboff) (turn : cursor.aboff ≤ cursor.beoff)
    (looked : lookAbove m s.segments (lowest owner) (highest owner) (roomFor m owner) cursor =
      (next, room)) :
    (∀ r, room = some r → Close m owner g (place r)) ∧ Before m s owner g next top := by
  have level := before.level ample own past turn
  have inside := ample.inside level
  have positive := ample.positive
  have same : m.add (middle m owner) cursor.aboff = middle m owner + cursor.aboff :=
    add_of_lt (by omega)
  unfold lookAbove at looked
  cases here : segmentGet s.segments (m.add (middle m owner) cursor.aboff) with
  | none =>
    simp only [here] at looked
    generalize extendAbove m s.segments (lowest owner) (highest owner) _ _ m.page
      (cursor.aboff + m.page) _ = grown at looked
    cases looked
    refine ⟨?_, before.reachable, before.counted, before.above, before.aligned, before.edge⟩
    rintro r ⟨⟩
    rw [place, same]
    exact level
  | some seg =>
    simp only [here] at looked
    cases looked
    refine ⟨?_, before.reachable, before.counted, before.above, before.aligned, before.edge⟩
    intro r offered
    split at offered
    · cases offered
      obtain ⟨member, starts, ends⟩ := segmentGet_member here
      have below := ample.below
      have nonempty := own.nonempty
      have filled := (valid g ample.member).nonempty
      have lower : g.start ≤ seg.start := by
        by_cases itself : seg = g
        · rw [itself]
        · rcases apart.forall member ample.member itself with before | after <;> omega
      obtain ⟨-, upper⟩ := level
      exact ⟨by simp only [place]; omega, by simp only [place]; omega⟩
    · cases offered

/-- The loop below has not come past an ample gap, and nothing has been asked of the kernel. -/
private def Arrives (m : Machine) (s : Space) (owner : Segment) (answers : List Bool) (cursor : Cursor)
    (left : List Bool) : Prop :=
  answers.head? = some true → ∀ g, Ample m s owner g →
    left = answers ∧ ∃ top, Before m s owner g cursor top

private theorem iter_spec {steps : Nat} {above : Bool} {cursor : Cursor} {answers left : List Bool}
    (safe : Safe m s owner answers) (valid : ∀ g ∈ s.segments, Valid m g.toMapping)
    (apart : s.segments.Pairwise fun g h => Apart g.toMapping h.toMapping)
    (own : Valid m owner.toMapping) (sound : Sound m owner cursor)
    (arrives : Arrives m s owner answers cursor left)
    (took : iterFreeSegmentsAround m s.segments (lowest owner) (highest owner) (roomFor m owner)
      steps above cursor left = some found) :
    Taken m s owner (roomFor m owner) found.start ∧ Comes m s owner answers found.start ∧
      found.start + roomFor m owner ≤ m.modulus := by
  induction steps generalizing above cursor left with
  | zero => cases took
  | succ steps ih =>
    cases above with
    | false =>
      simp only [iterFreeSegmentsAround] at took
      split at took
      · rename_i turn
        simp only [Bool.and_eq_true] at turn
        generalize looked : lookBelow m s.segments (lowest owner) (highest owner) _ cursor = step at took
        obtain ⟨next, room⟩ := step
        obtain ⟨sound', offered⟩ := lookBelow_spec valid sound turn.1 looked
        generalize asked : findCoherent m _ room left = answer at took
        obtain ⟨result, rest⟩ := answer
        cases result with
        | some result =>
          cases took
          obtain ⟨r, here, enough, same, bound⟩ := findCoherent_took asked
          rw [same]
          refine ⟨offered r here enough, fun granted g ample => ?_, bound⟩
          obtain ⟨-, top, before⟩ := arrives granted g ample
          exact (before.looked ample valid apart looked).1 r here
        | none =>
          refine ih sound' (fun granted g ample => ?_) took
          obtain ⟨rfl, top, before⟩ := arrives granted g ample
          obtain ⟨close, later | ⟨r, here, enough⟩⟩ := before.looked ample valid apart looked
          · exact ⟨(findCoherent_declined asked granted fun r here => ample.inside (close r here)).1,
              later⟩
          · have short := (findCoherent_declined asked granted fun r here =>
              ample.inside (close r here)).2 r here
            omega
      · exact ih sound arrives took
    | true =>
      simp only [iterFreeSegmentsAround] at took
      split at took
      · rename_i turn
        simp only [Bool.and_eq_true, Bool.or_eq_true, decide_eq_true_eq, Bool.not_eq_true'] at turn
        have level : ∀ g top, Before m s owner g cursor top → cursor.aboff ≤ cursor.beoff := by
          intro g top before
          rcases turn.2 with level | out
          · exact level
          · rw [before.reachable] at out
            cases out
        generalize looked : lookAbove m s.segments (lowest owner) (highest owner) _ cursor = step at took
        obtain ⟨next, room⟩ := step
        have comes : Comes m s owner answers (middle m owner + cursor.aboff) := by
          intro granted g ample
          obtain ⟨-, top, before⟩ := arrives granted g ample
          exact before.level ample own sound.past (level g top before)
        obtain ⟨sound', offered⟩ := lookAbove_spec safe comes valid sound turn.1 looked
        generalize asked : findCoherent m _ room left = answer at took
        obtain ⟨result, rest⟩ := answer
        cases result with
        | some result =>
          cases took
          obtain ⟨r, here, enough, same, bound⟩ := findCoherent_took asked
          rw [same]
          refine ⟨offered r here enough, fun granted g ample => ?_, bound⟩
          obtain ⟨-, top, before⟩ := arrives granted g ample
          exact (before.lookedAbove ample own valid apart sound.past (level g top before) looked).1 r here
        | none =>
          refine ih sound' (fun granted g ample => ?_) took
          obtain ⟨rfl, top, before⟩ := arrives granted g ample
          obtain ⟨close, later⟩ :=
            before.lookedAbove ample own valid apart sound.past (level g top before) looked
          exact ⟨(findCoherent_declined asked granted fun r here => ample.inside (close r here)).1,
            top, later⟩
      · split at took
        · exact ih sound arrives took
        · cases took

/-- Where it is safe to search, what the search takes is not in use. -/
private theorem search_clean {answers : List Bool} (safe : Safe m s owner answers)
    (valid : ∀ g ∈ s.segments, Valid m g.toMapping)
    (apart : s.segments.Pairwise fun g h => Apart g.toMapping h.toMapping)
    (own : Valid m owner.toMapping) (known : ∃ h ∈ s.segments, h.start = owner.start)
    (took : searchTrampoline m s.segments owner answers = some found) :
    Clean m ⟨s, owner, answers, found.start⟩ := by
  have sound : Sound m owner (startCursor m owner (lowest owner) (highest owner)) :=
    ⟨id, fun reach => .inr (.inl reach), stop_le own.bound (middle_lt m owner),
      dvd_add (dvd_sub (dvd_center m _ _) own.start) (Nat.dvd_refl _),
      dvd_sub own.stop (dvd_center m _ _)⟩
  have arrives : Arrives m s owner answers (startCursor m owner (lowest owner) (highest owner)) answers :=
    fun _ _ ample => ⟨rfl, _, start_before ample own known⟩
  obtain ⟨taken, comes, bound⟩ := iter_spec safe valid apart own sound arrives took
  exact taken_clean safe comes valid apart taken bound

/-! ## Runs -/

/-- Different segments have different starts, and those that are still mapped do not overlap. -/
private def Distinct (g h : Segment) : Prop :=
  g.start ≠ h.start ∧ (g.state ≠ .deleted → h.state ≠ .deleted → Apart g.toMapping h.toMapping)

private instance : Std.Symm Distinct :=
  ⟨fun _ _ distinct => ⟨distinct.1.symm, fun live live' => (distinct.2 live' live).symm⟩⟩

private structure Tidy (m : Machine) (s : Space) : Prop where
  valid : ∀ g ∈ s.segments, Valid m g.toMapping
  distinct : s.segments.Pairwise Distinct

/-- What is recorded is a search among well-kept segments. -/
private def Recorded (m : Machine) (p : Placement) : Prop :=
  Tidy m p.space ∧ Valid m p.owner.toMapping ∧ (∃ h ∈ p.space.segments, h.start = p.owner.start) ∧
    ∃ found, searchTrampoline m p.space.segments p.owner p.answers = some found ∧
    p.start = found.start

private theorem recorded_clean {p : Placement} (recorded : Recorded m p)
    (safe : Safe m p.space p.owner p.answers) : Clean m p := by
  obtain ⟨tidy, own, known, found, took, same⟩ := recorded
  obtain ⟨space, owner, answers, start⟩ := p
  dsimp only at tidy own known took same safe
  rw [same]
  apply search_clean safe tidy.valid ?_ own known took
  apply (tidy.distinct.and safe.gone).imp
  rintro g h ⟨distinct, gone⟩
  by_cases deleted : g.state = .deleted ∨ h.state = .deleted
  · exact gone deleted
  · exact distinct.2 (fun gone => deleted (.inl gone)) fun gone => deleted (.inr gone)

/-- The bookkeeping changes, but the segments stay where they are, and none comes back. -/
private theorem Tidy.map {f : Segment → Segment} (tidy : Tidy m s)
    (same : ∀ g ∈ s.segments, (f g).start = g.start ∧ (f g).stop = g.stop ∧
      ((f g).state ≠ .deleted → g.state ≠ .deleted)) (injections : List Trampoline.Injection) :
    Tidy m ⟨s.segments.map f, injections⟩ := by
  constructor
  · intro g member
    obtain ⟨old, known, rfl⟩ := List.mem_map.mp member
    obtain ⟨start, stop, -⟩ := same old known
    obtain ⟨nonempty, first, last, bound⟩ := tidy.valid old known
    rw [← start] at nonempty first
    rw [← stop] at nonempty last bound
    exact ⟨nonempty, first, last, bound⟩
  · rw [List.pairwise_map]
    apply tidy.distinct.imp_of_mem
    intro g h knownG knownH distinct
    obtain ⟨startG, stopG, liveG⟩ := same g knownG
    obtain ⟨startH, stopH, liveH⟩ := same h knownH
    unfold Distinct Apart at *
    rw [startG, startH, stopG, stopH]
    exact ⟨distinct.1, fun live live' => distinct.2 (liveG live) (liveH live')⟩

/-- A new record of a segment. -/
private def Known (s : Space) (g : Segment) : Prop :=
  ∀ h ∈ s.segments, h.start = g.start → h.stop = g.stop ∧ h.state = g.state

private theorem Tidy.known {g h : Segment} (tidy : Tidy m s) (member : g ∈ s.segments)
    (same : h.start = g.start ∧ h.stop = g.stop ∧ h.state = g.state) : Known s h := by
  intro k known starts
  have equal : k = g := by
    by_contra different
    exact (tidy.distinct.forall known member different).1 (starts.trans same.1)
  rw [equal]
  exact ⟨same.2.1.symm, same.2.2.symm⟩

private theorem Tidy.put {g : Segment} (tidy : Tidy m s) (known : Known s g) : Tidy m (s.put g) := by
  apply tidy.map
  intro h member
  split
  · rename_i starts
    obtain ⟨stop, state⟩ := known h member starts
    exact ⟨starts.symm, stop.symm, fun live => state ▸ live⟩
  · exact ⟨rfl, rfl, id⟩

private theorem known_put {g h : Segment} (same : h.start = g.start ∧ h.stop = g.stop ∧
      h.state = g.state) :
    Known (s.put g) h := by
  intro k member starts
  obtain ⟨old, former, rfl⟩ := List.mem_map.mp member
  split at starts
  · simp only [‹old.start = g.start›, ↓reduceIte]
    exact ⟨same.2.1.symm, same.2.2.symm⟩
  · rename_i elsewhere
    exact (elsewhere (starts.trans same.1)).elim

private theorem Known.same {g h : Segment} (known : Known s g)
    (same : h.start = g.start ∧ h.stop = g.stop ∧ h.state = g.state) :
    Known s h := by
  intro k member starts
  obtain ⟨stop, state⟩ := known k member (starts.trans same.1)
  exact ⟨stop.trans same.2.1.symm, state.trans same.2.2.symm⟩

/-- Instrumenting a segment keeps the segments, with their states, and records its search. -/
private structure Instrumented (m : Machine) (s : Space) (x : Traced Placement Space) : Prop where
  tidy : Tidy m x.value
  states : ∀ h ∈ x.value.segments, ∃ g ∈ s.segments, h.start = g.start ∧ h.state = g.state
  recorded : Traced.Within (Recorded m) x

private theorem put_states {g : Segment} (known : Known s g) :
    ∀ h ∈ (s.put g).segments, ∃ k ∈ s.segments, h.start = k.start ∧ h.state = k.state := by
  intro h inside
  obtain ⟨old, former, rfl⟩ := List.mem_map.mp inside
  split
  · rename_i starts
    exact ⟨old, former, starts.symm, (known old former starts).2.symm⟩
  · exact ⟨old, former, rfl, rfl⟩

private theorem tracepointsInit_spec {g : Segment} (setup : Setup) (tidy : Tidy m s) (known : Known s g)
    (own : Valid m g.toMapping) (here : ∃ h ∈ s.segments, h.start = g.start) :
    Instrumented m s (tracepointsInit m setup s g) := by
  have put : ∀ h : Segment, h.start = g.start ∧ h.stop = g.stop ∧ h.state = g.state → ∀ placements :
      List Placement,
      (∀ p ∈ placements, Recorded m p) → Instrumented m s ⟨s.put h, placements⟩ :=
      fun h same placements recorded =>
    ⟨tidy.put (known.same same), put_states (known.same same), recorded⟩
  unfold tracepointsInit
  simp only
  split
  · refine put _ ?_ [] (by simp)
    exact ⟨rfl, rfl, rfl⟩
  · split
    · rename_i found took
      refine put _ ?_ _ ?_
      · split <;> exact ⟨rfl, rfl, rfl⟩
      · intro p recorded
        cases List.mem_singleton.mp recorded
        exact ⟨tidy, own, here, found, took, rfl⟩
    · split
      · refine put _ ?_ [] (by simp)
        exact ⟨rfl, rfl, rfl⟩
      · refine put _ ?_ [] (by simp)
        split <;> exact ⟨rfl, rfl, rfl⟩

private theorem segmentInit_spec {g : Segment} (setup : Setup) (tidy : Tidy m s)
    (member : g ∈ s.segments) :
    Instrumented m s (segmentInit m setup s g) := by
  have own := tidy.valid g member
  have known := tidy.known member ⟨rfl, rfl, rfl⟩
  have quiet : Instrumented m s (pure s) :=
    ⟨tidy, fun h inside => ⟨h, inside, rfl, rfl⟩, Traced.within_pure s⟩
  by_cases skipped : (g.injection.isSome || g.filename.isNone || !g.executable || g.writeable) = true
  · have same : injectionsInit setup s g = (s, g) := by
      unfold injectionsInit
      rw [if_pos skipped]
    simp only [segmentInit, same]
    split
    · exact tracepointsInit_spec setup tidy known own ⟨g, member, rfl⟩
    · exact quiet
  · have changed : injectionsInit setup s g =
        ({ s with injections := s.injections ++ setup.injected }.put
          { g with injection := setup.handler },
          { g with injection := setup.handler }) := by
      unfold injectionsInit
      rw [if_neg skipped]
    -- The handlers are injected first, and their injections are in place for the search.
    have known' : Known { s with injections := s.injections ++ setup.injected }
        { g with injection := setup.handler } := known
    have tidy' : Tidy m ({ s with injections := s.injections ++ setup.injected }.put
        { g with injection := setup.handler }) :=
      Tidy.put ⟨tidy.valid, tidy.distinct⟩ known'
    have states := put_states known'
    simp only [segmentInit, changed]
    split
    · obtain ⟨final, later, recorded⟩ :=
        tracepointsInit_spec (g := { g with injection := setup.handler }) setup tidy'
        (known_put ⟨rfl, rfl, rfl⟩) own
        ⟨_, List.mem_map_of_mem member, by simp⟩
      refine ⟨final, fun h inside => ?_, recorded⟩
      obtain ⟨k, between, start, state⟩ := later h inside
      obtain ⟨old, former, start', state'⟩ := states k between
      exact ⟨old, former, start.trans start', state.trans state'⟩
    · exact ⟨tidy', states, Traced.within_pure _⟩

/-! ## Scanning -/

theorem find_start {start : Nat} {g : Segment}
    (found : s.segments.find? (fun g => g.start = start) = some g) :
    g ∈ s.segments ∧ g.start = start :=
  ⟨List.mem_of_find?_eq_some found, by simpa using List.find?_some found⟩

private theorem visit_spec (setups : Nat → Setup) (start : Nat) (tidy : Tidy m s) :
    Tidy m (visit m setups s start).value ∧ Traced.Within (Recorded m) (visit m setups s start) := by
  unfold visit
  cases found : s.segments.find? (fun g => g.start = start) with
  | none => exact ⟨tidy, Traced.within_pure s⟩
  | some g =>
    obtain ⟨member, starts⟩ := find_start found
    cases state : g.state with
    | old =>
      simp only [state]
      exact ⟨tidy, Traced.within_pure s⟩
    | deleted =>
      simp only [state]
      refine ⟨⟨fun h inside => tidy.valid h (List.mem_filter.mp inside).1, tidy.distinct.filter _⟩,
        Traced.within_pure _⟩
    | fresh =>
      simp only [state]
      obtain ⟨tidy', states, recorded⟩ := segmentInit_spec (setups start) tidy member
      refine ⟨?_, (Traced.within_bind _ _).mpr ⟨recorded, Traced.within_pure _⟩⟩
      rw [Traced.value_bind, Traced.value_pure]
      apply tidy'.map
      intro h inside
      split
      · rename_i here
        refine ⟨rfl, rfl, fun _ => ?_⟩
        obtain ⟨old, former, start', state'⟩ := states h inside
        have equal : old = g := by
          by_contra different
          apply (tidy.distinct.forall former member different).1
          rw [← start', here, starts]
        rw [state', equal, state]
        simp
      · exact ⟨rfl, rfl, id⟩

/-- The segments that are still mapped were seen in this look at the map. -/
private def Seen (s : Space) (seen : List Mapping) : Prop :=
  ∀ g ∈ s.segments, g.state ≠ .deleted → ∃ mapping ∈ seen, mapping.start = g.start ∧
  mapping.stop = g.stop

private theorem notify_spec (again : Bool) {mapping : Mapping} {seen : List Mapping}
    (tidy : Tidy m s) (known : Seen s seen)
    (valid : Valid m mapping) (apart : ∀ other ∈ seen, Apart other mapping) :
    Tidy m (notify (s, again) mapping).1 ∧ Seen (notify (s, again) mapping).1 (mapping :: seen) := by
  have older : Seen s (mapping :: seen) := by
    intro g member live
    obtain ⟨line, seen, same⟩ := known g member live
    exact ⟨line, List.mem_cons_of_mem _ seen, same⟩
  unfold notify
  cases found : s.segments.find? (fun g => g.start = mapping.start) with
  | some old =>
    obtain ⟨member, starts⟩ := find_start found
    simp only
    split
    · rename_i equal
      simp only [segmentEqual, Bool.and_eq_true, decide_eq_true_eq] at equal
      obtain ⟨⟨⟨-, stops⟩, -⟩, -⟩ := equal
      have unique : ∀ h ∈ s.segments, h.start = old.start → h = old := by
        intro h inside same
        by_contra different
        exact (tidy.distinct.forall inside member different).1 same
      -- Every other segment that is still mapped was seen before, apart from this one.
      have others : ∀ h ∈ s.segments, h.start ≠ old.start → h.state ≠ .deleted →
          Apart h.toMapping old.toMapping := by
        intro h inside _ live
        obtain ⟨line, before, start, stop⟩ := known h inside live
        have := apart line before
        unfold Apart at this ⊢
        omega
      constructor
      · constructor
        · intro g inside
          obtain ⟨h, former, rfl⟩ := List.mem_map.mp inside
          split
          · exact tidy.valid old member
          · exact tidy.valid h former
        · simp only [Space.put, List.pairwise_map]
          apply tidy.distinct.imp_of_mem
          intro g h insideG insideH distinct
          by_cases first : g.start = old.start <;> by_cases second : h.start = old.start
          · exact (distinct.1 (first.trans second.symm)).elim
          · simp only [first, second, ↓reduceIte]
            exact ⟨fun same => second same.symm, fun _ live => (others h insideH second live).symm⟩
          · simp only [first, second, ↓reduceIte]
            exact ⟨first, fun live _ => others g insideG first live⟩
          · simp only [first, second, ↓reduceIte]
            exact distinct
      · intro g inside live
        obtain ⟨h, former, rfl⟩ := List.mem_map.mp inside
        split at live
        · rename_i same
          simp only [same, ↓reduceIte]
          exact ⟨mapping, List.mem_cons_self, starts.symm, stops⟩
        · rename_i different
          simp only [different, ↓reduceIte]
          exact older h former live
    · exact ⟨tidy, older⟩
  | none =>
    simp only
    have fresh : ∀ h ∈ s.segments, h.start ≠ mapping.start := by
      intro h inside
      have := List.find?_eq_none.mp found h inside
      simpa using this
    split
    · exact ⟨tidy, older⟩
    · constructor
      · constructor
        · intro g inside
          rcases (List.mem_orderedInsert _).mp inside with rfl | inside
          · exact valid
          · exact tidy.valid g inside
        · rw [(List.perm_orderedInsert _ _ _).pairwise_iff fun distinct => symm distinct]
          apply List.pairwise_cons.mpr
          refine ⟨fun h inside => ⟨fun same => fresh h inside same.symm, fun _ live => ?_⟩,
            tidy.distinct⟩
          obtain ⟨line, before, start, stop⟩ := known h inside live
          have := apart line before
          have new : (segmentNew mapping).start = mapping.start ∧ (segmentNew mapping).stop =
              mapping.stop := ⟨rfl, rfl⟩
          unfold Apart at *
          omega
      · intro g inside live
        rcases (List.mem_orderedInsert _).mp inside with rfl | inside
        · exact ⟨mapping, List.mem_cons_self, rfl, rfl⟩
        · exact older g inside live

/-- A look at the memory map as the kernel shows it: whole pages, and no two lines overlap. -/
structure ValidPass (m : Machine) (pass : Pass) : Prop where
  valid : ∀ mapping ∈ pass.mappings, Valid m mapping
  apart : pass.mappings.Pairwise Apart

private theorem notifyAll_spec {mappings seen : List Mapping} (again : Bool) (tidy : Tidy m s)
    (known : Seen s seen)
    (valid : ∀ mapping ∈ mappings, Valid m mapping) (apart : mappings.Pairwise Apart)
    (earlier : ∀ mapping ∈ mappings, ∀ other ∈ seen, Apart other mapping) :
    Tidy m (mappings.foldl notify (s, again)).1 := by
  induction mappings generalizing s seen again with
  | nil => exact tidy
  | cons mapping rest ih =>
    obtain ⟨here, later⟩ := List.pairwise_cons.mp apart
    obtain ⟨tidy', known'⟩ := notify_spec again tidy known (valid mapping List.mem_cons_self)
      (earlier mapping List.mem_cons_self)
    apply ih _ tidy' known' (fun line member => valid line (List.mem_cons_of_mem _ member)) later
    intro line member other before
    rcases List.mem_cons.mp before with rfl | before
    · exact here line member
    · exact earlier line (List.mem_cons_of_mem _ member) other before

private theorem scanOnce_spec {pass : Pass} (valid : ValidPass m pass) (tidy : Tidy m s) :
    Tidy m (scanOnce m pass s).value.1 ∧ Traced.Within (Recorded m) (scanOnce m pass s) := by
  have marked : Tidy m { s with segments := s.segments.map fun g => { g with state := .deleted } } := by
    apply tidy.map
    intro g _
    exact ⟨rfl, rfl, fun live => (live rfl).elim⟩
  have none : Seen { s with segments := s.segments.map fun g => { g with state := .deleted } } [] := by
    intro g member live
    obtain ⟨old, -, rfl⟩ := List.mem_map.mp member
    exact (live rfl).elim
  have scanned := notifyAll_spec false marked none valid.valid valid.apart (by simp)
  obtain ⟨tidy', recorded⟩ := Traced.within_foldlM (fun s start tidy =>
    visit_spec pass.setups start tidy) scanned
  exact ⟨tidy', (Traced.within_bind _ _).mpr ⟨recorded, Traced.within_pure _⟩⟩

private theorem rescan_spec {passes : List Pass} (valid : ∀ pass ∈ passes, ValidPass m pass)
    (tidy : Tidy m s) :
    Tidy m (segmentRescan m passes s).value ∧ Traced.Within (Recorded m) (segmentRescan m passes s) := by
  induction passes generalizing s with
  | nil => exact ⟨tidy, Traced.within_pure s⟩
  | cons pass rest ih =>
    obtain ⟨tidy', recorded⟩ := scanOnce_spec (valid pass List.mem_cons_self) tidy
    simp only [segmentRescan, Traced.value_bind, Traced.within_bind]
    split
    · obtain ⟨final, later⟩ := ih (fun p member => valid p (List.mem_cons_of_mem _ member)) tidy'
      exact ⟨final, recorded, later⟩
    · exact ⟨tidy', recorded, Traced.within_pure _⟩

private theorem attach_spec (setups : Nat → Setup) (start : Nat) (tidy : Tidy m s) :
    Tidy m (attachInjectable m setups s start).value ∧ Traced.Within (Recorded m)
    (attachInjectable m setups s start) := by
  unfold attachInjectable
  cases found : s.segments.find? (fun g => g.start = start) with
  | none => exact ⟨tidy, Traced.within_pure s⟩
  | some g =>
    simp only
    split
    · obtain ⟨tidy', -, recorded⟩ := segmentInit_spec (setups start) tidy (find_start found).1
      exact ⟨tidy', recorded⟩
    · exact ⟨tidy, Traced.within_pure s⟩

/-- Every look at the memory map in a run is one that the kernel shows. -/
def ValidOperation (m : Machine) : Operation → Prop
  | .rescan passes => ∀ pass ∈ passes, ValidPass m pass
  | .load _ => True
  | .unload _ _ => True

private theorem perform_spec {operation : Operation} (valid : ValidOperation m operation)
    (tidy : Tidy m s) :
    Tidy m (perform m s operation).value ∧ Traced.Within (Recorded m) (perform m s operation) := by
  cases operation with
  | rescan passes => exact rescan_spec valid tidy
  | load setups => exact Traced.within_foldlM (fun s start tidy => attach_spec setups start tidy) tidy
  | unload injectable removed =>
    refine ⟨?_, Traced.within_pure _⟩
    apply tidy.map
    intro g _
    split <;> exact ⟨rfl, rfl, id⟩

private theorem operations_spec {operations : List Operation}
    (valid : ∀ operation ∈ operations, ValidOperation m operation)
    (tidy : Tidy m s) :
    Tidy m (operations.foldlM (perform m) s).value ∧ Traced.Within (Recorded m)
    (operations.foldlM (perform m) s) := by
  induction operations generalizing s with
  | nil => exact ⟨tidy, Traced.within_pure s⟩
  | cons operation rest ih =>
    obtain ⟨tidy', recorded⟩ := perform_spec (valid operation List.mem_cons_self) tidy
    obtain ⟨final, later⟩ := ih (fun o member => valid o (List.mem_cons_of_mem _ member)) tidy'
    rw [List.foldlM_cons]
    exact ⟨final, (Traced.within_bind _ _).mpr ⟨recorded, later⟩⟩

/-- In every run of scans, loads and unloads after attaching, in which each
search is made in a safe state, no search takes memory that is in use. -/
theorem safe_searches_take_free_memory (m : Machine) (adbi : Trampoline.Injection)
    (operations : List Operation)
    (valid : ∀ operation ∈ operations, ValidOperation m operation)
    (safe : ∀ p ∈ (runOperations m adbi operations).reads, Safe m p.space p.owner p.answers) :
    ∀ p ∈ (runOperations m adbi operations).reads, Clean m p := by
  have start : Tidy m (attached adbi) := ⟨by simp [attached], by simp [attached]⟩
  intro p member
  exact recorded_clean ((operations_spec valid start).2 p member) (safe p member)

/-! ## Segments with a gap each -/

/-- One page of a file, of code or read-only. -/
def filePage (start : Nat) (code : Bool) : Mapping :=
  ⟨start, start + 4096, some start, 0, true, false, code, false⟩

/-- A tracepoint 16 bytes into the segment; the kernel grants the first request. -/
def handled (start : Nat) : Setup :=
  ⟨[⟨start, 0x7000001000 + start, 4096⟩], some start, [start + 16], 64, [true], none, true⟩

def adbiInjection : Trampoline.Injection := ⟨0, 0x7000000000, 4096⟩

/-- Two segments of code that are 64 KiB apart. -/
def closeScan : Operation := .rescan [⟨[filePage 0x40401000 true, filePage 0x40411000 true], handled⟩]

/-- A stretch of memory that is at least a page below the gap below the page, or as far above. -/
private def Remote (start low stop : Nat) : Prop := stop + 4096 ≤ start ∨ start + 8192 ≤ low

/-- A segment that needs one page for its trampolines and has a free one below. -/
private theorem gap_ample (start : Nat) {g : Segment} (first : 4096 ≤ start) (last : start < 2 ^ 62)
    (known : g ∈ s.segments) (here : g.start = start) (own : owner.start = start)
    (range : tracepointRange owner = (start + 16, start + 16))
    (center_ : center arm64 (start + 16) (start + 16) = start) (onePage : roomFor arm64 owner = 4096)
    (free : Free s (start - 4096)) : Ample arm64 s owner g := by
  have counted : middle arm64 owner = start := by rw [middle, lowest, highest, range, center_]
  refine ⟨known, by omega, by rw [own, counted]; omega, by omega, by omega, ?_, ?_, ?_⟩
  · intro j inside
    rw [onePage] at inside
    have inside : j * 4096 < 4096 := inside
    obtain rfl : j = 0 := by omega
    rw [here, show (0 + 1) * arm64.page = 4096 from rfl]
    exact free
  · intro a _ above below
    rw [onePage] at above
    rw [counted] at below
    rw [highest, range]
    simp only [arm64, inBranchRange]
    split <;> simp only [decide_eq_true_eq] <;> omega
  · rw [counted, onePage, here]
    simp only [arm64]
    omega

/-- Its search is safe when nothing artificial is close. -/
private theorem gap_safe {answers : List Bool} {start : Nat} {g : Segment} (ample : Ample arm64 s owner g)
    (here : g.start = start) (counted : middle arm64 owner = start) (onePage : roomFor arm64 owner = 4096)
    (granted : answers.head? = some true) (live : ∀ g ∈ s.segments, g.state ≠ .deleted)
    (others : ∀ g ∈ s.segments, g.start ≠ owner.start → g.trampolines ≠ 0 →
      Remote start g.trampolines (g.trampolines + arm64.alignToPage g.trampolinesSize))
    (injections : ∀ i ∈ s.injections, Remote start i.address (i.address + arm64.alignToPage i.size)) :
    Safe arm64 s owner answers := by
  constructor
  · exact List.pairwise_of_forall_mem_list fun g inG h inH gone =>
      absurd gone (not_or.mpr ⟨live g inG, live h inH⟩)
  · intro off _ _ _ _ j positive inside
    rw [onePage] at inside
    simp only [arm64] at inside
    omega
  · intro a x _ comes from_ upto artificial
    obtain ⟨above, below⟩ := comes granted g ample
    rw [onePage] at above upto
    rw [counted] at below
    simp only [arm64] at below
    rcases artificial with ⟨h, member, other, some_, starts, ends⟩ | ⟨i, member, starts, ends⟩
    · have far := others h member other some_
      unfold Remote at far
      omega
    · have far := injections i member
      unfold Remote at far
      omega

private def closeSegment (start : Nat) (state : SegmentState) (injection : Option Injectable) : Segment :=
  ⟨filePage start true, state, injection, [], 0, 0, false⟩

private def closeInjections : List Trampoline.Injection :=
  [adbiInjection, ⟨0x40401000, 0x7040402000, 4096⟩]

/-- The search for the first segment. -/
private def firstPlacement : Placement where
  space := ⟨[closeSegment 0x40401000 .fresh (some 0x40401000), closeSegment 0x40411000 .fresh none],
    closeInjections⟩
  owner := ⟨filePage 0x40401000 true, .fresh, some 0x40401000, [0x40401010], 0, 64, false⟩
  answers := [true]
  start := 0x40400000

/-- The search for the second one, when the first one has its trampolines. -/
private def secondPlacement : Placement where
  space := ⟨[⟨filePage 0x40401000 true, .old, some 0x40401000, [0x40401010], 0x40400000, 64, false⟩,
    closeSegment 0x40411000 .fresh (some 0x40411000)],
    closeInjections ++ [⟨0x40411000, 0x7040412000, 4096⟩]⟩
  owner := ⟨filePage 0x40411000 true, .fresh, some 0x40411000, [0x40411010], 0, 64, false⟩
  answers := [true]
  start := 0x40410000

private theorem closeScan_reads : (runOperations arm64 adbiInjection [closeScan]).reads =
    [firstPlacement, secondPlacement] := by
  decide

private theorem first_safe :
    Safe arm64 firstPlacement.space firstPlacement.owner firstPlacement.answers := by
  refine gap_safe (gap_ample 0x40401000 (by decide) (by decide) List.mem_cons_self rfl rfl
    (by decide) (by decide) (by decide) (by unfold Free; decide)) rfl (by decide) (by decide) rfl
    (by decide) ?_ ?_
  · unfold Remote
    decide
  · unfold Remote
    decide

private theorem second_safe :
    Safe arm64 secondPlacement.space secondPlacement.owner secondPlacement.answers := by
  refine gap_safe (gap_ample 0x40411000 (by decide) (by decide)
    (List.mem_cons_of_mem _ List.mem_cons_self) rfl rfl (by decide) (by decide) (by decide)
    (by unfold Free; decide)) rfl (by decide) (by decide) rfl (by decide) ?_ ?_
  · unfold Remote
    decide
  · unfold Remote
    decide

/-- The trampolines go to the pages below, which are free. -/
theorem closeScan_takes_free_memory :
    (runOperations arm64 adbiInjection [closeScan]).reads.map Placement.start =
      [0x40400000, 0x40410000] ∧
      ∀ p ∈ (runOperations arm64 adbiInjection [closeScan]).reads, Clean arm64 p := by
  refine ⟨by rw [closeScan_reads]; rfl,
    safe_searches_take_free_memory arm64 adbiInjection [closeScan] ?_ ?_⟩
  · intro operation member
    cases List.mem_singleton.mp member
    intro pass member
    cases List.mem_singleton.mp member
    refine ⟨fun mapping member => ?_, by unfold Apart; decide⟩
    simp only [List.mem_cons, List.not_mem_nil, or_false] at member
    rcases member with rfl | rfl
    · exact ⟨by decide, by decide, by decide, by decide⟩
    · exact ⟨by decide, by decide, by decide, by decide⟩
  · intro p member
    rw [closeScan_reads] at member
    simp only [List.mem_cons, List.not_mem_nil, or_false] at member
    rcases member with rfl | rfl
    · exact first_safe
    · exact second_safe

/-! ## A free page between segments -/

/-- Two segments of code with one free page between them, at 0x402000. -/
def gapScan : Operation :=
  .rescan [⟨[filePage 0x400000 false, filePage 0x401000 true, filePage 0x403000 true], handled⟩]

/-- The search for the second segment takes the page where the trampolines of the first are. -/
theorem gapScan_takes_page_twice :
    (runOperations arm64 adbiInjection [gapScan]).reads.map Placement.start = [0x402000, 0x402000] ∧
      ∃ p ∈ (runOperations arm64 adbiInjection [gapScan]).reads, ¬ Clean arm64 p := by
  refine ⟨by decide, ?_⟩
  have replaced : ∃ p ∈ (runOperations arm64 adbiInjection [gapScan]).reads,
      p.start < p.start + arm64.alignToPage p.owner.trampolinesSize ∧
      ∃ g ∈ p.space.segments, g.start ≠ p.owner.start ∧ g.trampolines ≠ 0 ∧ g.trampolines ≤ p.start ∧
        p.start < g.trampolines + arm64.alignToPage g.trampolinesSize := by
    decide
  obtain ⟨p, member, nonempty, trampolines⟩ := replaced
  exact ⟨p, member, fun clean => (clean p.start (Nat.le_refl _) nonempty).2 (.inl trampolines)⟩

end Adbi.TrampolineProofs
