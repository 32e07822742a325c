import Adbi.Gaps
import Adbi.TrampolineProofs

/-! What the search for room around tracepoints reports. Gaps below are free.
Above, a gap is extended as long as the pages mirrored at the center are free,
and nothing looks at the pages themselves. -/
namespace Adbi.GapsProofs
open Adbi.Trampoline Adbi.Gaps
open Adbi.TrampolineProofs (Apart Valid Free FreePages)

variable {m : Machine} {s : Space} {low hi maxSize : Nat} {cursor : Cursor}

/-- Whole pages in which no segment has any address. -/
structure FreeGap (m : Machine) (s : Space) (start size : Nat) : Prop where
  aligned : m.page ∣ start
  whole : m.page ∣ size
  positive : 0 < size
  free : ∀ offset < size, ∀ g ∈ s.segments, ¬(g.start ≤ m.add start offset ∧ m.add start offset < g.stop)

/-- What a call may report: free memory, or a private anonymous segment without any permission. -/
def Reportable (m : Machine) (s : Space) : Room → Prop
  | .gap start size => FreeGap m s start size
  | .unused g => g ∈ s.segments ∧ g.shared = false ∧ g.filename = none ∧
      g.readable = false ∧ g.writeable = false ∧ g.executable = false

/-! ## Pages and addresses -/

/-- The address of a byte lies in the page of its offset. -/
private theorem add_in_page (m : Machine) {start : Nat} (aligned : m.page ∣ start) (offset : Nat) :
    m.add start offset = m.add start (offset / m.page * m.page) + offset % m.page := by
  have split : start + offset = start + offset / m.page * m.page + offset % m.page := by
    have := Nat.div_add_mod' offset m.page
    omega
  have here : m.page ∣ (start + offset / m.page * m.page) % m.modulus :=
    (Nat.dvd_mod_iff m.page_dvd).mpr (Nat.dvd_add aligned (Nat.dvd_mul_left _ _))
  have bound : (start + offset / m.page * m.page) % m.modulus + m.page ≤ m.modulus := by
    obtain ⟨k, isK⟩ := here
    obtain ⟨n, isN⟩ := m.page_dvd
    have below := Nat.mod_lt (start + offset / m.page * m.page) m.modulus_pos
    rw [isK, isN] at below ⊢
    have := Nat.lt_of_mul_lt_mul_left below
    calc m.page * k + m.page = m.page * (k + 1) := by ring
      _ ≤ m.page * n := Nat.mul_le_mul_left _ (by omega)
  have rest := Nat.mod_lt offset m.page_pos
  simp only [Machine.add]
  rw [split, Nat.add_mod, Nat.mod_eq_of_lt (a := offset % m.page) (by omega),
    Nat.mod_eq_of_lt (by omega)]

/-- A gap is free when all its pages are. -/
theorem freeGap_iff (valid : ∀ g ∈ s.segments, Valid m g.toMapping)
    (apart : s.segments.Pairwise fun g h => Apart g.toMapping h.toMapping) {start size : Nat}
    (aligned : m.page ∣ start) (whole : m.page ∣ size) (positive : 0 < size) :
    FreeGap m s start size ↔ FreePages m s start size := by
  constructor
  · intro gap j inside
    by_contra taken
    obtain ⟨g, here⟩ := Option.ne_none_iff_exists'.mp taken
    obtain ⟨member, contains⟩ := TrampolineProofs.segmentGet_member here
    exact gap.free _ inside g member contains
  · intro free
    refine ⟨aligned, whole, positive, fun offset inside g member => ?_⟩
    have page := free (offset / m.page) ((Nat.div_mul_le_self _ _).trans_lt inside)
    have inPage := add_in_page m aligned offset
    have rest := Nat.mod_lt offset m.page_pos
    exact TrampolineProofs.free_page apart valid page
      (TrampolineProofs.dvd_add aligned (Nat.dvd_mul_left _ _)) member (by omega) (by omega)

/-! ## The two loops -/

/-- The search counts in pages. -/
def Aligned (m : Machine) (cursor : Cursor) : Prop := m.page ∣ cursor.beoff ∧ m.page ∣ cursor.aboff

/-- The pages that a gap above is extended by have their mirror images free and in reach. -/
def Extends (m : Machine) (s : Space) (low hi maxSize off i : Nat) : Prop :=
  i * m.page < maxSize ∧
    m.checkRelativeJump low
      (if i = 1 then m.add (m.add (center m low hi) (off + m.page)) m.page
      else m.add (m.sub (center m low hi) (off + i * m.page)) m.page) = true ∧
    Free s (m.sub (center m low hi) (off + i * m.page))

/-- Where a gap above is found, the pages themselves are free as far as their mirror images extend it. -/
def MirrorTells (m : Machine) (s : Space) (low hi maxSize : Nat) (cursor : Cursor) : Prop :=
  Free s (m.add (center m low hi) cursor.aboff) →
    ∀ j, (∀ i, 1 ≤ i → i ≤ j → Extends m s low hi maxSize cursor.aboff i) →
      Free s (m.add (center m low hi) (cursor.aboff + j * m.page))

private theorem reportable_unused {g : Segment} (member : g ∈ s.segments) (unused : g.unused = true) :
    Reportable m s (.unused g) := by
  simp only [Mapping.unused, Bool.and_eq_true, Bool.not_eq_true', Option.isNone_iff_eq_none] at unused
  obtain ⟨⟨⟨⟨readable, writeable⟩, executable⟩, shared⟩, filename⟩ := unused
  exact ⟨member, shared, filename, readable, writeable, executable⟩

/-- Below the tracepoints every report is right. -/
theorem below_reportable (valid : ∀ g ∈ s.segments, Valid m g.toMapping)
    (apart : s.segments.Pairwise fun g h => Apart g.toMapping h.toMapping) (aligned : Aligned m cursor)
    (looked : lookBelow m s.segments low hi maxSize cursor = (next, room)) :
    Aligned m next ∧ ∀ r, room = some r → Reportable m s r := by
  unfold lookBelow at looked
  cases here : segmentGet s.segments (m.sub (center m low hi) cursor.beoff) with
  | none =>
    simp only [here] at looked
    generalize extends_ : extendBelow m s.segments low hi maxSize (maxSize / m.page)
      (m.sub (center m low hi) cursor.beoff) m.page (cursor.beoff + m.page) _ = grown at looked
    obtain ⟨start', size', beoff', reachable'⟩ := grown
    cases looked
    obtain ⟨free, start, offset, whole, positive⟩ :=
      TrampolineProofs.extendBelow_free (TrampolineProofs.sub_sub_add m _ _ _)
      (TrampolineProofs.freePages_one (TrampolineProofs.sub_lt m _ _) here)
      (TrampolineProofs.dvd_sub (TrampolineProofs.dvd_center m _ _) aligned.1)
      (Nat.dvd_add aligned.1 (Nat.dvd_refl _)) (Nat.dvd_refl _) m.page_pos extends_
    refine ⟨⟨offset, aligned.2⟩, ?_⟩
    rintro r ⟨⟩
    exact (freeGap_iff valid apart start whole positive).mpr free
  | some g =>
    simp only [here] at looked
    cases looked
    obtain ⟨member, -, -⟩ := TrampolineProofs.segmentGet_member here
    refine ⟨⟨Nat.dvd_add aligned.1 (TrampolineProofs.dvd_length (valid g member)), aligned.2⟩,
      fun r offered => ?_⟩
    split at offered
    · rename_i fits
      simp only [Bool.and_eq_true] at fits
      cases offered
      exact reportable_unused member fits.1
    · cases offered

/-- A gap above is extended up to the first page that its mirror image does not extend it by. -/
theorem extendAbove_pages {pages k off : Nat} {reachable : Bool}
    (enough : maxSize / m.page ≤ pages + k - 1) (some : 1 ≤ k)
    (reach : reachable = m.checkRelativeJump low
      (if k = 1 then m.add (m.add (center m low hi) (off + m.page)) m.page
      else m.add (m.sub (center m low hi) (off + k * m.page)) m.page))
    (ends : extendAbove m s.segments low hi maxSize pages (k * m.page) (off + k * m.page) reachable =
      (size', aboff', reachable')) :
    ∃ n, k ≤ n ∧ size' = n * m.page ∧ aboff' = off + n * m.page ∧
      (reachable' = m.checkRelativeJump low
        (if n = 1 then m.add (m.add (center m low hi) (off + m.page)) m.page
        else m.add (m.sub (center m low hi) (off + n * m.page)) m.page)) ∧
      (∀ i, k ≤ i → i < n → Extends m s low hi maxSize off i) ∧ ¬Extends m s low hi maxSize off n := by
  induction pages generalizing k reachable with
  | zero =>
    cases ends
    refine ⟨k, le_rfl, rfl, rfl, reach, fun i from_ upto => absurd upto (not_lt.mpr from_),
      fun extends_ => ?_⟩
    have := (Nat.le_div_iff_mul_le m.page_pos).mpr extends_.1.le
    omega
  | succ pages ih =>
    simp only [extendAbove] at ends
    split at ends
    · rename_i grows
      simp only [Bool.and_eq_true, decide_eq_true_eq, Option.isNone_iff_eq_none] at grows
      obtain ⟨⟨small, reaches⟩, freeNext⟩ := grows
      have here : Extends m s low hi maxSize off k := ⟨small, reach ▸ reaches, freeNext⟩
      have more : k * m.page + m.page = (k + 1) * m.page := by ring
      have further : off + k * m.page + m.page = off + (k + 1) * m.page := by ring
      rw [more, further] at ends
      obtain ⟨n, from_, size, aboff, flag, all, last⟩ :=
        ih (by omega) (by omega) (by rw [if_neg (by omega)]) ends
      refine ⟨n, by omega, size, aboff, flag, fun i lower upper => ?_, last⟩
      by_cases first : i = k
      · rw [first]
        exact here
      · exact all i (by omega) upper
    · rename_i stops
      cases ends
      refine ⟨k, le_rfl, rfl, rfl, reach, fun i from_ upto => absurd upto (not_lt.mpr from_),
        fun extends_ => stops ?_⟩
      obtain ⟨small, reaches, freeNext⟩ := extends_
      rw [reach]
      simp only [Bool.and_eq_true, decide_eq_true_eq, Option.isNone_iff_eq_none]
      exact ⟨⟨small, reaches⟩, freeNext⟩

/-- Above the tracepoints a report is right if and only if the mirror images tell the truth. -/
theorem above_reportable_iff (valid : ∀ g ∈ s.segments, Valid m g.toMapping)
    (apart : s.segments.Pairwise fun g h => Apart g.toMapping h.toMapping) (aligned : Aligned m cursor)
    (looked : lookAbove m s.segments low hi maxSize cursor = (next, room)) :
    Aligned m next ∧ ((∀ r, room = some r → Reportable m s r) ↔
      MirrorTells m s low hi maxSize cursor) := by
  unfold lookAbove at looked
  cases here : segmentGet s.segments (m.add (center m low hi) cursor.aboff) with
  | none =>
    simp only [here] at looked
    generalize extends_ : extendAbove m s.segments low hi maxSize (maxSize / m.page) m.page
      (cursor.aboff + m.page) _ = grown at looked
    obtain ⟨size', aboff', reachable'⟩ := grown
    cases looked
    have fromOne : extendAbove m s.segments low hi maxSize (maxSize / m.page) (1 * m.page)
        (cursor.aboff + 1 * m.page)
        (m.checkRelativeJump low (m.add (m.add (center m low hi) (cursor.aboff + m.page)) m.page)) =
          (size', aboff', reachable') := by
      rw [Nat.one_mul]
      exact extends_
    obtain ⟨n, one, size, aboff, -, all, last⟩ :=
      extendAbove_pages (by omega) le_rfl (by rw [if_pos rfl]) fromOne
    subst size aboff
    refine ⟨⟨aligned.1, Nat.dvd_add aligned.2 (Nat.dvd_mul_left _ _)⟩, ?_⟩
    have start : m.page ∣ m.add (center m low hi) cursor.aboff :=
      TrampolineProofs.dvd_add (TrampolineProofs.dvd_center m _ _) aligned.2
    have gap := freeGap_iff valid apart start (Nat.dvd_mul_left m.page n) (Nat.mul_pos one m.page_pos)
    have inGap : ∀ j, (∀ i, 1 ≤ i → i ≤ j → Extends m s low hi maxSize cursor.aboff i) ↔ j < n := by
      refine fun j => ⟨fun extend => ?_, fun below i from_ upto => all i from_ (by omega)⟩
      by_contra beyond
      exact last (extend n one (not_lt.mp beyond))
    constructor
    · intro right _ j extend
      have inside := Nat.mul_lt_mul_of_pos_right ((inGap j).mp extend) m.page_pos
      have free := gap.mp (right _ rfl) j inside
      rwa [TrampolineProofs.add_add] at free
    · rintro tells r ⟨⟩
      refine gap.mpr fun j inside => ?_
      rw [TrampolineProofs.add_add]
      exact tells here j ((inGap j).mpr (Nat.lt_of_mul_lt_mul_right inside))
  | some g =>
    simp only [here] at looked
    cases looked
    obtain ⟨member, -, -⟩ := TrampolineProofs.segmentGet_member here
    refine ⟨⟨aligned.1, Nat.dvd_add aligned.2 (TrampolineProofs.dvd_length (valid g member))⟩,
      iff_of_true (fun r offered => ?_) fun free => ?_⟩
    · split at offered
      · rename_i fits
        simp only [Bool.and_eq_true] at fits
        cases offered
        exact reportable_unused member fits.1
      · cases offered
    · rw [Free, here] at free
      cases free

/-! ## The whole search -/

/-- Where the two loops come when no call ends them, and whether it is the turn of the loop above. -/
inductive Reached (m : Machine) (s : Space) (low hi maxSize : Nat) (start : Cursor) : Bool →
    Cursor → Prop
  | start : Reached m s low hi maxSize start false start
  | lower (before : Reached m s low hi maxSize start false c) (turn : belowTurn c = true) :
    Reached m s low hi maxSize start false (lookBelow m s.segments low hi maxSize c).1
  | up (before : Reached m s low hi maxSize start false c) (ends : belowTurn c = false) :
    Reached m s low hi maxSize start true c
  | higher (before : Reached m s low hi maxSize start true c) (turn : aboveTurn c = true) :
    Reached m s low hi maxSize start true (lookAbove m s.segments low hi maxSize c).1
  | down (before : Reached m s low hi maxSize start true c) (ends : aboveTurn c = false)
    (reach : (c.beoffIsReachable || c.aboffIsReachable) = true) :
      Reached m s low hi maxSize start false c

/-- In every turn of the loop above the mirror images tell the truth. -/
def MirrorsTell (m : Machine) (s : Space) (low hi maxSize : Nat) (start : Cursor) : Prop :=
  ∀ c, Reached m s low hi maxSize start true c → aboveTurn c = true → MirrorTells m s low hi maxSize c

theorem reached_aligned (valid : ∀ g ∈ s.segments, Valid m g.toMapping)
    (apart : s.segments.Pairwise fun g h => Apart g.toMapping h.toMapping) {start : Cursor}
    (aligned : Aligned m start)
    (reached : Reached m s low hi maxSize start turn cursor) : Aligned m cursor := by
  induction reached with
  | start => exact aligned
  | lower before turn ih => exact (below_reportable valid apart ih rfl).1
  | up before ends ih => exact ih
  | higher before turn ih => exact (above_reportable_iff valid apart ih rfl).1
  | down before ends reach ih => exact ih

private theorem calls_reportable (valid : ∀ g ∈ s.segments, Valid m g.toMapping)
    (apart : s.segments.Pairwise fun g h => Apart g.toMapping h.toMapping) {start : Cursor}
    (aligned : Aligned m start)
    (tells : MirrorsTell m s low hi maxSize start) (fn : List Room → Bool) {steps : Nat}
    {turn : Bool} {calls : List Room}
    (reached : Reached m s low hi maxSize start turn cursor)
    (good : ∀ room ∈ calls, Reportable m s room) :
    ∀ room ∈ iterRooms m s.segments low hi maxSize fn steps turn cursor calls, Reportable m s room := by
  -- One call more.
  have extended : ∀ room, Reportable m s room → ∀ calls : List Room, (∀ r ∈ calls, Reportable m s r) →
      ∀ r ∈ calls ++ [room], Reportable m s r := by
    intro room right calls good r member
    rcases List.mem_append.mp member with old | new
    · exact good r old
    · rw [List.mem_singleton.mp new]
      exact right
  induction steps generalizing turn cursor calls with
  | zero =>
    cases turn <;> exact good
  | succ steps ih =>
    have here := reached_aligned valid apart aligned reached
    cases turn with
    | false =>
      by_cases goesOn : belowTurn cursor = true
      · have later := Reached.lower reached goesOn
        rw [iterRooms, if_pos goesOn]
        cases looked : lookBelow m s.segments low hi maxSize cursor with
        | mk next room =>
          rw [looked] at later
          cases room with
          | none => exact ih later good
          | some room =>
            have more := extended room ((below_reportable valid apart here looked).2 room rfl) calls good
            simp only
            split
            · exact more
            · exact ih later more
      · rw [iterRooms, if_neg goesOn]
        exact ih (.up reached (by simpa using goesOn)) good
    | true =>
      by_cases goesOn : aboveTurn cursor = true
      · have later := Reached.higher reached goesOn
        rw [iterRooms, if_pos goesOn]
        cases looked : lookAbove m s.segments low hi maxSize cursor with
        | mk next room =>
          rw [looked] at later
          cases room with
          | none => exact ih later good
          | some room =>
            have right := (above_reportable_iff valid apart here looked).2.mpr
              (tells cursor reached goesOn) room rfl
            have more := extended room right calls good
            simp only
            split
            · exact more
            · exact ih later more
      · rw [iterRooms, if_neg goesOn]
        split
        · rename_i reach
          exact ih (.down reached (by simpa using goesOn) reach) good
        · exact good

/-- A callback that never ends the search sees it come to every place that is reached. -/
private theorem reached_called {start : Cursor}
    (reached : Reached m s low hi maxSize start turn cursor) :
    ∃ before calls, ∀ steps, iterRooms m s.segments low hi maxSize (fun _ => false)
    (steps + before) false start [] =
      iterRooms m s.segments low hi maxSize (fun _ => false) steps turn cursor calls := by
  induction reached with
  | start => exact ⟨0, [], fun _ => rfl⟩
  | @lower c _ turn ih =>
    obtain ⟨before, calls, same⟩ := ih
    refine ⟨before + 1, calls ++ (lookBelow m s.segments low hi maxSize c).2.toList, fun steps => ?_⟩
    rw [← Nat.add_assoc, Nat.add_right_comm, same, iterRooms, if_pos turn]
    obtain ⟨next, room⟩ := lookBelow m s.segments low hi maxSize c
    cases room <;> simp
  | up before ends ih =>
    obtain ⟨before, calls, same⟩ := ih
    refine ⟨before + 1, calls, fun steps => ?_⟩
    rw [← Nat.add_assoc, Nat.add_right_comm, same, iterRooms, if_neg (by simp [ends])]
  | @higher c _ turn ih =>
    obtain ⟨before, calls, same⟩ := ih
    refine ⟨before + 1, calls ++ (lookAbove m s.segments low hi maxSize c).2.toList, fun steps => ?_⟩
    rw [← Nat.add_assoc, Nat.add_right_comm, same, iterRooms, if_pos turn]
    obtain ⟨next, room⟩ := lookAbove m s.segments low hi maxSize c
    cases room <;> simp
  | down before ends reach ih =>
    obtain ⟨before, calls, same⟩ := ih
    refine ⟨before + 1, calls, fun steps => ?_⟩
    rw [← Nat.add_assoc, Nat.add_right_comm, same, iterRooms, if_neg (by simp [ends]), if_pos reach]

/-- The offsets with which the search starts count pages. -/
private theorem startCursor_aligned {owner : Segment} (own : Valid m owner.toMapping) :
    Aligned m (startCursor m owner low hi) :=
  ⟨TrampolineProofs.dvd_add (TrampolineProofs.dvd_sub (TrampolineProofs.dvd_center m _ _) own.start)
    (Nat.dvd_refl _),
    TrampolineProofs.dvd_sub own.stop (TrampolineProofs.dvd_center m _ _)⟩

/-- Every call is right, whatever the callback answers, if and only if in every turn of the loop
above the pages mirrored at the center are free only where the pages themselves are. -/
theorem calls_reportable_iff_tells {owner : Segment} (valid : ∀ g ∈ s.segments, Valid m g.toMapping)
    (apart : s.segments.Pairwise fun g h => Apart g.toMapping h.toMapping)
    (member : owner ∈ s.segments) :
    (∀ fn steps, ∀ room ∈ iterFreeSegments m s.segments low hi maxSize owner fn steps,
      Reportable m s room) ↔
      MirrorsTell m s low hi maxSize (startCursor m owner low hi) := by
  have aligned : Aligned m (startCursor m owner low hi) := startCursor_aligned (valid owner member)
  constructor
  · intro right c reached turn
    have here := reached_aligned valid apart aligned reached
    cases looked : lookAbove m s.segments low hi maxSize c with
    | mk next found =>
      refine (above_reportable_iff valid apart here looked).2.mp ?_
      rintro room rfl
      obtain ⟨before, calls, same⟩ := reached_called reached
      apply right (fun _ => false) (1 + before)
      rw [iterFreeSegments, same, iterRooms, if_pos turn, looked]
      simp [iterRooms]
  · intro tells fn steps
    exact calls_reportable valid apart aligned tells fn .start (by simp)

/-! ## The layout above the tracepoints

Pages are counted from the center. The segment of the tracepoints ends at the page `first`. -/

section Layout

variable (m : Machine) (s : Space) (low hi maxSize first : Nat)

/-- A page above the center. -/
def above (k : Nat) : Nat := m.add (center m low hi) (k * m.page)

/-- The page mirrored at the center. -/
def mirror (k : Nat) : Nat := m.sub (center m low hi) (k * m.page)

def taken (k : Nat) : Bool := (segmentGet s.segments (above m low hi k)).isSome

def mirrored (k : Nat) : Bool := (segmentGet s.segments (mirror m low hi k)).isSome

/-- The size that is wanted, in pages, and one page at least. No gap is reported larger. -/
def stride : Nat := max 1 ((maxSize + m.page - 1) / m.page)

/-- Behind a segment, and where the mirrored page is in a segment, a gap is reported anew. -/
def breaks (k : Nat) : Bool := k = first || taken m s low hi (k - 1) || mirrored m s low hi k

def lastBreak (k : Nat) : Nat := Nat.findGreatest (fun j => breaks m s low hi first j = true) k

/-- The page is a whole number of the largest gaps behind the last break. -/
def begins (k : Nat) : Bool := (k - lastBreak m s low hi first k) % stride m maxSize = 0

/-- What the search tests before it goes on at this page: the page itself at the end of a segment,
the page behind it when it is the second of a gap, and the mirrored page when the gap is longer. -/
def inReach (k : Nat) : Bool :=
  match segmentGet s.segments (above m low hi (k - 1)) with
  | some g => g.stop ≠ above m low hi k || m.checkRelativeJump low (above m low hi k)
  | none =>
    m.checkRelativeJump low
      (m.add (if begins m s low hi maxSize first (k - 1) then above m low hi k else mirror m low
        hi k) m.page)

/-- In reach, every gap ends where a report would begin. -/
def GapsEnd : Prop :=
  m.checkRelativeJump low (m.add (above m low hi first) m.page) = true →
    ∀ k, first < k → taken m s low hi k = true → taken m s low hi (k - 1) = false →
      (∀ j, first < j → j ≤ k → inReach m s low hi maxSize first j = true) →
        begins m s low hi maxSize first k = true

end Layout

variable {first k : Nat}

theorem begins_of_breaks (breaks_ : breaks m s low hi first k = true) :
    begins m s low hi maxSize first k = true := by
  have last : lastBreak m s low hi first k = k := Nat.findGreatest_eq breaks_
  simp [begins, last]

private theorem above_add (k i : Nat) : above m low hi (k + i) = m.add (above m low hi k)
    (i * m.page) := by
  rw [above, above, TrampolineProofs.add_add, Nat.add_mul]

private theorem above_dvd (low hi k : Nat) : m.page ∣ above m low hi k :=
  TrampolineProofs.dvd_add (TrampolineProofs.dvd_center m _ _) (Nat.dvd_mul_left _ _)

private theorem taken_eq_false : taken m s low hi k = false ↔ Free s (above m low hi k) := by
  rw [taken, Option.isSome_eq_false_iff, Option.isNone_iff_eq_none, Free]

private theorem mirrored_eq_false : mirrored m s low hi k = false ↔ Free s (mirror m low hi k) := by
  rw [mirrored, Option.isSome_eq_false_iff, Option.isNone_iff_eq_none, Free]

/-! ### Over a segment -/

private theorem segmentGet_eq (valid : ∀ g ∈ s.segments, Valid m g.toMapping)
    (apart : s.segments.Pairwise fun g h => Apart g.toMapping h.toMapping) {g : Segment}
    (member : g ∈ s.segments)
    {x : Nat} (from_ : g.start ≤ x) (upto : x < g.stop) : segmentGet s.segments x = some g := by
  have taken_ := TrampolineProofs.segmentGet_finds apart (fun h inside => (valid h inside).nonempty)
    member from_ upto
  obtain ⟨h, found⟩ := Option.ne_none_iff_exists'.mp taken_
  obtain ⟨known, starts, ends⟩ := TrampolineProofs.segmentGet_member found
  rw [found]
  by_contra different
  have other : g ≠ h := fun same => different (congrArg some same.symm)
  rcases apart.forall member known other with before | after <;> omega

/-- The pages of a segment, and the one behind it. -/
private theorem segment_pages {g : Segment} (valid : Valid m g.toMapping)
    (starts : g.start = above m low hi k) :
    ∃ n, 1 ≤ n ∧ g.stop - g.start = n * m.page ∧
      ∀ i ≤ n, above m low hi (k + i) = g.start + i * m.page := by
  obtain ⟨n, length⟩ := TrampolineProofs.dvd_length valid
  have filled := valid.nonempty
  have bound := valid.bound
  have whole : g.stop - g.start = n * m.page := by rw [length, Nat.mul_comm]
  refine ⟨n, ?_, whole, fun i inside => ?_⟩
  · by_contra none
    obtain rfl : n = 0 := by omega
    omega
  · have upto : i * m.page ≤ n * m.page := Nat.mul_le_mul_right _ inside
    rw [above_add, ← starts, Machine.add, Nat.mod_eq_of_lt (by omega)]

/-- A segment that is found at a page starts there. -/
def Starts (m : Machine) (s : Space) (low hi k : Nat) : Prop :=
  ∀ g, segmentGet s.segments (above m low hi k) = some g → g.start = above m low hi k

private theorem starts_behind (valid : ∀ g ∈ s.segments, Valid m g.toMapping)
    (apart : s.segments.Pairwise fun g h => Apart g.toMapping h.toMapping) {g : Segment}
    (member : g ∈ s.segments)
    (stops : g.stop = above m low hi k) : Starts m s low hi k := by
  intro h found
  obtain ⟨known, from_, upto⟩ := TrampolineProofs.segmentGet_member found
  have filled := (valid g member).nonempty
  have other : g ≠ h := by
    rintro rfl
    omega
  rcases apart.forall member known other with before | after <;> omega

/-- Behind a free page a segment can only start. -/
private theorem starts_of_free (valid : ∀ g ∈ s.segments, Valid m g.toMapping)
    (apart : s.segments.Pairwise fun g h => Apart g.toMapping h.toMapping)
    (free : Free s (above m low hi k)) :
    Starts m s low hi (k + 1) := by
  intro g found
  obtain ⟨member, from_, upto⟩ := TrampolineProofs.segmentGet_member found
  by_contra inside
  have next : above m low hi (k + 1) = (above m low hi k + m.page) % m.modulus := by
    rw [above_add, Nat.one_mul, Machine.add]
  have whole : above m low hi (k + 1) = above m low hi k + m.page := by
    have bound : above m low hi k < m.modulus := TrampolineProofs.add_lt m _ _
    have aligned : above m low hi k + m.page ≤ m.modulus := by
      obtain ⟨a, isA⟩ := above_dvd low hi k
      obtain ⟨n, isN⟩ := m.page_dvd
      rw [isA, isN] at bound ⊢
      have less := Nat.lt_of_mul_lt_mul_left bound
      calc m.page * a + m.page = m.page * (a + 1) := by ring
        _ ≤ m.page * n := Nat.mul_le_mul_left _ less
    by_cases top : above m low hi k + m.page = m.modulus
    · rw [top, Nat.mod_self] at next
      omega
    · rw [next, Nat.mod_eq_of_lt (by omega)]
  have earlier : g.start ≤ above m low hi k := by
    obtain ⟨a, isA⟩ := above_dvd low hi k
    obtain ⟨b, isB⟩ := (valid g member).start
    have before : g.start < above m low hi k + m.page := by omega
    rw [isA, isB] at before ⊢
    apply Nat.mul_le_mul_left
    have less : m.page * b < m.page * (a + 1) := by
      rw [Nat.mul_add, Nat.mul_one]
      exact before
    exact Nat.le_of_lt_succ (Nat.lt_of_mul_lt_mul_left less)
  have filled := m.page_pos
  exact TrampolineProofs.segmentGet_finds apart (fun h known => (valid h known).nonempty) member
    earlier (by omega) free

/-- What the search relies on where it looks for a gap. -/
structure Good (m : Machine) (s : Space) (low hi maxSize first k : Nat) : Prop where
  begins : begins m s low hi maxSize first k = true
  starts : Starts m s low hi k

/-- One turn above, from a page to another: the pages between are in reach, and no segment begins
there behind a gap. -/
structure Turned (m : Machine) (s : Space) (low hi maxSize first k : Nat) (next : Cursor)
    (k' : Nat) : Prop where
  further : k < k'
  offset : next.aboff = k' * m.page
  reach : next.aboffIsReachable = inReach m s low hi maxSize first k'
  good : inReach m s low hi maxSize first k' = true → Good m s low hi maxSize first k'
  between : ∀ j, k < j → j < k' → inReach m s low hi maxSize first j = true ∧
    (taken m s low hi j = true → taken m s low hi (j - 1) = true)

private theorem turned_over (valid : ∀ g ∈ s.segments, Valid m g.toMapping)
    (apart : s.segments.Pairwise fun g h => Apart g.toMapping h.toMapping)
    (offset : cursor.aboff = k * m.page)
    (good : Good m s low hi maxSize first k) {g : Segment}
    (found : segmentGet s.segments (above m low hi k) = some g)
    (looked : lookAbove m s.segments low hi maxSize cursor = (next, room)) :
    ∃ k', Turned m s low hi maxSize first k next k' := by
  obtain ⟨member, -, -⟩ := TrampolineProofs.segmentGet_member found
  obtain ⟨n, one, length, pages⟩ := segment_pages (valid g member) (good.starts g found)
  have filled := (valid g member).nonempty
  have stops : g.stop = above m low hi (k + n) := by
    rw [pages n le_rfl]
    omega
  have inside : ∀ i < n, segmentGet s.segments (above m low hi (k + i)) = some g := by
    intro i upto
    have less : i * m.page < n * m.page := Nat.mul_lt_mul_of_pos_right upto m.page_pos
    refine segmentGet_eq valid apart member ?_ ?_ <;> rw [pages i upto.le] <;> omega
  have before : segmentGet s.segments (above m low hi (k + n - 1)) = some g := by
    rw [Nat.add_sub_assoc one]
    exact inside _ (by omega)
  have reach : inReach m s low hi maxSize first (k + n) =
      m.checkRelativeJump low (above m low hi (k + n)) := by
    simp [inReach, before, stops]
  have here : segmentGet s.segments (m.add (center m low hi) (k * m.page)) = some g := found
  refine ⟨k + n, by omega, ?_, ?_, fun _ => ⟨?_, starts_behind valid apart member stops⟩,
    fun j lower upper => ?_⟩
  · simp only [lookAbove, offset, here] at looked
    cases looked
    simp only [length, Nat.add_mul]
  · rw [reach]
    simp only [lookAbove, offset, here] at looked
    cases looked
    simp only [length, ← Nat.add_mul]
    rfl
  · apply begins_of_breaks
    simp [breaks, taken, before]
  · obtain ⟨i, rfl⟩ : ∃ i, j = k + (i + 1) := ⟨j - k - 1, by omega⟩
    have here : segmentGet s.segments (above m low hi (k + (i + 1) - 1)) = some g := inside i (by omega)
    have less : (i + 1) * m.page < n * m.page := Nat.mul_lt_mul_of_pos_right (by omega) m.page_pos
    have short : g.stop ≠ above m low hi (k + (i + 1)) := by
      rw [pages (i + 1) (by omega)]
      omega
    refine ⟨?_, fun _ => ?_⟩
    · rw [inReach, here]
      simp [short]
    · rw [taken, here, Option.isSome_some]

/-! ### Over a gap -/

private theorem unmirrored_of_extends {j : Nat} (extend : Extends m s low hi maxSize (k * m.page) j) :
    mirrored m s low hi (k + j) = false := by
  rw [mirrored_eq_false, mirror, Nat.add_mul]
  exact extend.2.2

/-- A gap has no break in it as far as the mirrored pages are free. -/
private theorem lastBreak_gap (i : Nat) (free : ∀ j < i, taken m s low hi (k + j) = false)
    (lower : first ≤ k)
    (unmirrored : ∀ j, 1 ≤ j → j ≤ i → mirrored m s low hi (k + j) = false) :
    lastBreak m s low hi first (k + i) = lastBreak m s low hi first k := by
  induction i with
  | zero => rfl
  | succ i ih =>
    have before := ih (fun j inside => free j (by omega)) fun j one inside => unmirrored j one (by omega)
    have noMirror : mirrored m s low hi (k + i + 1) = false := unmirrored (i + 1) (by omega) le_rfl
    have noBreak : ¬breaks m s low hi first (k + i + 1) = true := by
      simp [breaks, noMirror, free i (by omega)]
      omega
    rw [lastBreak, ← Nat.add_assoc, Nat.findGreatest_succ, if_neg noBreak]
    exact before

/-- So far the reports begin in it one stride after the other. -/
private theorem begins_gap {i : Nat} (free : ∀ j < i, taken m s low hi (k + j) = false)
    (lower : first ≤ k)
    (unmirrored : ∀ j, 1 ≤ j → j ≤ i → mirrored m s low hi (k + j) = false)
    (good : begins m s low hi maxSize first k = true) :
    begins m s low hi maxSize first (k + i) = decide (i % stride m maxSize = 0) := by
  have le : lastBreak m s low hi first k ≤ k := Nat.findGreatest_le k
  simp only [begins, decide_eq_true_eq] at good
  have split : k + i - lastBreak m s low hi first k = k - lastBreak m s low hi first k + i := by omega
  rw [begins, lastBreak_gap i free lower unmirrored, split, Nat.add_mod, good, Nat.zero_add, Nat.mod_mod]

private theorem stride_pos (m : Machine) (maxSize : Nat) : 0 < stride m maxSize :=
  Nat.lt_of_lt_of_le Nat.one_pos (le_max_left _ _)

/-- A gap that is too small yet is shorter than the stride. -/
private theorem lt_stride {i : Nat} (small : i * m.page < maxSize) : i < stride m maxSize := by
  have positive := m.page_pos
  have more : i + 1 ≤ (maxSize + m.page - 1) / m.page := by
    rw [Nat.le_div_iff_mul_le positive, Nat.add_mul]
    omega
  exact Nat.lt_of_lt_of_le more (le_max_right _ _)

/-- The first size that is not too small is the stride. -/
private theorem eq_stride {n : Nat} (one : 1 ≤ n) (last : 1 < n → (n - 1) * m.page < maxSize)
    (enough : maxSize ≤ n * m.page) :
    n = stride m maxSize := by
  have positive := m.page_pos
  apply le_antisymm
  · by_cases first : n = 1
    · rw [first]
      exact stride_pos m maxSize
    · have less := lt_stride (last (by omega))
      omega
  · have covered : (maxSize + m.page - 1) / m.page ≤ n := by
      apply Nat.le_of_lt_succ
      rw [Nat.div_lt_iff_lt_mul positive, Nat.succ_mul]
      omega
    exact max_le one covered

/-- The pages up to which a gap grows are in reach. -/
private theorem inReach_gap {i : Nat} (one : 1 ≤ i)
    (free : ∀ j < i, taken m s low hi (k + j) = false) (lower : first ≤ k)
    (extend : ∀ j, 1 ≤ j → j < i → Extends m s low hi maxSize (k * m.page) j)
    (good : begins m s low hi maxSize first k = true) :
    inReach m s low hi maxSize first (k + i) = m.checkRelativeJump low
      (if i = 1 then m.add (m.add (center m low hi) (k * m.page + m.page)) m.page
      else m.add (m.sub (center m low hi) (k * m.page + i * m.page)) m.page) := by
  obtain ⟨i, rfl⟩ : ∃ l, i = l + 1 := ⟨i - 1, by omega⟩
  have before : segmentGet s.segments (above m low hi (k + (i + 1) - 1)) = none :=
    taken_eq_false.mp (free i (by omega))
  have begins_ : begins m s low hi maxSize first (k + (i + 1) - 1) = decide (i + 1 = 1) := by
    rw [show k + (i + 1) - 1 = k + i by omega, begins_gap (fun j inside => free j (by omega)) lower
      (fun j from_ upto => unmirrored_of_extends (extend j from_ (by omega))) good]
    cases i with
    | zero => simp
    | succ i =>
      have less := lt_stride (extend (i + 1) (by omega) (by omega)).1
      simp [Nat.mod_eq_of_lt less]
  rw [inReach, before, begins_]
  by_cases isOne : i + 1 = 1
  · obtain rfl : i = 0 := by omega
    simp [above, Nat.add_mul]
  · simp only [isOne, decide_false, Bool.false_eq_true, if_false, mirror, Nat.add_mul]

private theorem turned_gap (valid : ∀ g ∈ s.segments, Valid m g.toMapping)
    (apart : s.segments.Pairwise fun g h => Apart g.toMapping h.toMapping)
    (offset : cursor.aboff = k * m.page) (lower : first ≤ k) (good : Good m s low hi maxSize first k)
    (tells : MirrorTells m s low hi maxSize cursor) (free : Free s (above m low hi k))
    (looked : lookAbove m s.segments low hi maxSize cursor = (next, room)) :
    ∃ k', Turned m s low hi maxSize first k next k' := by
  have here : segmentGet s.segments (m.add (center m low hi) (k * m.page)) = none := free
  simp only [lookAbove, offset, here] at looked
  generalize extends_ : extendAbove m s.segments low hi maxSize (maxSize / m.page) m.page
    (k * m.page + m.page) _ = grown at looked
  obtain ⟨size', aboff', reachable'⟩ := grown
  cases looked
  have fromOne : extendAbove m s.segments low hi maxSize (maxSize / m.page) (1 * m.page)
      (k * m.page + 1 * m.page)
      (m.checkRelativeJump low (m.add (m.add (center m low hi) (k * m.page + m.page)) m.page)) =
        (size', aboff', reachable') := by
    rw [Nat.one_mul]
    exact extends_
  obtain ⟨n, one, -, aboff, flag, all, last⟩ :=
    extendAbove_pages (by omega) le_rfl (by rw [if_pos rfl]) fromOne
  subst aboff
  have isFree : ∀ j < n, taken m s low hi (k + j) = false := by
    intro j inside
    rw [taken_eq_false, above, Nat.add_mul, ← offset]
    exact tells (by rw [offset]; exact free) j fun i from_ upto => by
      rw [offset]
      exact all i from_ (by omega)
  have reach := inReach_gap one isFree lower (fun j from_ upto => all j from_ upto) good.begins
  refine ⟨k + n, by omega, (Nat.add_mul ..).symm, flag.trans reach.symm, fun reaches => ⟨?_, ?_⟩,
    fun j from_ upto => ?_⟩
  · -- The gap stops to grow at the stride, or where the mirrored page is taken.
    by_cases mirrored_ : mirrored m s low hi (k + n) = true
    · apply begins_of_breaks
      simp [breaks, mirrored_]
    · have freeMirror : Free s (m.sub (center m low hi) (k * m.page + n * m.page)) := by
        rw [← Nat.add_mul]
        exact mirrored_eq_false.mp (by simpa using mirrored_)
      have enough : maxSize ≤ n * m.page := by
        by_contra small
        exact last ⟨by omega, by rw [← reach]; exact reaches, freeMirror⟩
      have isStride : n = stride m maxSize :=
        eq_stride one (fun more => (all (n - 1) (by omega) (by omega)).1) enough
      rw [begins_gap isFree lower (fun j from_ upto => ?_) good.begins, isStride, Nat.mod_self,
        decide_eq_true rfl]
      by_cases end_ : j = n
      · rw [end_]
        simpa using mirrored_
      · exact unmirrored_of_extends (all j from_ (by omega))
  · have before : Free s (above m low hi (k + (n - 1))) := taken_eq_false.mp (isFree (n - 1) (by omega))
    have behind := starts_of_free valid apart before
    rwa [show k + (n - 1) + 1 = k + n by omega] at behind
  · obtain ⟨i, rfl⟩ : ∃ i, j = k + i := ⟨j - k, by omega⟩
    have reachHere := inReach_gap (by omega) (fun j inside => isFree j (by omega)) lower
      (fun j from_ upto => all j from_ (by omega)) good.begins (i := i)
    refine ⟨?_, fun isTaken => ?_⟩
    · rw [reachHere]
      exact (all i (by omega) (by omega)).2.1
    · rw [isFree i (by omega)] at isTaken
      cases isTaken

private theorem turned (valid : ∀ g ∈ s.segments, Valid m g.toMapping)
    (apart : s.segments.Pairwise fun g h => Apart g.toMapping h.toMapping)
    (offset : cursor.aboff = k * m.page) (lower : first ≤ k) (good : Good m s low hi maxSize first k)
    (tells : MirrorTells m s low hi maxSize cursor) :
    ∃ k', Turned m s low hi maxSize first k (lookAbove m s.segments low hi maxSize cursor).1 k' := by
  cases found : segmentGet s.segments (above m low hi k) with
  | none => exact turned_gap valid apart offset lower good tells found rfl
  | some g => exact turned_over valid apart offset good found rfl

/-! ### The turns above -/

/-- Below the tracepoints the search leaves the offset above alone, and its own grows. -/
private theorem lookBelow_above (valid : ∀ g ∈ s.segments, Valid m g.toMapping)
    (low hi maxSize : Nat) (c : Cursor) :
    (lookBelow m s.segments low hi maxSize c).1.aboff = c.aboff ∧
      (lookBelow m s.segments low hi maxSize c).1.aboffIsReachable = c.aboffIsReachable ∧
      c.beoff < (lookBelow m s.segments low hi maxSize c).1.beoff := by
  have grows : ∀ pages start size beoff reachable,
      beoff ≤ (extendBelow m s.segments low hi maxSize pages start size beoff reachable).2.2.1 := by
    intro pages
    induction pages with
    | zero => exact fun _ _ _ _ => le_rfl
    | succ pages ih =>
      intro start size beoff reachable
      rw [extendBelow]
      split
      · exact (Nat.le_add_right _ _).trans (ih _ _ _ _)
      · exact le_rfl
  have page := m.page_pos
  simp only [lookBelow]
  cases found : segmentGet s.segments (m.sub (center m low hi) c.beoff) with
  | none => exact ⟨rfl, rfl, (Nat.lt_add_of_pos_right page).trans_le (grows _ _ _ _ _)⟩
  | some g =>
    have filled := (valid g (TrampolineProofs.segmentGet_member found).1).nonempty
    exact ⟨rfl, rfl, Nat.lt_add_of_pos_right (by omega)⟩

variable {start : Cursor}

/-- As long as the search above is in reach, its turn comes. -/
private theorem turn_comes (valid : ∀ g ∈ s.segments, Valid m g.toMapping) {side : Bool} {c : Cursor}
    (reached : Reached m s low hi maxSize start side c) (reach : c.aboffIsReachable = true) :
    ∃ c', Reached m s low hi maxSize start true c' ∧ aboveTurn c' = true ∧ c'.aboff = c.aboff := by
  -- The loop below ends when its offset is beyond the one above.
  have from_below : ∀ distance, ∀ c : Cursor, c.aboff + 1 - c.beoff ≤ distance →
      Reached m s low hi maxSize start false c → c.aboffIsReachable = true →
      ∃ c', Reached m s low hi maxSize start true c' ∧ aboveTurn c' = true ∧ c'.aboff = c.aboff := by
    intro distance
    induction distance with
    | zero =>
      intro c near reached reach
      have ends : belowTurn c = false := by
        simp [belowTurn, reach]
        omega
      exact ⟨c, .up reached ends, by simp [aboveTurn, reach]; omega, rfl⟩
    | succ distance ih =>
      intro c near reached reach
      by_cases turn : belowTurn c = true
      · obtain ⟨offset, flag, further⟩ := lookBelow_above valid low hi maxSize c
        obtain ⟨c', at_, goes, same⟩ :=
          ih _ (by rw [offset]; omega) (.lower reached turn) (flag.trans reach)
        exact ⟨c', at_, goes, same.trans offset⟩
      · have ends : belowTurn c = false := by simpa using turn
        refine ⟨c, .up reached ends, ?_, rfl⟩
        simp only [belowTurn, reach, Bool.not_true, Bool.or_false, Bool.and_eq_false_iff,
          decide_eq_false_iff_not] at ends
        cases below : c.beoffIsReachable with
        | false => simp [aboveTurn, reach, below]
        | true =>
          simp [below] at ends
          simp [aboveTurn, reach]
          omega
  cases side with
  | false => exact from_below _ c le_rfl reached reach
  | true =>
    by_cases turn : aboveTurn c = true
    · exact ⟨c, reached, turn, rfl⟩
    · exact from_below _ c le_rfl (.down reached (by simpa using turn) (by simp [reach])) reach

/-- The search has come to a page above. -/
structure Arrived (m : Machine) (s : Space) (low hi maxSize first k : Nat) : Prop where
  lower : first ≤ k
  good : Good m s low hi maxSize first k
  reach : ∀ j, first < j → j ≤ k → inReach m s low hi maxSize first j = true

/-- Where every gap ends where a report would begin, no report goes over the end of one. -/
private theorem tells_of_gapsEnd (ends : GapsEnd m s low hi maxSize first)
    (begun : m.checkRelativeJump low (m.add (above m low hi first) m.page) = true)
    (arrived : Arrived m s low hi maxSize first k) (offset : cursor.aboff = k * m.page) :
    MirrorTells m s low hi maxSize cursor := by
  intro free j extend
  rw [offset] at free extend ⊢
  have isFree : ∀ i ≤ j, taken m s low hi (k + i) = false := by
    intro i upto
    induction i using Nat.strongRecOn with
    | ind i ih =>
      cases i with
      | zero => exact taken_eq_false.mpr free
      | succ i =>
        by_contra isTaken
        have before : ∀ l < i + 1, taken m s low hi (k + l) = false :=
          fun l inside => ih l inside (by omega)
        have reach : ∀ l, first < l → l ≤ k + (i + 1) → inReach m s low hi maxSize first l = true := by
          intro l from_ upto'
          by_cases near : l ≤ k
          · exact arrived.reach l from_ near
          · obtain ⟨l, rfl⟩ : ∃ n, l = k + n := ⟨l - k, by omega⟩
            rw [inReach_gap (by omega) (fun n inside => before n (by omega)) arrived.lower
              (fun n one inside => extend n one (by omega)) arrived.good.begins]
            exact (extend l (by omega) (by omega)).2.1
        have lower := arrived.lower
        have begins_ := ends begun (k + (i + 1)) (by omega) (by simpa using isTaken)
          (before i (by omega)) reach
        have small := lt_stride (extend (i + 1) (by omega) upto).1
        rw [begins_gap before arrived.lower
          (fun n one inside => unmirrored_of_extends (extend n one (by omega))) arrived.good.begins,
          Nat.mod_eq_of_lt small] at begins_
        simp at begins_
  rw [← Nat.add_mul]
  exact taken_eq_false.mp (isFree j le_rfl)

/-- One turn leads from a page in reach to a page in reach. -/
private theorem Arrived.turned {next : Cursor} {k' : Nat} (arrived : Arrived m s low hi maxSize first k)
    (turned : Turned m s low hi maxSize first k next k') (reach : next.aboffIsReachable = true) :
    Arrived m s low hi maxSize first k' := by
  have here : inReach m s low hi maxSize first k' = true := turned.reach ▸ reach
  refine ⟨arrived.lower.trans turned.further.le, turned.good here, fun j from_ upto => ?_⟩
  by_cases near : j ≤ k
  · exact arrived.reach j from_ near
  · by_cases end_ : j = k'
    · rw [end_]
      exact here
    · exact (turned.between j (by omega) (by omega)).1

/-- The segment of the tracepoints ends at a page from which the search begins. -/
private theorem first_arrived (valid : ∀ g ∈ s.segments, Valid m g.toMapping)
    (apart : s.segments.Pairwise fun g h => Apart g.toMapping h.toMapping) {owner : Segment}
    (member : owner ∈ s.segments)
    (isFirst : m.sub owner.stop (center m low hi) = first * m.page) :
    Arrived m s low hi maxSize first first := by
  refine ⟨le_rfl, ⟨begins_of_breaks (by simp [breaks]), ?_⟩, fun j from_ upto => by omega⟩
  apply starts_behind valid apart member
  rw [above, ← isFirst, TrampolineProofs.add_sub, Nat.mod_eq_of_lt (valid owner member).bound]

/-- Mirror images tell the truth in every turn if and only if every gap in reach ends where a report
would begin. -/
theorem mirrorsTell_iff (valid : ∀ g ∈ s.segments, Valid m g.toMapping)
    (apart : s.segments.Pairwise fun g h => Apart g.toMapping h.toMapping) {owner : Segment}
    (member : owner ∈ s.segments)
    (isFirst : m.sub owner.stop (center m low hi) = first * m.page) :
    MirrorsTell m s low hi maxSize (startCursor m owner low hi) ↔ GapsEnd m s low hi maxSize first := by
  have begin_ : Arrived m s low hi maxSize first first := first_arrived valid apart member isFirst
  have flag : (startCursor m owner low hi).aboffIsReachable =
      m.checkRelativeJump low (m.add (above m low hi first) m.page) := by
    rw [above, ← isFirst]
    rfl
  constructor
  · intro tells begun k from_ isTaken isFree reach
    -- From a page that is not behind `k`, the search comes to `k`.
    have comes : ∀ distance a, k - a ≤ distance → a ≤ k → Arrived m s low hi maxSize first a →
        (∃ c, Reached m s low hi maxSize (startCursor m owner low hi) true c ∧ aboveTurn c = true ∧
          c.aboff = a * m.page) →
        Arrived m s low hi maxSize first k := by
      intro distance
      induction distance with
      | zero =>
        intro a near upto arrived _
        obtain rfl : a = k := by omega
        exact arrived
      | succ distance ih =>
        rintro a near upto arrived ⟨c, reached, turn, offset⟩
        by_cases done : a = k
        · exact done ▸ arrived
        · obtain ⟨a', next⟩ := turned valid apart offset arrived.lower arrived.good
            (tells c reached turn)
          have further := next.further
          have inside : a' ≤ k := by
            by_contra beyond
            have between := (next.between k (by omega) (by omega)).2 isTaken
            rw [isFree] at between
            cases between
          have lower := arrived.lower
          have goes : (lookAbove m s.segments low hi maxSize c).1.aboffIsReachable = true :=
            next.reach.trans (reach a' (by omega) inside)
          obtain ⟨c', reached', turn', same⟩ := turn_comes valid (.higher reached turn) goes
          exact ih a' (by omega) inside (arrived.turned next goes) ⟨c', reached', turn',
            same.trans next.offset⟩
    have starts : Reached m s low hi maxSize (startCursor m owner low hi) false
        (startCursor m owner low hi) := .start
    obtain ⟨c, reached, turn, offset⟩ := turn_comes valid starts (flag.trans begun)
    exact (comes _ first le_rfl from_.le begin_ ⟨c, reached, turn, offset.trans isFirst⟩).good.begins
  · intro ends c reached turn
    have arrives : ∀ {side : Bool} {c : Cursor},
        Reached m s low hi maxSize (startCursor m owner low hi) side c →
        c.aboffIsReachable = true →
        m.checkRelativeJump low (m.add (above m low hi first) m.page) = true ∧
          ∃ a, c.aboff = a * m.page ∧ Arrived m s low hi maxSize first a := by
      intro side c reached
      induction reached with
      | start => exact fun reach => ⟨flag.symm.trans reach, first, isFirst, begin_⟩
      | @lower c before turn ih =>
        obtain ⟨offset, same, -⟩ := lookBelow_above valid low hi maxSize c
        intro reach
        rw [offset]
        exact ih (same.symm.trans reach)
      | up before ends ih => exact ih
      | @higher c before turn ih =>
        intro reach
        have here : c.aboffIsReachable = true := by
          simp only [aboveTurn, Bool.and_eq_true] at turn
          exact turn.1
        obtain ⟨begun, a, offset, arrived⟩ := ih here
        obtain ⟨a', next⟩ := turned valid apart offset arrived.lower arrived.good
          (tells_of_gapsEnd ends begun arrived offset)
        exact ⟨begun, a', next.offset, arrived.turned next reach⟩
      | down before ends reach ih => exact ih
    have here : c.aboffIsReachable = true := by
      simp only [aboveTurn, Bool.and_eq_true] at turn
      exact turn.1
    obtain ⟨begun, a, offset, arrived⟩ := arrives reached here
    exact tells_of_gapsEnd ends begun arrived offset

/-- The page at which the segment ends, counted from the center. -/
def endPage (m : Machine) (owner : Segment) (low hi : Nat) : Nat :=
  m.sub owner.stop (center m low hi) / m.page

/-- Every call reports free memory or an unused segment, whatever the callback answers, if and only
if every gap above the tracepoints that is in reach ends a whole number of the largest reports
behind the last break. -/
theorem calls_reportable_iff (m : Machine) (s : Space) (owner : Segment) (low hi maxSize : Nat)
    (valid : ∀ g ∈ s.segments, Valid m g.toMapping)
    (apart : s.segments.Pairwise fun g h => Apart g.toMapping h.toMapping)
    (member : owner ∈ s.segments) :
    (∀ fn steps, ∀ room ∈ iterFreeSegments m s.segments low hi maxSize owner fn steps,
      Reportable m s room) ↔
      GapsEnd m s low hi maxSize (endPage m owner low hi) := by
  have whole : m.sub owner.stop (center m low hi) = endPage m owner low hi * m.page :=
    (Nat.div_mul_cancel (startCursor_aligned (valid owner member)).2).symm
  exact (calls_reportable_iff_tells valid apart member).trans (mirrorsTell_iff valid apart member whole)

/-! ## The search for trampolines -/

/-- `find_coherent` takes the first room that is granted to it. -/
private theorem granted_cons (room : Room) (rest : List Room) (answers : List Bool) :
    (granted m maxSize (room :: rest) answers).map takes =
      match findCoherent m maxSize (some room) answers with
      | (some found, _) => some found
      | (none, later) => (granted m maxSize rest later).map takes := by
  have asked : ∀ found : Found, takes room = found →
      (((room :: rest.filter (wide maxSize)).zip answers).find? fun asked =>
        asked.2 && (takes asked.1).start + maxSize ≤ m.modulus).map (takes ∘ Prod.fst) =
      match trampolineMmap m maxSize found.start found.stolen answers with
      | (some found, _) => some found
      | (none, later) => (granted m maxSize rest later).map takes := by
    rintro found rfl
    cases answers with
    | nil => simp [trampolineMmap, granted]
    | cons answer later =>
      by_cases grants : (answer && (takes room).start + maxSize ≤ m.modulus) = true
      · simp only [List.zip_cons_cons, List.find?_cons, grants, trampolineMmap, ↓reduceIte]
        rfl
      · simp only [List.zip_cons_cons, List.find?_cons, grants, trampolineMmap, granted,
          Bool.false_eq_true, ↓reduceIte,
          Option.map_map]
  cases room with
  | gap start size =>
    by_cases large : maxSize ≤ size
    · simpa [granted, wide, findCoherent, large, Option.map_map] using asked ⟨start, false⟩ rfl
    · simp [granted, wide, findCoherent, large]
  | unused g =>
    by_cases large : maxSize ≤ g.stop - g.start
    · simpa [granted, wide, findCoherent, large, Option.map_map] using asked ⟨g.start, true⟩ rfl
    · simp [granted, wide, findCoherent, large]

/-- What was called before does not matter to a callback that takes no room. -/
theorem iterRooms_calls (segments : List Segment) (steps : Nat) (side : Bool) (c : Cursor)
    (calls : List Room) :
    iterRooms m segments low hi maxSize (fun _ => false) steps side c calls =
      calls ++ iterRooms m segments low hi maxSize (fun _ => false) steps side c [] := by
  induction steps generalizing side c calls with
  | zero => simp [iterRooms]
  | succ steps ih =>
    cases side with
    | false =>
      simp only [iterRooms]
      split
      · obtain ⟨next, room⟩ := lookBelow m segments low hi maxSize c
        cases room with
        | none => exact ih _ _ _
        | some room =>
          simp only [Bool.false_eq_true, ↓reduceIte, List.nil_append]
          rw [ih _ _ (calls ++ [room]), ih _ _ [room], List.append_assoc]
      · exact ih _ _ _
    | true =>
      simp only [iterRooms]
      split
      · obtain ⟨next, room⟩ := lookAbove m segments low hi maxSize c
        cases room with
        | none => exact ih _ _ _
        | some room =>
          simp only [Bool.false_eq_true, ↓reduceIte, List.nil_append]
          rw [ih _ _ (calls ++ [room]), ih _ _ [room], List.append_assoc]
      · split
        · exact ih _ _ _
        · simp

/-- The search is the iteration over the rooms with the callback of `allocate_trampoline`. -/
theorem search_granted (segments : List Segment) (steps : Nat) (side : Bool) (c : Cursor)
    (answers : List Bool) :
    iterFreeSegmentsAround m segments low hi maxSize steps side c answers =
      (granted m maxSize (iterRooms m segments low hi maxSize (fun _ => false) steps side c [])
        answers).map takes := by
  induction steps generalizing side c answers with
  | zero => simp [iterFreeSegmentsAround, iterRooms, granted]
  | succ steps ih =>
    cases side with
    | false =>
      rw [iterFreeSegmentsAround, iterRooms, ← belowTurn]
      by_cases turn : belowTurn c = true
      · rw [if_pos turn, if_pos turn]
        obtain ⟨next, room⟩ := lookBelow m segments low hi maxSize c
        cases room with
        | none => exact ih _ _ _
        | some room =>
          simp only [Bool.false_eq_true, ↓reduceIte, List.nil_append]
          rw [iterRooms_calls, List.singleton_append, granted_cons]
          obtain ⟨found, later⟩ := findCoherent m maxSize (some room) answers
          cases found with
          | none => exact ih _ _ _
          | some found => rfl
      · rw [if_neg turn, if_neg turn]
        exact ih _ _ _
    | true =>
      rw [iterFreeSegmentsAround, iterRooms, ← aboveTurn]
      by_cases turn : aboveTurn c = true
      · rw [if_pos turn, if_pos turn]
        obtain ⟨next, room⟩ := lookAbove m segments low hi maxSize c
        cases room with
        | none => exact ih _ _ _
        | some room =>
          simp only [Bool.false_eq_true, ↓reduceIte, List.nil_append]
          rw [iterRooms_calls, List.singleton_append, granted_cons]
          obtain ⟨found, later⟩ := findCoherent m maxSize (some room) answers
          cases found with
          | none => exact ih _ _ _
          | some found => rfl
      · rw [if_neg turn, if_neg turn]
        split
        · exact ih _ _ _
        · simp [granted]

/-- Two segments of code with one free page between them. -/
def pair : Space where
  segments := [segmentNew ⟨0x401000, 0x402000, some 1, 0, true, false, true, false⟩,
    segmentNew ⟨0x403000, 0x404000, some 2, 0, true, false, true, false⟩]
  injections := []

private theorem pair_valid : ∀ g ∈ pair.segments, Valid arm64 g.toMapping := by
  simp only [pair, List.mem_cons, List.not_mem_nil, or_false]
  rintro g (rfl | rfl) <;> exact ⟨by decide, by decide, by decide, by decide⟩

private theorem pair_apart : pair.segments.Pairwise fun g h => Apart g.toMapping h.toMapping := by
  refine List.pairwise_pair.mpr (.inl ?_)
  decide

/-- Two segments of code with two free pages between them. -/
def wider : Space where
  segments := [segmentNew ⟨0x401000, 0x402000, some 1, 0, true, false, true, false⟩,
    segmentNew ⟨0x404000, 0x405000, some 2, 0, true, false, true, false⟩]
  injections := []

private theorem wider_valid : ∀ g ∈ wider.segments, Valid arm64 g.toMapping := by
  simp only [wider, List.mem_cons, List.not_mem_nil, or_false]
  rintro g (rfl | rfl) <;> exact ⟨by decide, by decide, by decide, by decide⟩

private theorem wider_apart : wider.segments.Pairwise fun g h => Apart g.toMapping h.toMapping := by
  refine List.pairwise_pair.mpr (.inl ?_)
  decide

/-- A branch does not lead 40000 pages away. -/
private theorem wider_out_of_reach : inReach arm64 wider 0x401010 0x401010 8192 1 40000 = false := by
  have free : segmentGet wider.segments (above arm64 0x401010 0x401010 (40000 - 1)) = none := by decide
  have beyond : arm64.checkRelativeJump 0x401010 (arm64.add (above arm64 0x401010 0x401010 40000)
      arm64.page) = false ∧
      arm64.checkRelativeJump 0x401010 (arm64.add (mirror arm64 0x401010 0x401010 40000)
        arm64.page) = false := by
    decide
  simp only [inReach, free]
  split
  · exact beyond.1
  · exact beyond.2

private theorem wider_end {k : Nat} (near : k < 40000) (behind : 1 < k)
    (isTaken : taken arm64 wider 0x401010 0x401010 k = true) : k = 3 := by
  obtain ⟨g, found⟩ := Option.isSome_iff_exists.mp isTaken
  obtain ⟨member, from_, upto⟩ := TrampolineProofs.segmentGet_member found
  have address : above arm64 0x401010 0x401010 k = 0x401000 + k * 4096 := by
    have center : center arm64 0x401010 0x401010 = 0x401000 := by decide
    rw [above, center]
    exact Nat.mod_eq_of_lt (by simp only [arm64]; omega)
  rw [address] at from_ upto
  simp only [wider, List.mem_cons, List.not_mem_nil, or_false] at member
  rcases member with rfl | rfl <;> simp only [segmentNew] at from_ upto <;> omega

/-- A search for two pages below and above the first segment finds both gaps, and is never misled:
the second segment is two pages behind the first. -/
theorem wider_reports_gaps :
    iterFreeSegments arm64 wider.segments 0x401010 0x401010 8192 wider.segments[0] (fun _ => false) 3 =
      [.gap 0x3ff000 8192, .gap 0x402000 8192] ∧
    ∀ fn steps, ∀ room ∈ iterFreeSegments arm64 wider.segments 0x401010 0x401010 8192
      wider.segments[0] fn steps,
      Reportable arm64 wider room := by
  refine ⟨rfl, (calls_reportable_iff arm64 wider wider.segments[0] 0x401010 0x401010 8192
    wider_valid wider_apart (by simp)).mpr ?_⟩
  intro _ k behind isTaken _ reach
  have near : k < 40000 := by
    by_contra far
    have reached := reach 40000 (by decide) (by omega)
    rw [show endPage arm64 wider.segments[0] 0x401010 0x401010 = 1 by decide,
      wider_out_of_reach] at reached
    cases reached
  obtain rfl : k = 3 := wider_end near behind isTaken
  decide

/-- A search for two pages takes the second segment for free, since the page
below the first one is. -/
theorem pair_reports_second_segment : (∀ g ∈ pair.segments, Valid arm64 g.toMapping) ∧
    (pair.segments.Pairwise fun g h => Apart g.toMapping h.toMapping) ∧
    ∃ room ∈ iterFreeSegments arm64 pair.segments 0x401010 0x401010 8192 pair.segments[0]
    (fun _ => false) 3,
      ¬Reportable arm64 pair room := by
  refine ⟨pair_valid, pair_apart, .gap 0x402000 8192, ?_, fun gap => ?_⟩
  · have calls : iterFreeSegments arm64 pair.segments 0x401010 0x401010 8192 pair.segments[0]
        (fun _ => false) 3 =
        [.gap 0x3ff000 8192, .gap 0x402000 8192] := rfl
    simp [calls]
  · exact gap.free 4096 (by decide) pair.segments[1] (by simp) (by decide)

end Adbi.GapsProofs
