import Adbi.GapSearchProofs
import Adbi.GapsProofs

/-! The rounds of the search for room, whose offsets are plain numbers, are runs of its
steps, whose offsets wrap as the addresses do. No offset comes to wrap around, unless a
segment takes up nearly all addresses. -/
namespace Adbi.GapRounds
open Adbi.Lib Adbi.Trampoline Adbi.Gaps
open Adbi.TrampolineProofs (Valid add_of_lt sub_of_le)
open Adbi.GapsProofs (Reached iterRooms_calls)
open Adbi.GapSearch (Phase Target step)
open Adbi.GapSearchProofs (Around Small)

/-! ## Steps of a round -/

variable {m : Machine} {s : Space} {low hi maxSize : Nat}
variable {segments : List Segment} {fn : Room → Bool} {c next : Cursor} {room : Option Room}
  {start size beoff aboff pages start' size' off' : Nat} {reachable reachable' : Bool}

/-- Where the search goes on behind a room that was met, if the callback does not accept it. -/
private def resumed (fn : Room → Bool) (room : Option Room) (next : Cursor) (phase : Phase) :
    GapSearch.State ⊕ Bool :=
  if room.any fn then .inr true else .inl ⟨next, phase⟩

private theorem le_extendBelow
    (extended : extendBelow m segments low hi maxSize pages start size beoff reachable =
      (start', size', off', reachable')) :
    beoff ≤ off' := by
  induction pages generalizing start size beoff reachable with
  | zero =>
    cases extended
    exact le_rfl
  | succ pages ih =>
    rw [extendBelow] at extended
    split at extended
    · exact (Nat.le_add_right _ _).trans (ih extended)
    · cases extended
      exact le_rfl

private theorem le_extendAbove
    (extended : extendAbove m segments low hi maxSize pages size aboff reachable =
      (size', off', reachable')) :
    aboff ≤ off' := by
  induction pages generalizing size aboff reachable with
  | zero =>
    cases extended
    exact le_rfl
  | succ pages ih =>
    rw [extendAbove] at extended
    split at extended
    · exact (Nat.le_add_right _ _).trans (ih extended)
    · cases extended
      exact le_rfl

private theorem runSteps_one (s : GapSearch.State) :
    runSteps (step m segments low hi maxSize fn) 1 s = step m segments low hi maxSize fn s := by
  rw [runSteps]
  cases step m segments low hi maxSize fn s <;> rfl

/-- A gap below that does not grow any more is reported. -/
private theorem belowGap_ends (ends : ¬(decide (size < maxSize) && c.beoffIsReachable &&
    (segmentGet segments (m.sub (center m low hi) c.beoff)).isNone) = true) :
    runSteps (step m segments low hi maxSize fn) 1 ⟨c, .belowGap start size⟩ =
      resumed fn (some (.gap start size)) c .below :=
  (runSteps_one _).trans (if_neg ends)

/-- The steps of the inner loop below are the rounds of `extendBelow`. -/
private theorem belowGap_steps (few : maxSize + m.page ≤ m.modulus)
    (enough : maxSize ≤ size + pages * m.page)
    (extended : extendBelow m segments low hi maxSize pages start size c.beoff c.beoffIsReachable =
      (start', size', off', reachable'))
    (fits : off' < m.modulus) :
    ∃ n, runSteps (step m segments low hi maxSize fn) (n + 1) ⟨c, .belowGap start size⟩ =
      resumed fn (some (.gap start' size'))
      { c with beoff := off', beoffIsReachable := reachable' } .below := by
  induction pages generalizing c start size with
  | zero =>
    cases extended
    exact ⟨0, belowGap_ends (by simp [show ¬size' < maxSize by omega])⟩
  | succ pages ih =>
    rw [extendBelow] at extended
    split at extended
    · rename_i goesOn
      have short : size < maxSize := by simp at goesOn; exact goesOn.1.1
      obtain ⟨n, ran⟩ := @ih
        ⟨c.beoff + m.page, c.aboff,
          m.checkRelativeJump hi (m.sub (center m low hi) (c.beoff + m.page)), c.aboffIsReachable⟩
        (m.sub start m.page) (size + m.page) (by rw [Nat.succ_mul] at enough; omega) extended
      have next : step m segments low hi maxSize fn ⟨c, .belowGap start size⟩ = .inl
          ⟨⟨m.add c.beoff m.page, c.aboff,
            m.checkRelativeJump hi (m.sub (center m low hi) (m.add c.beoff m.page)), c.aboffIsReachable⟩,
            .belowGap (m.sub start m.page) (m.add size m.page)⟩ := if_pos goesOn
      rw [add_of_lt (lt_of_le_of_lt (le_extendBelow extended) fits), add_of_lt (by omega)] at next
      exact ⟨n + 1, (runSteps_succ next _).trans ran⟩
    · rename_i ends
      cases extended
      exact ⟨0, belowGap_ends ends⟩

private theorem aboveGap_ends (ends : ¬(decide (size < maxSize) && c.aboffIsReachable &&
    (segmentGet segments (m.sub (center m low hi) c.aboff)).isNone) = true) :
    runSteps (step m segments low hi maxSize fn) 1 ⟨c, .aboveGap start size⟩ =
      resumed fn (some (.gap start size)) c .above :=
  (runSteps_one _).trans (if_neg ends)

/-- The steps of the inner loop above are the rounds of `extendAbove`. -/
private theorem aboveGap_steps (few : maxSize + m.page ≤ m.modulus)
    (enough : maxSize ≤ size + pages * m.page)
    (extended : extendAbove m segments low hi maxSize pages size c.aboff c.aboffIsReachable =
      (size', off', reachable'))
    (fits : off' < m.modulus) :
    ∃ n, runSteps (step m segments low hi maxSize fn) (n + 1) ⟨c, .aboveGap start size⟩ =
      resumed fn (some (.gap start size'))
      { c with aboff := off', aboffIsReachable := reachable' } .above := by
  induction pages generalizing c size with
  | zero =>
    cases extended
    exact ⟨0, aboveGap_ends (by simp [show ¬size' < maxSize by omega])⟩
  | succ pages ih =>
    rw [extendAbove] at extended
    split at extended
    · rename_i goesOn
      have short : size < maxSize := by simp at goesOn; exact goesOn.1.1
      obtain ⟨n, ran⟩ := @ih ⟨c.beoff, c.aboff + m.page, c.beoffIsReachable,
          m.checkRelativeJump low (m.add (m.sub (center m low hi) (c.aboff + m.page)) m.page)⟩
        (size + m.page) (by rw [Nat.succ_mul] at enough; omega) extended
      have next : step m segments low hi maxSize fn ⟨c, .aboveGap start size⟩ = .inl
          ⟨⟨c.beoff, m.add c.aboff m.page, c.beoffIsReachable,
              m.checkRelativeJump low (m.add (m.sub (center m low hi) (m.add c.aboff m.page)) m.page)⟩,
            .aboveGap start (m.add size m.page)⟩ := if_pos goesOn
      rw [show m.add c.aboff m.page =
        c.aboff + m.page from add_of_lt (lt_of_le_of_lt (le_extendAbove extended) fits),
        show m.add size m.page = size + m.page from add_of_lt (by omega)] at next
      exact ⟨n + 1, (runSteps_succ next _).trans ran⟩
    · rename_i ends
      cases extended
      exact ⟨0, aboveGap_ends ends⟩

/-- The first gap of one page leaves enough rounds to the inner loops. -/
private theorem enough_pages (m : Machine) (maxSize : Nat) :
    maxSize ≤ m.page + maxSize / m.page * m.page := by
  have rest := Nat.mod_lt maxSize m.page_pos
  have whole := Nat.div_add_mod' maxSize m.page
  omega

/-- A round below is one step, and those of the gap. -/
private theorem below_steps (valid : ∀ g ∈ segments, Valid m g.toMapping)
    (few : maxSize + m.page ≤ m.modulus)
    (turn : belowTurn c = true) (looked : lookBelow m segments low hi maxSize c = (next, room))
    (fits : next.beoff < m.modulus) :
    ∃ n, runSteps (step m segments low hi maxSize fn) (n + 1) ⟨c, .below⟩ =
      resumed fn room next .below := by
  unfold lookBelow at looked
  cases found : segmentGet segments (m.sub (center m low hi) c.beoff) with
  | none =>
    simp only [found] at looked
    generalize extended : extendBelow m segments low hi maxSize (maxSize / m.page)
      (m.sub (center m low hi) c.beoff) m.page
      (c.beoff + m.page) (m.checkRelativeJump hi (m.sub (center m low hi) (c.beoff + m.page))) =
        gap at looked
    obtain ⟨start', size', off', reachable'⟩ := gap
    cases looked
    have next : step m segments low hi maxSize fn ⟨c, .below⟩ = .inl
        ⟨⟨m.add c.beoff m.page, c.aboff,
          m.checkRelativeJump hi (m.sub (center m low hi) (m.add c.beoff m.page)), c.aboffIsReachable⟩,
          .belowGap (m.sub (center m low hi) c.beoff) m.page⟩ := by
      refine (if_pos turn).trans ?_
      simp only [found]
      rfl
    rw [add_of_lt (lt_of_le_of_lt (le_extendBelow extended) fits)] at next
    obtain ⟨n, ran⟩ := @belowGap_steps m low hi maxSize segments fn
      ⟨c.beoff + m.page, c.aboff,
        m.checkRelativeJump hi (m.sub (center m low hi) (c.beoff + m.page)), c.aboffIsReachable⟩
      _ _ _ _ _ _ _ few (enough_pages m maxSize) extended fits
    exact ⟨n + 1, (runSteps_succ next _).trans ran⟩
  | some seg =>
    simp only [found] at looked
    cases looked
    have own := valid seg (@TrampolineProofs.segmentGet_member ⟨segments, []⟩ _ _ found).1
    refine ⟨0, (runSteps_one _).trans ((if_pos turn).trans ?_)⟩
    simp only [found, GapSearch.growBelow, sub_of_le own.nonempty.le own.bound, add_of_lt fits,
      GapSearch.unlessAccepted, resumed]
    by_cases eligible : (seg.unused && m.checkRelativeJump hi seg.start) = true
    · simp [eligible]
    · simp [eligible]

/-- So is one above. -/
private theorem above_steps (valid : ∀ g ∈ segments, Valid m g.toMapping)
    (few : maxSize + m.page ≤ m.modulus)
    (turn : aboveTurn c = true) (looked : lookAbove m segments low hi maxSize c = (next, room))
    (fits : next.aboff < m.modulus) :
    ∃ n, runSteps (step m segments low hi maxSize fn) (n + 1) ⟨c, .above⟩ =
      resumed fn room next .above := by
  unfold lookAbove at looked
  cases found : segmentGet segments (m.add (center m low hi) c.aboff) with
  | none =>
    simp only [found] at looked
    generalize extended : extendAbove m segments low hi maxSize (maxSize / m.page) m.page
      (c.aboff + m.page)
      (m.checkRelativeJump low (m.add (m.add (center m low hi) (c.aboff + m.page)) m.page)) =
        gap at looked
    obtain ⟨size', off', reachable'⟩ := gap
    cases looked
    have next : step m segments low hi maxSize fn ⟨c, .above⟩ = .inl
        ⟨⟨c.beoff, m.add c.aboff m.page, c.beoffIsReachable,
            m.checkRelativeJump low (m.add (m.add (center m low hi) (m.add c.aboff m.page)) m.page)⟩,
          .aboveGap (m.add (center m low hi) c.aboff) m.page⟩ := by
      refine (if_pos turn).trans ?_
      simp only [found]
      rfl
    rw [show m.add c.aboff m.page =
      c.aboff + m.page from add_of_lt (lt_of_le_of_lt (le_extendAbove extended) fits)] at next
    obtain ⟨n, ran⟩ := @aboveGap_steps m low hi maxSize segments fn
      ⟨c.beoff, c.aboff + m.page, c.beoffIsReachable,
        m.checkRelativeJump low (m.add (m.add (center m low hi) (c.aboff + m.page)) m.page)⟩
      (m.add (center m low hi) c.aboff) _ _ _ _ _ few (enough_pages m maxSize) extended fits
    exact ⟨n + 1, (runSteps_succ next _).trans ran⟩
  | some seg =>
    simp only [found] at looked
    cases looked
    have own := valid seg (@TrampolineProofs.segmentGet_member ⟨segments, []⟩ _ _ found).1
    refine ⟨0, (runSteps_one _).trans ((if_pos turn).trans ?_)⟩
    simp only [found, GapSearch.growAbove, sub_of_le own.nonempty.le own.bound, add_of_lt fits,
      GapSearch.unlessAccepted, resumed]
    by_cases eligible : (seg.unused && m.checkRelativeJump low seg.stop) = true
    · simp [eligible]
    · simp [eligible]

/-- Neither offset wraps around. -/
def Fits (m : Machine) (c : Cursor) : Prop := c.beoff < m.modulus ∧ c.aboff < m.modulus

private def phaseOf (above : Bool) : Phase := if above then .above else .below

/-- What the search comes to when it meets these rooms in so many rounds: it returns that one was
accepted, or else it takes as many steps, or returns that there is none. -/
private structure Comes (machine : GapSearch.State → GapSearch.State ⊕ Bool) (fn : Room → Bool)
    (rounds : Nat) (rooms : List Room)
    (x : GapSearch.State) : Prop where
  accepts : rooms.any fn = true → Finishes machine x true
  refuses : rooms.any fn = false → Finishes machine x false ∨
      ∃ n t, rounds ≤ n ∧ runSteps machine n x = .inl t

section
variable {machine : GapSearch.State → GapSearch.State ⊕ Bool} {x y : GapSearch.State}
  {n rounds : Nat} {rooms : List Room} {a b : Bool}

private theorem finishes_later (ran : runSteps machine n x = .inl y)
    (finishes : Finishes machine y a) : Finishes machine x a := by
  obtain ⟨k, ended⟩ := finishes
  exact ⟨n + k, (runSteps_add ran k).trans ended⟩

/-- A machine has one result. -/
private theorem finishes_unique (one : Finishes machine x a) (other : Finishes machine x b) : a = b := by
  obtain ⟨n, ended⟩ := one
  obtain ⟨k, ended'⟩ := other
  have same := (runSteps_returned ended k).symm.trans (Nat.add_comm n k ▸ runSteps_returned ended' n)
  exact Sum.inr.inj same

private theorem comes_later (ran : runSteps machine (n + 1) x = .inl y)
    (comes : Comes machine fn rounds rooms y) :
    Comes machine fn (rounds + 1) rooms x where
  accepts accepted := finishes_later ran (comes.accepts accepted)
  refuses refused := by
    rcases comes.refuses refused with ended | ⟨k, t, enough, reached⟩
    · exact .inl (finishes_later ran ended)
    · exact .inr ⟨n + 1 + k, t, by omega, (runSteps_add ran k).trans reached⟩

private theorem comes_resumed {phase : Phase}
    (ran : runSteps machine (n + 1) x = resumed fn room next phase)
    (comes : Comes machine fn rounds rooms ⟨next, phase⟩) : Comes machine fn (rounds + 1)
    (room.toList ++ rooms) x := by
  have split : (room.toList ++ rooms).any fn = (room.any fn || rooms.any fn) := by
    cases room <;> simp
  by_cases accepted : room.any fn = true
  · rw [resumed, if_pos accepted] at ran
    exact ⟨fun _ => ⟨n + 1, ran⟩, fun refused => by simp [split, accepted] at refused⟩
  · rw [resumed, if_neg accepted] at ran
    have later := comes_later ran comes
    rw [Bool.not_eq_true] at accepted
    rw [accepted, Bool.false_or] at split
    exact ⟨fun some => later.accepts (split ▸ some), fun none => later.refuses (split ▸ none)⟩

end

private theorem iterRooms_below (steps : Nat) (turn : belowTurn c = true)
    (looked : lookBelow m segments low hi maxSize c = (next, room)) :
    iterRooms m segments low hi maxSize (fun _ => false) (steps + 1) false c [] =
      room.toList ++ iterRooms m segments low hi maxSize (fun _ => false) steps false next [] := by
  rw [iterRooms, if_pos turn, looked]
  cases room with
  | none => rfl
  | some room => exact iterRooms_calls segments steps false next [room]

private theorem iterRooms_above (steps : Nat) (turn : aboveTurn c = true)
    (looked : lookAbove m segments low hi maxSize c = (next, room)) :
    iterRooms m segments low hi maxSize (fun _ => false) (steps + 1) true c [] =
      room.toList ++ iterRooms m segments low hi maxSize (fun _ => false) steps true next [] := by
  rw [iterRooms, if_pos turn, looked]
  cases room with
  | none => rfl
  | some room => exact iterRooms_calls segments steps true next [room]

variable (fn) in
/-- So many rounds of the search are a run of the steps. -/
private theorem rounds_steps (valid : ∀ g ∈ s.segments, Valid m g.toMapping)
    (few : maxSize + m.page ≤ m.modulus) {first : Cursor}
    (fits : ∀ turn c, Reached m s low hi maxSize first turn c → Fits m c) (steps : Nat) {turn : Bool}
    (reached : Reached m s low hi maxSize first turn c) :
    Comes (step m s.segments low hi maxSize fn) fn steps
      (iterRooms m s.segments low hi maxSize (fun _ => false) steps turn c [])
      ⟨c, if turn then .above else .below⟩ := by
  induction steps generalizing turn c with
  | zero =>
    have none : iterRooms m s.segments low hi maxSize (fun _ => false) 0 turn c [] = [] :=
      by cases turn <;> rfl
    rw [none]
    exact ⟨nofun, fun _ => .inr ⟨0, _, le_rfl, rfl⟩⟩
  | succ steps ih =>
    cases turn with
    | false =>
      by_cases goesOn : belowTurn c = true
      · cases looked : lookBelow m s.segments low hi maxSize c with
        | mk next room =>
          have later := Reached.lower reached goesOn
          rw [looked] at later
          obtain ⟨n, ran⟩ := below_steps valid few goesOn looked (fits _ _ later).1
          rw [iterRooms_below steps goesOn looked]
          exact comes_resumed ran (ih later)
      · have ends : step m s.segments low hi maxSize fn ⟨c, .below⟩ = .inl ⟨c, .above⟩ := if_neg goesOn
        rw [iterRooms, if_neg goesOn]
        exact comes_later ((runSteps_one _).trans ends) (ih (.up reached (by simpa using goesOn)))
    | true =>
      by_cases goesOn : aboveTurn c = true
      · cases looked : lookAbove m s.segments low hi maxSize c with
        | mk next room =>
          have later := Reached.higher reached goesOn
          rw [looked] at later
          obtain ⟨n, ran⟩ := above_steps valid few goesOn looked (fits _ _ later).2
          rw [iterRooms_above steps goesOn looked]
          exact comes_resumed ran (ih later)
      · have ends : step m s.segments low hi maxSize fn ⟨c, .above⟩ = .inl ⟨c, .outer⟩ := if_neg goesOn
        rw [iterRooms, if_neg goesOn]
        split
        · rename_i reach
          have again : step m s.segments low hi maxSize fn ⟨c, .outer⟩ = .inl ⟨c, .below⟩ := if_pos reach
          have ran := (runSteps_succ ends 1).trans ((runSteps_one _).trans again)
          exact comes_later ran (ih (.down reached (by simpa using goesOn) reach))
        · rename_i out
          have last : step m s.segments low hi maxSize fn ⟨c, .outer⟩ = .inr false := if_neg out
          exact ⟨nofun, fun _ => .inl ⟨2, (runSteps_succ ends 1).trans ((runSteps_one _).trans last)⟩⟩

/-- As long as no offset wraps around, the search step by step accepts a room exactly if the rounds
of the two loops meet one that is accepted. -/
theorem search_accepts_iff (valid : ∀ g ∈ s.segments, Valid m g.toMapping)
    (few : maxSize + m.page ≤ m.modulus) {owner : Segment}
    (fits : ∀ turn c, Reached m s low hi maxSize (startCursor m owner low hi) turn c → Fits m c) :
    Finishes (step m s.segments low hi maxSize fn) (GapSearch.start m low hi owner) true ↔
      ∃ steps, (iterFreeSegments m s.segments low hi maxSize owner (fun _ => false) steps).any fn =
        true := by
  have comes := fun steps => rounds_steps fn valid few fits steps .start
  by_cases reach : ((startCursor m owner low hi).beoffIsReachable ||
      (startCursor m owner low hi).aboffIsReachable) = true
  · have first : step m s.segments low hi maxSize fn (GapSearch.start m low hi owner) =
        .inl ⟨startCursor m owner low hi, .below⟩ :=
      if_pos reach
    constructor
    · intro finishes
      by_contra never
      obtain ⟨n, ended⟩ := finishes
      have refused := Bool.eq_false_iff.mpr (not_exists.mp never n)
      rcases (comes n).refuses refused with none | ⟨k, t, enough, ran⟩
      · exact absurd (finishes_unique ⟨n, ended⟩ (finishes_next first none)) (by decide)
      · have late := runSteps_returned ended (k + 1 - n)
        rw [show n + (k + 1 - n) = k + 1 by omega, runSteps_succ first] at late
        cases late.symm.trans ran
    · rintro ⟨steps, accepted⟩
      exact finishes_next first ((comes steps).accepts accepted)
  · have last : step m s.segments low hi maxSize fn (GapSearch.start m low hi owner) = .inr false :=
      if_neg reach
    have out : belowTurn (startCursor m owner low hi) = false ∧
        aboveTurn (startCursor m owner low hi) = false := by
      simp [belowTurn, aboveTurn] at reach ⊢
      simp [reach]
    constructor
    · intro finishes
      exact absurd (finishes_unique finishes (finishes_now last)) (by decide)
    · rintro ⟨steps, accepted⟩
      have none : iterFreeSegments m s.segments low hi maxSize owner (fun _ => false) steps = [] := by
        rcases steps with _ | _ | steps
        · rfl
        · simp [iterFreeSegments, iterRooms, out]
        · simp [iterFreeSegments, iterRooms, out, reach]
      rw [none] at accepted
      cases accepted

/-! ## No offset wraps -/

section
open Adbi.GapSearchProofs

variable {t : Target} {owner : Segment}

/-- Both offsets are addresses, and the place of one that is in reach is counted without going around. -/
private structure Unwrapped (t : Target) (low hi : Nat) (c : Cursor) : Prop where
  fits : Fits t.machine c
  below : c.beoffIsReachable = true →
    belowPlace t low hi c.beoff ≤ 2 * range t ∧ belowPlace t low hi c.beoff =
      belowPlace t low hi 0 + c.beoff
  above : c.aboffIsReachable = true → hi - low ≤ range t ∧
    abovePlace t low hi c.aboff ≤ 2 * aboveReach t low hi ∧ abovePlace t low hi c.aboff =
      c.aboff + aboveReach t low hi

private theorem grow_below (unwrapped : Unwrapped t low hi c) (reachable : c.beoffIsReachable = true)
    (small : size + 4 * range t ≤ t.machine.modulus) :
    Unwrapped t low hi ⟨c.beoff + size, c.aboff,
      t.machine.checkRelativeJump hi (t.machine.sub (center t.machine low hi) (c.beoff + size)),
      c.aboffIsReachable⟩ := by
  obtain ⟨place, plain⟩ := unwrapped.below reachable
  have grown := belowPlace_grow place small
  have inside : belowPlace t low hi (t.machine.add c.beoff size) < t.machine.modulus :=
    Nat.mod_lt _ t.machine.modulus_pos
  have fits : c.beoff + size < t.machine.modulus := by omega
  rw [add_of_lt fits] at grown
  exact ⟨⟨fits, unwrapped.fits.2⟩,
    fun reaches => ⟨belowPlace_le reaches, grown.trans (by rw [plain, Nat.add_assoc])⟩,
    unwrapped.above⟩

private theorem grow_above (ordered : low ≤ hi) (within : hi < t.machine.modulus)
    (unwrapped : Unwrapped t low hi c)
    (reachable : c.aboffIsReachable = true) (small : size + 4 * range t ≤ t.machine.modulus) {dest : Nat}
    (checked : Checked t low hi (c.aboff + size) dest) :
    Unwrapped t low hi ⟨c.beoff, c.aboff + size, c.beoffIsReachable,
      t.machine.checkRelativeJump low dest⟩ := by
  obtain ⟨short, place, plain⟩ := unwrapped.above reachable
  have grown := abovePlace_grow short place small
  have inside : abovePlace t low hi (t.machine.add c.aboff size) < t.machine.modulus :=
    Nat.mod_lt _ t.machine.modulus_pos
  have fits : c.aboff + size < t.machine.modulus := by omega
  rw [add_of_lt fits] at grown
  exact ⟨⟨unwrapped.fits.1, fits⟩, unwrapped.below,
    fun reaches => ⟨short, abovePlace_le ordered within short checked reaches,
      grown.trans (by rw [plain, Nat.add_right_comm])⟩⟩

private theorem extendBelow_unwrapped (unwrapped : Unwrapped t low hi c)
    (extended : extendBelow t.machine segments low hi maxSize
      pages start size c.beoff c.beoffIsReachable = (start', size', off', reachable')) :
    Unwrapped t low hi ⟨off', c.aboff, reachable', c.aboffIsReachable⟩ := by
  induction pages generalizing c start size with
  | zero =>
    cases extended
    exact unwrapped
  | succ pages ih =>
    rw [extendBelow] at extended
    split at extended
    · rename_i goesOn
      simp only [Bool.and_eq_true] at goesOn
      have grown := grow_below unwrapped goesOn.1.2 (page_small t)
      have later := ih grown extended
      exact later
    · cases extended
      exact unwrapped

private theorem extendAbove_unwrapped (ordered : low ≤ hi) (within : hi < t.machine.modulus)
    (unwrapped : Unwrapped t low hi c)
    (extended : extendAbove t.machine segments low hi maxSize pages size c.aboff
      c.aboffIsReachable = (size', off', reachable')) :
    Unwrapped t low hi ⟨c.beoff, off', c.beoffIsReachable, reachable'⟩ := by
  induction pages generalizing c size with
  | zero =>
    cases extended
    exact unwrapped
  | succ pages ih =>
    rw [extendAbove] at extended
    split at extended
    · rename_i goesOn
      simp only [Bool.and_eq_true] at goesOn
      have grown := grow_above ordered within unwrapped goesOn.1.2 (page_small t) (.inr (.inr rfl))
      have later := ih grown extended
      exact later
    · cases extended
      exact unwrapped

private theorem lookBelow_unwrapped (small : Small t segments) (unwrapped : Unwrapped t low hi c)
    (turn : belowTurn c = true)
    (looked : lookBelow t.machine segments low hi maxSize c = (next, room)) :
    Unwrapped t low hi next := by
  have reachable : c.beoffIsReachable = true := (Bool.and_eq_true_iff.mp turn).1
  unfold lookBelow at looked
  cases found : segmentGet segments (t.machine.sub (center t.machine low hi) c.beoff) with
  | none =>
    simp only [found] at looked
    generalize extended : extendBelow t.machine segments low hi maxSize _ _ t.machine.page _ _ =
      gap at looked
    obtain ⟨start', size', off', reachable'⟩ := gap
    cases looked
    have extends_ := extendBelow_unwrapped (grow_below unwrapped reachable (page_small t)) extended
    exact extends_
  | some seg =>
    simp only [found] at looked
    cases looked
    have member := (@TrampolineProofs.segmentGet_member ⟨segments, []⟩ _ _ found).1
    exact grow_below unwrapped reachable (small seg member)

private theorem lookAbove_unwrapped (ordered : low ≤ hi) (within : hi < t.machine.modulus)
    (small : Small t segments)
    (unwrapped : Unwrapped t low hi c) (turn : aboveTurn c = true)
    (looked : lookAbove t.machine segments low hi maxSize c = (next, room)) :
    Unwrapped t low hi next := by
  have reachable : c.aboffIsReachable = true := (Bool.and_eq_true_iff.mp turn).1
  unfold lookAbove at looked
  cases found : segmentGet segments (t.machine.add (center t.machine low hi) c.aboff) with
  | none =>
    simp only [found] at looked
    generalize extended : extendAbove t.machine segments low hi maxSize _ t.machine.page _ _ =
      gap at looked
    obtain ⟨size', off', reachable'⟩ := gap
    cases looked
    have grown := grow_above ordered within unwrapped reachable (page_small t) (.inl rfl)
    have extends_ := extendAbove_unwrapped ordered within grown extended
    exact extends_
  | some seg =>
    simp only [found] at looked
    cases looked
    have member := (@TrampolineProofs.segmentGet_member ⟨segments, []⟩ _ _ found).1
    exact grow_above ordered within unwrapped reachable (small seg member) (.inr (.inl rfl))

private theorem eq_of_dvd {N x : Nat} {y : Int} (same : (N : Int) ∣ x - y) (small : x < N)
    (nonneg : 0 ≤ y) (bound : y < N) :
    (x : Int) = y := by
  have zero := Int.eq_zero_of_abs_lt_dvd same (abs_lt.mpr ⟨by omega, by omega⟩)
  omega

private theorem belowPlace_dvd (t : Target) (low hi off : Nat) :
    (t.machine.modulus : Int) ∣ belowPlace t low hi off -
      (hi + ahead t + range t - center t.machine low hi + off) := by
  have bound : t.machine.sub (center t.machine low hi) off < t.machine.modulus :=
    Nat.mod_lt _ t.machine.modulus_pos
  obtain ⟨k, whole⟩ := mod_dvd t.machine.modulus
    (hi + ahead t + range t + (t.machine.modulus - t.machine.sub (center t.machine low hi) off))
  obtain ⟨l, difference⟩ := sub_dvd t.machine (center t.machine low hi) off
  have split : ((t.machine.modulus - t.machine.sub (center t.machine low hi) off : Nat) : Int) =
      t.machine.modulus - t.machine.sub (center t.machine low hi) off := by omega
  refine ⟨k + 1 - l, ?_⟩
  unfold belowPlace
  push_cast [split] at whole ⊢
  linear_combination whole - difference

/-- The offsets at the start reach from the middle of the tracepoints to the ends of the segment. -/
private theorem start_unwrapped (around : Around t segments owner low hi) (small : Small t segments) :
    Unwrapped t low hi (startCursor t.machine owner low hi) := by
  have own := small owner around.member
  have bound := (around.valid owner around.member).bound
  have from_start := around.from_start
  have ordered := around.ordered
  have before_stop := around.before_stop
  have within : hi < t.machine.modulus := lt_trans before_stop bound
  have page := page_eq t
  have large := range_large t
  have few : ahead t ≤ 8 := by cases t <;> decide
  obtain ⟨e, one, top, k, near⟩ := center_near ordered within
  refine ⟨⟨Nat.mod_lt _ t.machine.modulus_pos, Nat.mod_lt _ t.machine.modulus_pos⟩,
    fun reaches => ?_, fun reaches => ?_⟩
  · have first : ((startCursor t.machine owner low hi).beoff : Int) =
        low + ((hi - low) / 2 : Nat) - e - owner.start + 4096 := by
      obtain ⟨k₁, sum⟩ := add_dvd t.machine (t.machine.sub (center t.machine low hi) owner.start)
        t.machine.page
      obtain ⟨k₂, difference⟩ := sub_dvd t.machine (center t.machine low hi) owner.start
      refine eq_of_dvd ⟨k₁ + k₂ + k, ?_⟩ (Nat.mod_lt _ t.machine.modulus_pos) (by omega) (by omega)
      rw [page] at sum
      simp only [startCursor, page]
      rw [Nat.cast_ofNat] at sum
      linear_combination sum + difference + near
    have zero : (belowPlace t low hi 0 : Int) =
        hi + ahead t + range t - (low + ((hi - low) / 2 : Nat) - e) := by
      obtain ⟨l, place⟩ := belowPlace_dvd t low hi 0
      refine eq_of_dvd ⟨l - k, ?_⟩ (Nat.mod_lt _ t.machine.modulus_pos) (by omega) (by omega)
      push_cast at place
      linear_combination place - near
    have whole : (belowPlace t low hi (startCursor t.machine owner low hi).beoff : Int) =
        hi + ahead t + range t - owner.start + 4096 := by
      obtain ⟨l, place⟩ := belowPlace_dvd t low hi (startCursor t.machine owner low hi).beoff
      refine eq_of_dvd ⟨l - k, ?_⟩ (Nat.mod_lt _ t.machine.modulus_pos) (by omega) (by omega)
      rw [first] at place
      linear_combination place - near
    exact ⟨belowPlace_le reaches, by omega⟩
  · have short := start_short around small reaches
    have first : ((startCursor t.machine owner low hi).aboff : Int) =
        owner.stop - (low + ((hi - low) / 2 : Nat) - e) := by
      obtain ⟨l, difference⟩ := sub_dvd t.machine owner.stop (center t.machine low hi)
      refine eq_of_dvd ⟨l - k, ?_⟩ (Nat.mod_lt _ t.machine.modulus_pos) (by omega) (by omega)
      simp only [startCursor]
      linear_combination difference - near
    refine ⟨short, abovePlace_le ordered within short (.inl rfl) reaches, Nat.mod_eq_of_lt ?_⟩
    unfold aboveReach
    omega

/-- No offset that the rounds come to has wrapped around. -/
theorem reached_fits (around : Around t s.segments owner low hi) (small : Small t s.segments)
    {turn : Bool}
    (reached : Reached t.machine s low hi maxSize (startCursor t.machine owner low hi) turn c) :
    Fits t.machine c := by
  have within : hi < t.machine.modulus :=
    lt_trans around.before_stop (around.valid owner around.member).bound
  have unwrapped : Unwrapped t low hi c := by
    induction reached with
    | start => exact start_unwrapped around small
    | lower before turn ih => exact lookBelow_unwrapped small ih turn rfl
    | up before ends ih => exact ih
    | higher before turn ih => exact lookAbove_unwrapped around.ordered within small ih turn rfl
    | down before ends reach ih => exact ih
  exact unwrapped.fits

/-- The search step by step accepts a room exactly if the rounds of the two loops meet one that is
accepted, unless a segment takes up nearly all addresses. -/
theorem steps_accept_iff (around : Around t s.segments owner low hi) (small : Small t s.segments)
    (few : maxSize + t.machine.page ≤ t.machine.modulus) (fn : Room → Bool) :
    Finishes (step t.machine s.segments low hi maxSize fn)
    (GapSearch.start t.machine low hi owner) true ↔
      ∃ steps, (iterFreeSegments t.machine s.segments low hi maxSize owner (fun _ => false)
        steps).any fn = true :=
  search_accepts_iff around.valid few fun _ _ reached => reached_fits around small reached

end

end Adbi.GapRounds
