import Adbi.GapSearch
import Adbi.TrampolineProofs
import Mathlib.Tactic.LinearCombination

/-! The search around tracepoints ends when no room is accepted, as long as no segment is
so large that the steps over it go around the whole address space. The offsets only grow;
while a side is reachable its offset is in a window, and each step is too small to leave
the window on one end and to come back at the other. -/
namespace Adbi.GapSearchProofs
open Adbi.Lib Adbi.Trampoline Adbi.GapSearch
open Adbi.TrampolineProofs (Valid Apart)

/-! ## Addresses modulo the size of a word -/

private theorem add_lt (m : Machine) (a b : Nat) : m.add a b < m.modulus := Nat.mod_lt _ m.modulus_pos

private theorem sub_lt (m : Machine) (a b : Nat) : m.sub a b < m.modulus := Nat.mod_lt _ m.modulus_pos

theorem mod_dvd (N x : Nat) : (N : Int) ∣ (x % N : Nat) - x := by
  rw [Int.natCast_mod]
  exact Int.dvd_sub_self_of_emod_eq rfl

theorem add_dvd (m : Machine) (a b : Nat) : (m.modulus : Int) ∣ m.add a b - (a + b) := by
  have whole := mod_dvd m.modulus (a + b)
  rwa [Int.natCast_add] at whole

theorem sub_dvd (m : Machine) (a b : Nat) : (m.modulus : Int) ∣ m.sub a b - (a - b) := by
  obtain ⟨k, rest⟩ := mod_dvd m.modulus b
  obtain ⟨l, whole⟩ := mod_dvd m.modulus (a + (m.modulus - b % m.modulus))
  have inside := Nat.mod_lt b m.modulus_pos
  have split : ((a + (m.modulus - b % m.modulus) : Nat) : Int) =
      a + m.modulus - (b % m.modulus : Nat) := by omega
  rw [split] at whole
  exact ⟨l + 1 - k, by rw [Machine.sub]; linear_combination whole - rest⟩

/-- A number that differs from a small one by a multiple of the modulus. -/
private theorem mod_le {N x bound : Nat} {d : Int} (low : 0 ≤ d) (high : d ≤ bound) (small : bound < N)
    (same : (N : Int) ∣ x - d) : x % N ≤ bound := by
  have rest : (x : Int) % N = d := by
    rw [Int.emod_eq_emod_iff_emod_sub_eq_zero.mpr (Int.emod_eq_zero_of_dvd same)]
    exact Int.emod_eq_of_lt low (by omega)
  omega

/-! ## The window of a branch -/

/-- How far a branch goes at most. -/
def range : Target → Nat
  | .arm64 => 134217728
  | .arm => 33554432

/-- How far the pc is ahead of the instruction. -/
def ahead : Target → Nat
  | .arm64 => 0
  | .arm => 8

variable {t : Target} {segments : List Segment} {owner : Segment} {low hi maxSize : Nat}

/-- What a branch reaches is in the window around it, also across the last address. -/
private theorem check_window {x y : Nat} (reaches : t.machine.checkRelativeJump x y = true) :
    ∃ d : Int, -range t ≤ d ∧ d ≤ range t ∧ (t.machine.modulus : Int) ∣ y - (x + ahead t + d) := by
  cases t with
  | arm64 =>
    refine ⟨y - x, ?_, ?_, 0, by simp [ahead]⟩ <;>
      simp only [Target.machine, arm64, inBranchRange, range] at * <;>
      split at reaches <;> simp only [decide_eq_true_eq] at reaches <;> omega
  | arm =>
    have pc := mod_dvd (2 ^ 32) (x + 8)
    refine ⟨y - ((x + 8) % 2 ^ 32 : Nat), ?_, ?_, ?_⟩
    · simp only [Target.machine, arm, inBranchRange, range] at *
      split at reaches <;> simp only [decide_eq_true_eq] at reaches <;> omega
    · simp only [Target.machine, arm, inBranchRange, range] at *
      split at reaches <;> simp only [decide_eq_true_eq] at reaches <;> omega
    · obtain ⟨k, pc⟩ := pc
      exact ⟨k, by simp only [ahead, Target.machine, arm]; rw [← pc]; push_cast; ring⟩

/-- The page from which the offsets count is just below the middle of the tracepoints. -/
theorem center_near (ordered : low ≤ hi) (inside : hi < t.machine.modulus) :
    ∃ e : Int, 1 ≤ e ∧ e ≤ 4096 ∧
      (t.machine.modulus : Int) ∣ center t.machine low hi - (low + ((hi - low) / 2 : Nat) - e) := by
  have near : 1 ≤ (low + (hi - low) / 2 + (t.machine.modulus - center t.machine low hi)) %
      t.machine.modulus ∧
      (low + (hi - low) / 2 + (t.machine.modulus - center t.machine low hi)) % t.machine.modulus ≤
        4096 := by
    cases t with
    | arm64 =>
      simp only [Target.machine, arm64, center, Machine.alignToPage, Machine.add, Machine.sub] at *
      omega
    | arm =>
      simp only [Target.machine, arm, center, Machine.alignToPage, Machine.add, Machine.sub] at *
      omega
  have bound : center t.machine low hi < t.machine.modulus := sub_lt _ _ _
  obtain ⟨k, rest⟩ := mod_dvd t.machine.modulus
    (low + (hi - low) / 2 + (t.machine.modulus - center t.machine low hi))
  have split : ((low + (hi - low) / 2 + (t.machine.modulus - center t.machine low hi) : Nat) : Int) =
      low + ((hi - low) / 2 : Nat) + t.machine.modulus - center t.machine low hi := by omega
  rw [split] at rest
  refine ⟨((low + (hi - low) / 2 + (t.machine.modulus - center t.machine low hi)) %
    t.machine.modulus : Nat),
    by omega, by omega, k + 1, by linear_combination rest⟩

/-- Where the search below is in the window, counted downwards. -/
def belowPlace (t : Target) (low hi beoff : Nat) : Nat :=
  (hi + ahead t + range t + (t.machine.modulus - t.machine.sub (center t.machine low hi) beoff)) %
    t.machine.modulus

/-- Half the window of the search above, in which also the addresses mirrored at the
center are. -/
def aboveReach (t : Target) (low hi : Nat) : Nat := range t + (hi - low) / 2 + 2 * 4096 + 8

/-- Where the search above is in it, counted upwards. -/
def abovePlace (t : Target) (low hi aboff : Nat) : Nat :=
  (aboff + aboveReach t low hi) % t.machine.modulus

theorem belowPlace_grow {beoff size : Nat} (place : belowPlace t low hi beoff ≤ 2 * range t)
    (small : size + 4 * range t ≤ t.machine.modulus) :
    belowPlace t low hi (t.machine.add beoff size) = belowPlace t low hi beoff + size := by
  generalize isCenter : center t.machine low hi = addr
  cases t with
  | arm64 =>
    simp only [belowPlace, isCenter, Target.machine, arm64, ahead, range, Machine.add, Machine.sub] at *
    omega
  | arm =>
    simp only [belowPlace, isCenter, Target.machine, arm, ahead, range, Machine.add, Machine.sub] at *
    omega

theorem abovePlace_grow {aboff size : Nat} (short : hi - low ≤ range t)
    (place : abovePlace t low hi aboff ≤ 2 * aboveReach t low hi)
    (small : size + 4 * range t ≤ t.machine.modulus) :
    abovePlace t low hi (t.machine.add aboff size) = abovePlace t low hi aboff + size := by
  cases t with
  | arm64 =>
    simp only [abovePlace, aboveReach, Target.machine, arm64, range, Machine.add] at *
    omega
  | arm =>
    simp only [abovePlace, aboveReach, Target.machine, arm, range, Machine.add] at *
    omega

private theorem range_small (t : Target) : 4 * range t < t.machine.modulus := by
  cases t <;> decide

/-- A reachable address is in the window. -/
theorem belowPlace_le {beoff : Nat}
    (reaches : t.machine.checkRelativeJump hi (t.machine.sub (center t.machine low hi) beoff) = true) :
    belowPlace t low hi beoff ≤ 2 * range t := by
  obtain ⟨d, low', high, k, window⟩ := check_window reaches
  have bound := sub_lt t.machine (center t.machine low hi) beoff
  have small := range_small t
  refine mod_le (d := range t - d) (by omega) (by push_cast; omega) (by omega) ⟨1 - k, ?_⟩
  have split : ((t.machine.modulus - t.machine.sub (center t.machine low hi) beoff : Nat) : Int) =
      t.machine.modulus - t.machine.sub (center t.machine low hi) beoff := by omega
  push_cast [split]
  linear_combination -window

/-- The addresses that the search above checks for an offset. -/
def Checked (t : Target) (low hi aboff dest : Nat) : Prop :=
  dest = t.machine.add (t.machine.add (center t.machine low hi) aboff) t.machine.page ∨
  dest = t.machine.add (center t.machine low hi) aboff ∨
  dest = t.machine.add (t.machine.sub (center t.machine low hi) aboff) t.machine.page

theorem page_eq (t : Target) : t.machine.page = 4096 := by
  cases t <;> rfl

theorem range_large (t : Target) : 33554432 ≤ range t := by
  cases t <;> decide

/-- An offset that differs from a distance within reach by a multiple of the modulus. -/
private theorem abovePlace_of_dvd (short : hi - low ≤ range t) {aboff : Nat} (distance : Int)
    (near : -aboveReach t low hi ≤ distance) (near' : distance ≤ aboveReach t low hi)
    (same : (t.machine.modulus : Int) ∣ aboff - distance) :
    abovePlace t low hi aboff ≤ 2 * aboveReach t low hi := by
  obtain ⟨k, apart⟩ := same
  have small := range_small t
  have large := range_large t
  have fits : 2 * aboveReach t low hi < t.machine.modulus := by
    unfold aboveReach
    omega
  refine mod_le (d := distance + aboveReach t low hi) (by omega) (by push_cast; omega) fits ⟨k, ?_⟩
  push_cast
  linear_combination apart

theorem abovePlace_le (ordered : low ≤ hi) (inside : hi < t.machine.modulus) (short : hi - low ≤ range t)
    {aboff dest : Nat} (checked : Checked t low hi aboff dest)
    (reaches : t.machine.checkRelativeJump low dest = true) :
    abovePlace t low hi aboff ≤ 2 * aboveReach t low hi := by
  obtain ⟨e, one, page, k, near⟩ := center_near ordered inside
  obtain ⟨d, low', high, l, window⟩ := check_window reaches
  have few : ahead t ≤ 8 := by cases t <;> decide
  have reach : (aboveReach t low hi : Int) = range t + ((hi - low) / 2 : Nat) + 8200 := by
    unfold aboveReach
    push_cast
    ring
  have page' := page_eq t
  rcases checked with rfl | rfl | rfl
  · obtain ⟨k₁, sum₁⟩ := add_dvd t.machine (t.machine.add (center t.machine low hi) aboff) t.machine.page
    obtain ⟨k₂, sum₂⟩ := add_dvd t.machine (center t.machine low hi) aboff
    refine abovePlace_of_dvd short (ahead t + d - t.machine.page - ((hi - low) / 2 : Nat) + e) (by omega)
      (by omega) ⟨l - k₁ - k₂ - k, ?_⟩
    linear_combination window - sum₁ - sum₂ - near
  · obtain ⟨k₁, sum₁⟩ := add_dvd t.machine (center t.machine low hi) aboff
    refine abovePlace_of_dvd short (ahead t + d - ((hi - low) / 2 : Nat) + e) (by omega) (by omega)
      ⟨l - k₁ - k, ?_⟩
    linear_combination window - sum₁ - near
  · obtain ⟨k₁, sum⟩ := add_dvd t.machine (t.machine.sub (center t.machine low hi) aboff) t.machine.page
    obtain ⟨k₂, difference⟩ := sub_dvd t.machine (center t.machine low hi) aboff
    refine abovePlace_of_dvd short (t.machine.page + ((hi - low) / 2 : Nat) - e - ahead t - d) (by omega)
      (by omega) ⟨k - l + k₁ + k₂, ?_⟩
    linear_combination near - window + sum + difference

/-! ## One step -/

/-- The offsets of the sides that are reachable are in their windows. -/
structure Windowed (t : Target) (low hi : Nat) (s : State) : Prop where
  below : s.beoffIsReachable = true → belowPlace t low hi s.beoff ≤ 2 * range t
  above : s.aboffIsReachable = true → hi - low ≤ range t ∧
      abovePlace t low hi s.aboff ≤ 2 * aboveReach t low hi

/-- What is left of the window below. -/
def belowLeft (t : Target) (low hi : Nat) (s : State) : Nat :=
  if s.beoffIsReachable then 2 * range t + 1 - belowPlace t low hi s.beoff else 0

/-- What is left of the window above. -/
def aboveLeft (t : Target) (low hi : Nat) (s : State) : Nat :=
  if s.aboffIsReachable then 2 * aboveReach t low hi + 1 - abovePlace t low hi s.aboff else 0

/-- What the segments must leave free for the steps over them not to go around. -/
def Small (t : Target) (segments : List Segment) : Prop :=
  ∀ g ∈ segments, g.stop - g.start + 4 * range t ≤ t.machine.modulus

private theorem grow_below {s : State} (windowed : Windowed t low hi s)
    (reachable : s.beoffIsReachable = true) {size : Nat}
    (positive : 0 < size) (small : size + 4 * range t ≤ t.machine.modulus) (phase : Phase) :
    Windowed t low hi (growBelow t.machine low hi s size phase) ∧
      belowLeft t low hi (growBelow t.machine low hi s size phase) < belowLeft t low hi s ∧
      aboveLeft t low hi (growBelow t.machine low hi s size phase) = aboveLeft t low hi s := by
  have place := windowed.below reachable
  have grown := belowPlace_grow place small
  refine ⟨⟨belowPlace_le, windowed.above⟩, ?_, rfl⟩
  unfold belowLeft
  rw [if_pos reachable]
  by_cases still : (growBelow t.machine low hi s size phase).beoffIsReachable
  · rw [if_pos still]
    have place' : belowPlace t low hi (growBelow t.machine low hi s size phase).beoff = _ := grown
    omega
  · rw [if_neg still]
    omega

private theorem grow_above {s : State} (ordered : low ≤ hi) (inside : hi < t.machine.modulus)
    (windowed : Windowed t low hi s) (reachable : s.aboffIsReachable = true) {size : Nat}
    (positive : 0 < size)
    (small : size + 4 * range t ≤ t.machine.modulus) {dest : Nat → Nat}
    (checked : ∀ aboff, Checked t low hi aboff (dest aboff))
    (phase : Phase) :
    Windowed t low hi (growAbove t.machine low s size dest phase) ∧
      belowLeft t low hi (growAbove t.machine low s size dest phase) = belowLeft t low hi s ∧
      aboveLeft t low hi (growAbove t.machine low s size dest phase) < aboveLeft t low hi s := by
  obtain ⟨short, place⟩ := windowed.above reachable
  have grown := abovePlace_grow short place small
  refine ⟨⟨windowed.below, fun reaches =>
    ⟨short, abovePlace_le ordered inside short (checked _) reaches⟩⟩, rfl, ?_⟩
  unfold aboveLeft
  rw [if_pos reachable]
  by_cases still : (growAbove t.machine low s size dest phase).aboffIsReachable
  · rw [if_pos still]
    have place' : abovePlace t low hi (growAbove t.machine low s size dest phase).aboff = _ := grown
    omega
  · rw [if_neg still]
    omega

/-- Whether the loop below goes on. -/
def belowTurn (s : State) : Bool := s.beoffIsReachable && (s.beoff ≤ s.aboff || !s.aboffIsReachable)

/-- Whether the loop above goes on. -/
def aboveTurn (s : State) : Bool := s.aboffIsReachable && (s.aboff ≤ s.beoff || !s.beoffIsReachable)

/-- One of the loops goes on while a side is reachable. -/
theorem some_turn {s : State} (stuck : belowTurn s = false) (stuck' : aboveTurn s = false) :
    (s.beoffIsReachable || s.aboffIsReachable) = false := by
  unfold belowTurn at stuck
  unfold aboveTurn at stuck'
  have ordered := Nat.le_total s.beoff s.aboff
  cases below : s.beoffIsReachable with
  | false => simpa [below] using stuck'
  | true =>
    cases above : s.aboffIsReachable with
    | false => simp [below, above] at stuck
    | true =>
      simp [below, above] at stuck stuck'
      omega

/-- Between the steps that make an offset grow, the place in the code. Where the loop above
does not go on, it still has to go to the outer loop before the loop below goes on. -/
def rank (s : State) : Nat :=
  match s.phase with
  | .outer => if s.beoffIsReachable || s.aboffIsReachable then 3 else 0
  | .below => 2
  | .belowGap _ _ => 5
  | .above => if aboveTurn s then 1 else if s.beoffIsReachable || s.aboffIsReachable then 4 else 1
  | .aboveGap _ _ => 5

def measure (t : Target) (low hi : Nat) (s : State) : Nat :=
  8 * (belowLeft t low hi s + aboveLeft t low hi s) + rank s

private theorem rank_le (s : State) : rank s ≤ 5 := by
  unfold rank
  grind

/-- The callback that accepts nothing. -/
def refuse (_ : Room) : Bool := false

/-- A step over a segment or a page makes its side smaller, whatever is tested next. -/
private theorem measure_grow {s s' : State}
    (lower : belowLeft t low hi s' + aboveLeft t low hi s' < belowLeft t low hi s + aboveLeft
      t low hi s) :
    measure t low hi s' < measure t low hi s := by
  have bound := rank_le s'
  unfold measure
  omega

/-- A step to another place in the code leaves the windows alone. -/
private theorem measure_phase {s : State} {phase : Phase}
    (lower : rank { s with phase := phase } < rank s) :
    measure t low hi { s with phase := phase } < measure t low hi s := by
  unfold measure
  exact Nat.add_lt_add_left lower _

/-- The size of a segment that is found. -/
theorem found_size {x : Nat} {seg : Segment} (valid : ∀ g ∈ segments, Valid t.machine g.toMapping)
    (small : Small t segments) (found : segmentGet segments x = some seg) :
    0 < t.machine.sub seg.stop seg.start ∧
    t.machine.sub seg.stop seg.start + 4 * range t ≤ t.machine.modulus := by
  have member : seg ∈ segments := (TrampolineProofs.segmentGet_member (s := ⟨segments, []⟩) found).1
  have nonempty := (valid seg member).nonempty
  have bound := (valid seg member).bound
  have size : t.machine.sub seg.stop seg.start = seg.stop - seg.start := by
    rw [Machine.sub, Nat.mod_eq_of_lt (by omega : seg.start < t.machine.modulus)]
    have whole : seg.stop + (t.machine.modulus - seg.start) =
        seg.stop - seg.start + t.machine.modulus := by omega
    rw [whole, Nat.add_mod_right, Nat.mod_eq_of_lt (by omega)]
  rw [size]
  exact ⟨by omega, small seg member⟩

/-- The step leads to a state with a smaller measure, or it is the last one. -/
private def Progress (t : Target) (segments : List Segment) (low hi maxSize : Nat) (s : State) : Prop :=
  (∃ s', step t.machine segments low hi maxSize refuse s = .inl s' ∧ Windowed t low hi s' ∧
    measure t low hi s' < measure t low hi s) ∨
    step t.machine segments low hi maxSize refuse s = .inr false

private theorem progress_phase {s : State} (windowed : Windowed t low hi s) {phase : Phase}
    (next : step t.machine segments low hi maxSize refuse s = .inl { s with phase := phase })
    (lower : rank { s with phase := phase } < rank s) : Progress t segments low hi maxSize s :=
  .inl ⟨_, next, ⟨windowed.below, windowed.above⟩, measure_phase lower⟩

theorem page_small (t : Target) : t.machine.page + 4 * range t ≤ t.machine.modulus := by
  cases t <;> decide

section Steps

variable {s : State}

private theorem progress_outer (windowed : Windowed t low hi s) (phase : s.phase = .outer) :
    Progress t segments low hi maxSize s := by
  by_cases more : (s.beoffIsReachable || s.aboffIsReachable) = true
  · have next : step t.machine segments low hi maxSize refuse s = .inl { s with phase := .below } := by
      simp only [step, phase, more, if_true]
    refine progress_phase windowed next ?_
    simp only [rank, phase, more, if_true]
    decide
  · exact .inr (by simp only [step, phase, more, Bool.false_eq_true, if_false])

private theorem progress_below (valid : ∀ g ∈ segments, Valid t.machine g.toMapping)
    (small : Small t segments)
    (windowed : Windowed t low hi s) (phase : s.phase = .below) :
    Progress t segments low hi maxSize s := by
  by_cases turn : belowTurn s = true
  · have reachable : s.beoffIsReachable = true := (Bool.and_eq_true_iff.mp turn).1
    cases found : segmentGet segments (t.machine.sub (center t.machine low hi) s.beoff) with
    | none =>
      obtain ⟨windowed', lower, same⟩ := grow_below windowed reachable t.machine.page_pos (page_small t)
        (.belowGap (t.machine.sub (center t.machine low hi) s.beoff) t.machine.page)
      refine .inl ⟨_, ?_, windowed', measure_grow (by omega)⟩
      simp only [step, phase]
      exact (if_pos turn).trans (by rw [found])
    | some seg =>
      obtain ⟨positive, fits⟩ := found_size valid small found
      obtain ⟨windowed', lower, same⟩ := grow_below windowed reachable positive fits .below
      refine .inl ⟨_, ?_, windowed', measure_grow (by omega)⟩
      simp only [step, phase]
      refine (if_pos turn).trans ?_
      rw [found]
      simp [unlessAccepted, refuse]
  · have next : step t.machine segments low hi maxSize refuse s = .inl { s with phase := .above } := by
      simp only [step, phase]
      exact if_neg turn
    refine progress_phase windowed next ?_
    simp only [rank, phase]
    by_cases turn' : aboveTurn s = true
    · have turn'' : aboveTurn { s with phase := .above } = true := turn'
      rw [if_pos turn'']
      decide
    · have turn'' : ¬ aboveTurn { s with phase := .above } = true := turn'
      have stuck := some_turn (Bool.not_eq_true _ ▸ turn) (Bool.not_eq_true _ ▸ turn')
      rw [if_neg turn'', if_neg (by rw [stuck]; decide)]
      decide

private theorem progress_belowGap (windowed : Windowed t low hi s) {start size : Nat}
    (phase : s.phase = .belowGap start size) :
    Progress t segments low hi maxSize s := by
  by_cases more : (size < maxSize && s.beoffIsReachable &&
      (segmentGet segments (t.machine.sub (center t.machine low hi) s.beoff)).isNone) = true
  · have reachable : s.beoffIsReachable = true :=
      (Bool.and_eq_true_iff.mp (Bool.and_eq_true_iff.mp more).1).2
    obtain ⟨windowed', lower, same⟩ := grow_below windowed reachable t.machine.page_pos (page_small t)
      (.belowGap (t.machine.sub start t.machine.page) (t.machine.add size t.machine.page))
    refine .inl ⟨_, ?_, windowed', measure_grow (by omega)⟩
    simp only [step, phase]
    exact if_pos more
  · have next : step t.machine segments low hi maxSize refuse s = .inl { s with phase := .below } := by
      simp only [step, phase]
      exact if_neg more
    refine progress_phase windowed next ?_
    simp only [rank, phase]
    decide

private theorem progress_above (valid : ∀ g ∈ segments, Valid t.machine g.toMapping)
    (small : Small t segments)
    (ordered : low ≤ hi) (inside : hi < t.machine.modulus) (windowed : Windowed t low hi s)
    (phase : s.phase = .above) :
    Progress t segments low hi maxSize s := by
  by_cases turn : aboveTurn s = true
  · have reachable : s.aboffIsReachable = true := (Bool.and_eq_true_iff.mp turn).1
    cases found : segmentGet segments (t.machine.add (center t.machine low hi) s.aboff) with
    | none =>
      obtain ⟨windowed', same, lower⟩ :=
        grow_above ordered inside windowed reachable t.machine.page_pos (page_small t)
        (fun _ => .inl rfl) (.aboveGap (t.machine.add (center t.machine low hi) s.aboff) t.machine.page)
      refine .inl ⟨_, ?_, windowed', measure_grow (by omega)⟩
      simp only [step, phase]
      exact (if_pos turn).trans (by rw [found])
    | some seg =>
      obtain ⟨positive, fits⟩ := found_size valid small found
      obtain ⟨windowed', same, lower⟩ := grow_above ordered inside windowed reachable positive fits
        (fun _ => .inr (.inl rfl)) .above
      refine .inl ⟨_, ?_, windowed', measure_grow (by omega)⟩
      simp only [step, phase]
      refine (if_pos turn).trans ?_
      rw [found]
      simp [unlessAccepted, refuse]
  · have next : step t.machine segments low hi maxSize refuse s = .inl { s with phase := .outer } := by
      simp only [step, phase]
      exact if_neg turn
    refine progress_phase windowed next ?_
    simp only [rank, phase, turn, Bool.false_eq_true, if_false]
    cases s.beoffIsReachable || s.aboffIsReachable <;> decide

/-- The gap above is looked for on the other side of the center, and there, too, within
the same window. -/
private theorem progress_aboveGap (ordered : low ≤ hi) (inside : hi < t.machine.modulus)
    (windowed : Windowed t low hi s)
    {start size : Nat} (phase : s.phase = .aboveGap start size) :
    Progress t segments low hi maxSize s := by
  by_cases more : (size < maxSize && s.aboffIsReachable &&
      (segmentGet segments (t.machine.sub (center t.machine low hi) s.aboff)).isNone) = true
  · have reachable : s.aboffIsReachable = true :=
      (Bool.and_eq_true_iff.mp (Bool.and_eq_true_iff.mp more).1).2
    obtain ⟨windowed', same, lower⟩ :=
      grow_above ordered inside windowed reachable t.machine.page_pos (page_small t)
      (fun _ => .inr (.inr rfl)) (.aboveGap start (t.machine.add size t.machine.page))
    refine .inl ⟨_, ?_, windowed', measure_grow (by omega)⟩
    simp only [step, phase]
    exact if_pos more
  · have next : step t.machine segments low hi maxSize refuse s = .inl { s with phase := .above } := by
      simp only [step, phase]
      exact if_neg more
    refine progress_phase windowed next ?_
    simp only [rank, phase]
    split
    · decide
    · split <;> decide

private theorem progress (valid : ∀ g ∈ segments, Valid t.machine g.toMapping) (small : Small t segments)
    (ordered : low ≤ hi) (inside : hi < t.machine.modulus) (windowed : Windowed t low hi s) :
    Progress t segments low hi maxSize s := by
  cases phase : s.phase with
  | outer => exact progress_outer windowed phase
  | below => exact progress_below valid small windowed phase
  | belowGap start size => exact progress_belowGap windowed phase
  | above => exact progress_above valid small ordered inside windowed phase
  | aboveGap start size => exact progress_aboveGap ordered inside windowed phase

end Steps

/-! ## The search -/

/-- Tracepoints from `low` to `hi` in a segment of a process. -/
structure Around (t : Target) (segments : List Segment) (owner : Segment) (low hi : Nat) : Prop where
  valid : ∀ g ∈ segments, Valid t.machine g.toMapping
  apart : segments.Pairwise fun g h => Apart g.toMapping h.toMapping
  member : owner ∈ segments
  from_start : owner.start ≤ low
  ordered : low ≤ hi
  before_stop : hi < owner.stop

/-- Where the search above starts at all, the tracepoints are within reach of each other. -/
theorem start_short (around : Around t segments owner low hi) (small : Small t segments)
    (reaches : (start t.machine low hi owner).aboffIsReachable = true) : hi - low ≤ range t := by
  obtain ⟨d, low', high, window⟩ := check_window reaches
  have sum₁ := add_dvd t.machine (t.machine.add (center t.machine low hi)
    (t.machine.sub owner.stop (center t.machine low hi))) t.machine.page
  have sum₂ := add_dvd t.machine (center t.machine low hi)
    (t.machine.sub owner.stop (center t.machine low hi))
  have difference := sub_dvd t.machine owner.stop (center t.machine low hi)
  have same : (t.machine.modulus : Int) ∣ owner.stop + t.machine.page - low - ahead t - d := by
    obtain ⟨l, window⟩ := window
    obtain ⟨k₁, sum₁⟩ := sum₁
    obtain ⟨k₂, sum₂⟩ := sum₂
    obtain ⟨k₃, difference⟩ := difference
    exact ⟨l - k₁ - k₂ - k₃, by linear_combination window - sum₁ - sum₂ - difference⟩
  have size := small owner around.member
  have few : ahead t ≤ 8 := by cases t <;> decide
  have page := page_eq t
  have large := range_large t
  have from_start := around.from_start
  have before_stop := around.before_stop
  have ordered := around.ordered
  have exact := Int.eq_zero_of_abs_lt_dvd same (abs_lt.mpr ⟨by omega, by omega⟩)
  omega

private theorem start_windowed (around : Around t segments owner low hi) (small : Small t segments) :
    Windowed t low hi (start t.machine low hi owner) where
  below := belowPlace_le
  above reaches := by
    have short := start_short around small reaches
    have bound := (around.valid owner around.member).bound
    have inside : hi < t.machine.modulus := lt_trans around.before_stop bound
    exact ⟨short, abovePlace_le around.ordered inside short (.inl rfl) reaches⟩

/-- The search for room returns if nothing is accepted, wherever the window of the branch
lies, unless a segment takes up nearly all addresses. -/
theorem search_finishes (around : Around t segments owner low hi) (small : Small t segments)
    (maxSize : Nat) :
    Finishes (step t.machine segments low hi maxSize refuse) (start t.machine low hi owner) false := by
  have inside : hi < t.machine.modulus :=
    lt_trans around.before_stop (around.valid owner around.member).bound
  exact finishes_of_measure (measure t low hi)
    (fun _ windowed => progress around.valid small around.ordered inside windowed) _
      (start_windowed around small)

/-! ## Nearly all addresses -/

/-- A segment with code. -/
def code (start stop : Nat) : Segment :=
  ⟨⟨start, stop, none, 0, true, false, true, false⟩, .fresh, none, [], 0, 0, false⟩

/-- Tracepoints in the first segment, below which the window wraps. -/
theorem search_finishes_wrapped :
    Finishes (step arm64 [code 4096 8192] 4096 8191 65536 refuse)
    (start arm64 4096 8191 (code 4096 8192)) false := by
  have around : Around .arm64 [code 4096 8192] (code 4096 8192) 4096 8191 := by
    refine ⟨fun g member => ?_, List.pairwise_singleton _ _, List.mem_singleton.mpr rfl, ?_, ?_, ?_⟩
    · obtain rfl := List.mem_singleton.mp member
      exact ⟨by decide, by decide, by decide, by decide⟩
    · decide
    · decide
    · decide
  have small : Small .arm64 [code 4096 8192] := by
    intro g member
    obtain rfl := List.mem_singleton.mp member
    decide
  exact search_finishes around small 65536

/-- All pages but three at the end. -/
def nearlyAll : Segment := code 0 18446744073709539328

/-- The one in the middle of these. -/
def lastButOne : Segment := code 18446744073709543424 18446744073709547520

/-- The states of a search that only goes on below. -/
private def below (beoff : Nat) : State := ⟨⟨beoff, 8192, true, false⟩, .below⟩

private def gap (beoff start : Nat) : State := ⟨⟨beoff, 8192, true, false⟩, .belowGap start 4096⟩

/-- The steps over the two segments and the two pages between them lead around all
addresses, back to where the search started. -/
theorem search_endless :
    Around .arm64 [nearlyAll, lastButOne] lastButOne lastButOne.start lastButOne.start ∧
    ¬ ∃ result, Finishes (step arm64 [nearlyAll, lastButOne] lastButOne.start
      lastButOne.start 4096 refuse)
      (start arm64 lastButOne.start lastButOne.start lastButOne) result := by
  constructor
  · refine ⟨fun g member => ?_, ?_, ?_, ?_, ?_, ?_⟩
    · rcases List.mem_cons.mp member with rfl | member
      · exact ⟨by decide, by decide, by decide, by decide⟩
      · obtain rfl := List.mem_singleton.mp member
        exact ⟨by decide, by decide, by decide, by decide⟩
    · exact List.pairwise_pair.mpr (.inl (by decide))
    · exact List.mem_cons_of_mem _ (List.mem_singleton.mpr rfl)
    · exact Nat.le_refl _
    · exact Nat.le_refl _
    · decide
  · let next := step arm64 [nearlyAll, lastButOne] lastButOne.start lastButOne.start 4096 refuse
    have comes : next (start arm64 lastButOne.start lastButOne.start lastButOne) = .inl (below 0) :=
      by rfl
    -- The page below the middle is free, the large segment follows.
    have one : next (below 0) = .inl (gap 4096 18446744073709539328) := by rfl
    have two : next (gap 4096 18446744073709539328) = .inl (below 4096) := by rfl
    have three : next (below 4096) = .inl (below 18446744073709543424) := by rfl
    -- Below address 0 there is the last page, which is free.
    have four : next (below 18446744073709543424) =
        .inl (gap 18446744073709547520 18446744073709547520) := by rfl
    have five : next (gap 18446744073709547520 18446744073709547520) =
        .inl (below 18446744073709547520) := by rfl
    -- Then comes the segment of the tracepoint itself.
    have six : next (below 18446744073709547520) = .inl (below 0) := by rfl
    exact not_finishes_of_cycle (runSteps_succ comes 0)
      ((runSteps_succ one 5).trans <| (runSteps_succ two 4).trans <| (runSteps_succ three 3).trans <|
        (runSteps_succ four 2).trans <| (runSteps_succ five 1).trans <| runSteps_succ six 0)

end Adbi.GapSearchProofs
