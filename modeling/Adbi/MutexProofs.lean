import Adbi.Mutex

/-! The mutex excludes, its word stays among three values, and no wake-up is
lost, for any threads and any interleaving. The invariant names the one thread
that the word belongs to: it is in the critical section, or in an unlock that has
not stored the zero yet. -/
namespace Adbi.MutexProofs
open Adbi.Lib Adbi.Mutex

variable {τ : Type} {s s' : State τ} {t u : τ} {point : Point}

/-- The thread has the lock: it is in the critical section, or about to leave it. -/
def Holds : Point → Prop
  | .critical | .decrement => True
  | _ => False

/-- The word is this thread's to clear. -/
def Owns : Point → Prop
  | .critical | .decrement | .clear => True
  | _ => False

/-- The thread is in an unlock that will still issue a wake-up. -/
def Waking : Point → Prop
  | .clear | .wake => True
  | _ => False

/-- Somebody will see to the sleepers: an owner that finds a word of 2 when it
unlocks, a thread on its way to a wake-up, or a waiter that is awake again. -/
def Attended (s : State τ) : Prop :=
  (s.word = 2 ∧ ∃ t, Holds (s.point t)) ∨ (∃ t, Waking (s.point t)) ∨ ∃ t, s.point t = .retry

/-- `owner` is the thread that the word belongs to; without one the word is 0. -/
structure Owned (s : State τ) (owner : Option τ) : Prop where
  owns : ∀ t, Owns (s.point t) ↔ owner = some t
  free : owner = none → s.word = 0
  taken : ∀ t, owner = some t → s.word = 1 ∨ s.word = 2
  queued : ∀ t, t ∈ s.waiters ↔ s.point t = .asleep

def Inv (s : State τ) : Prop := (∃ owner, Owned s owner) ∧ (s.waiters ≠ [] → Attended s)

theorem inv_initial : Inv (initial τ) := by
  refine ⟨⟨none, ?_⟩, fun sleepers => absurd rfl sleepers⟩
  constructor <;> simp [initial, Owns]

/-- A word other than 0 has an owner. -/
theorem Owned.exists_of_word {owner : Option τ} (owned : Owned s owner) (word : s.word ≠ 0) :
    ∃ t, owner = some t := by
  cases owner with
  | none => exact absurd (owned.free rfl) word
  | some t => exact ⟨t, rfl⟩

theorem Owned.none_of_word {owner : Option τ} (owned : Owned s owner) (word : s.word = 0) :
    owner = none := by
  cases owner with
  | none => rfl
  | some t =>
    rcases owned.taken t rfl with one | two
    · rw [word] at one
      exact absurd one (by decide)
    · rw [word] at two
      exact absurd two (by decide)

variable [DecidableEq τ]

@[simp] theorem move_point_self (s : State τ) (t : τ) : (s.move t point).point t = point :=
  by simp [State.move]

theorem move_point_ne (s : State τ) (other : u ≠ t) : (s.move t point).point u = s.point u := by
  simp [State.move, other]

@[simp] theorem move_word (s : State τ) (t : τ) : (s.move t point).word = s.word := rfl

@[simp] theorem move_waiters (s : State τ) (t : τ) : (s.move t point).waiters = s.waiters := rfl

/-! ## One thread moves -/

/-- A thread that does not sleep moves to a point where it does not sleep. -/
theorem Owned.move {owner owner' : Option τ} (owned : Owned s owner) (word : Word)
    (before : s.point t ≠ .asleep)
    (after : point ≠ .asleep) (own : Owns point ↔ owner' = some t)
    (others : ∀ u, u ≠ t → (owner = some u ↔ owner' = some u))
    (free : owner' = none → word = 0) (taken : owner' ≠ none → word = 1 ∨ word = 2) :
    Owned ({ s with word := word }.move t point) owner' := by
  constructor
  · intro u
    by_cases same : u = t
    · subst same
      rw [move_point_self]
      exact own
    · rw [move_point_ne _ same]
      exact (owned.owns u).trans (others u same)
  · exact free
  · exact fun u mine => taken (by rw [mine]; simp)
  · intro u
    by_cases same : u = t
    · subst same
      simpa [after] using fun member => before ((owned.queued u).mp member)
    · rw [move_point_ne _ same]
      exact owned.queued u

/-- The owner stays the same, and so does the word. -/
theorem Owned.stay {owner : Option τ} (owned : Owned s owner) (before : s.point t ≠ .asleep)
    (after : point ≠ .asleep)
    (own : Owns point ↔ Owns (s.point t)) : Owned (s.move t point) owner := by
  refine owned.move s.word before after (own.trans (owned.owns t)) (fun _ _ => Iff.rfl) owned.free ?_
  intro owner_ne
  obtain ⟨u, mine⟩ := Option.ne_none_iff_exists'.mp owner_ne
  exact owned.taken u mine

theorem Owned.awake {owner : Option τ} (owned : Owned s owner) (waiter : t ∈ s.waiters) :
    Owned (s.awake t) owner := by
  have asleep := (owned.queued t).mp waiter
  constructor
  · intro u
    by_cases same : u = t
    · subst same
      have not_mine := owned.owns u
      rw [asleep] at not_mine
      simpa [State.awake, Owns] using not_mine
    · rw [State.awake, move_point_ne _ same]
      exact owned.owns u
  · exact owned.free
  · exact owned.taken
  · intro u
    by_cases same : u = t
    · subst same
      simp [State.awake]
    · rw [State.awake, move_point_ne _ same]
      simpa [same] using owned.queued u

/-- A thread joins the sleepers. -/
theorem Owned.asleep {owner : Option τ} (owned : Owned s owner) (here : s.point t = .wait) :
    Owned ({ s with waiters := t :: s.waiters }.move t .asleep) owner := by
  constructor
  · intro u
    by_cases same : u = t
    · subst same
      have not_mine := owned.owns u
      rw [here] at not_mine
      simpa [Owns] using not_mine
    · rw [move_point_ne _ same]
      exact owned.owns u
  · exact owned.free
  · exact owned.taken
  · intro u
    by_cases same : u = t
    · subst same
      simp
    · rw [move_point_ne _ same]
      simpa [same] using owned.queued u

/-- Who attends to the sleepers is not the thread that moves, or goes on attending. -/
theorem Attended.move (attended : Attended s) (word : Word)
    (contended : s.word = 2 → word = 2 ∧ (Holds (s.point t) → Holds point))
    (waking : Waking (s.point t) → Waking point)
    (retrying : s.point t = .retry → point = .retry) :
    Attended ({ s with word := word }.move t point) := by
  have elsewhere : ∀ (P : Point → Prop) u, P (s.point u) → (u = t → P point) →
      ∃ u, P (({ s with word := word }.move t point).point u) := by
    intro P u holds here
    by_cases same : u = t
    · exact ⟨t, by rw [move_point_self]; exact here same⟩
    · exact ⟨u, by rw [move_point_ne _ same]; exact holds⟩
  rcases attended with ⟨two, u, holds⟩ | ⟨u, wakes⟩ | ⟨u, retries⟩
  · obtain ⟨still, goes_on⟩ := contended two
    exact .inl ⟨still, elsewhere Holds u holds fun same => goes_on (same ▸ holds)⟩
  · exact .inr (.inl (elsewhere Waking u wakes fun same => waking (same ▸ wakes)))
  · exact .inr (.inr (elsewhere (· = .retry) u retries fun same => retrying (same ▸ retries)))

/-- Where the word becomes 2, its owner attends to whoever goes to sleep. -/
theorem Owned.attended {owner : Option τ} (owned : Owned s owner) (mine : owner = some u) (other : u ≠ t)
    (same : s'.point = (s.move t point).point) (two : s'.word = 2) : Attended s' := by
  have owns := (owned.owns u).mpr mine
  have there : s'.point u = s.point u := by rw [same, move_point_ne _ other]
  cases at_ : s.point u <;> rw [at_] at owns there <;> simp only [Owns] at owns
  · exact .inl ⟨two, u, by rw [there]; trivial⟩
  · exact .inl ⟨two, u, by rw [there]; trivial⟩
  · exact .inr (.inl ⟨u, by rw [there]; trivial⟩)

/-! ## Steps -/

/-- The exchange with 2, in either of its places, takes the lock or leads to the wait. -/
private theorem inv_swap (inv : Inv s) (here : s.point t = .swap ∨ s.point t = .retry) :
    Inv ({ s with word := 2 }.move t (if s.word = 0 then .critical else .wait)) := by
  obtain ⟨⟨owner, owned⟩, attended⟩ := inv
  have awake : s.point t ≠ .asleep := by rcases here with at_ | at_ <;> simp [at_]
  have stranger : ¬Owns (s.point t) := by rcases here with at_ | at_ <;> simp [at_, Owns]
  by_cases word : s.word = 0
  · have nobody := owned.none_of_word word
    rw [if_pos word]
    refine ⟨⟨some t, owned.move 2 awake (by simp) (by simp [Owns]) ?_ (by simp) fun _ => .inr rfl⟩,
      fun _ => ?_⟩
    · intro u other
      simp [nobody, other.symm]
    · exact .inl ⟨rfl, t, by simp [Holds]⟩
  · obtain ⟨u, mine⟩ := owned.exists_of_word word
    have other : u ≠ t := fun same => stranger ((owned.owns t).mpr (same ▸ mine))
    rw [if_neg word]
    refine ⟨⟨owner, owned.move 2 awake (by simp) ?_ (fun _ _ => Iff.rfl) ?_ fun _ => .inr rfl⟩,
      fun _ => ?_⟩
    · simpa [Owns] using fun same => stranger ((owned.owns t).mpr same)
    · exact fun nobody => absurd (nobody.symm.trans mine) (by simp)
    · exact owned.attended mine other rfl rfl

/-- The decrement frees a word of 1, and of a word of 2 it leaves 1. -/
private theorem inv_decrement (inv : Inv s) (here : s.point t = .decrement) :
    Inv ({ s with word := s.word - 1 }.move t (if s.word = 1 then .outside else .clear)) := by
  obtain ⟨⟨owner, owned⟩, attended⟩ := inv
  have mine : owner = some t := (owned.owns t).mp (by simp [here, Owns])
  rcases owned.taken t mine with one | two
  · have zero : s.word - 1 = 0 := by
      rw [one]
      decide
    rw [if_pos one]
    refine ⟨⟨none, owned.move _ (by simp [here]) (by simp) (by simp [Owns]) ?_ (fun _ =>
      zero) (by simp)⟩,
      fun sleepers => ?_⟩
    · intro u other
      simp [mine, other.symm]
    · refine (attended sleepers).move _ (fun two => ?_) (by simp [here, Waking]) (by simp [here])
      rw [one] at two
      exact absurd two (by decide)
  · have more : s.word ≠ 1 := by
      rw [two]
      decide
    have one : s.word - 1 = 1 := by
      rw [two]
      decide
    rw [if_neg more]
    refine ⟨⟨owner, owned.move _ (by simp [here]) (by simp) (by simp [Owns, mine]) (fun _ _ => Iff.rfl)
      (fun nobody => absurd (nobody.symm.trans mine) (by simp)) fun _ => .inl one⟩, fun _ => ?_⟩
    exact .inr (.inl ⟨t, by simp [Waking]⟩)

theorem inv_run (inv : Inv s) (ran : run s t = .ok s') : Inv s' := by
  obtain ⟨⟨owner, owned⟩, attended⟩ := id inv
  unfold run at ran
  cases here : s.point t with
  | outside =>
    rw [here] at ran
    cases ran
    refine ⟨⟨owner, owned.stay (by simp [here]) (by simp) (by simp [here, Owns])⟩, fun sleepers => ?_⟩
    exact (attended sleepers).move s.word (fun two => ⟨two, by simp [here, Holds]⟩)
      (by simp [here, Waking]) (by simp [here])
  | attempt =>
    rw [here] at ran
    by_cases word : s.word = 0
    · have nobody := owned.none_of_word word
      simp only [atomicCmpxchg, word, ↓reduceIte] at ran
      cases ran
      refine ⟨⟨some t, owned.move 1 (by simp [here]) (by simp) (by simp [Owns]) ?_ (by simp)
        fun _ => .inl rfl⟩,
        fun sleepers => ?_⟩
      · intro u other
        simp [nobody, other.symm]
      · refine (attended sleepers).move 1 (fun two => ?_) (by simp [here, Waking]) (by simp [here])
        rw [word] at two
        exact absurd two (by decide)
    · simp only [atomicCmpxchg, word, ↓reduceIte] at ran
      cases ran
      refine ⟨⟨owner, owned.stay (by simp [here]) (by simp) (by simp [here, Owns])⟩, fun sleepers => ?_⟩
      exact (attended sleepers).move s.word (fun two => ⟨two, by simp [here, Holds]⟩)
        (by simp [here, Waking])
        (by simp [here])
  | swap =>
    rw [here] at ran
    cases ran
    exact inv_swap inv (.inl here)
  | retry =>
    rw [here] at ran
    cases ran
    exact inv_swap inv (.inr here)
  | wait =>
    rw [here] at ran
    cases ran
    by_cases word : s.word = 2
    · obtain ⟨u, mine⟩ := owned.exists_of_word (by rw [word]; decide)
      have other : u ≠ t := by
        rintro rfl
        have owns := (owned.owns u).mpr mine
        simp [here, Owns] at owns
      rw [if_pos word]
      exact ⟨⟨owner, owned.asleep here⟩, fun _ => owned.attended mine other rfl word⟩
    · simp only [word, ↓reduceIte]
      refine ⟨⟨owner, owned.stay (by simp [here]) (by simp) (by simp [here, Owns])⟩, fun _ => ?_⟩
      exact .inr (.inr ⟨t, by simp⟩)
  | critical =>
    rw [here] at ran
    cases ran
    refine ⟨⟨owner, owned.stay (by simp [here]) (by simp) (by simp [here, Owns])⟩, fun sleepers => ?_⟩
    exact (attended sleepers).move s.word (fun two => ⟨two, by simp [Holds]⟩)
      (by simp [here, Waking]) (by simp [here])
  | decrement =>
    rw [here] at ran
    cases ran
    exact inv_decrement inv here
  | clear =>
    rw [here] at ran
    have mine : owner = some t := (owned.owns t).mp (by simp [here, Owns])
    cases ran
    refine ⟨⟨none, owned.move 0 (by simp [here]) (by simp) (by simp [Owns]) ?_ (fun _ => rfl)
      (by simp)⟩, fun _ => ?_⟩
    · intro u other
      simp [mine, other.symm]
    · exact .inr (.inl ⟨t, by simp [Waking]⟩)
  | asleep =>
    rw [here] at ran
    cases ran
  | wake =>
    rw [here] at ran
    cases ran

theorem inv_step (s : State τ) (action : Action τ) (s' : State τ) (inv : Inv s)
    (stepped : step s action = .ok s') : Inv s' := by
  obtain ⟨⟨owner, owned⟩, attended⟩ := id inv
  cases action with
  | run t => exact inv_run inv stepped
  | wake t waiter =>
    simp only [step] at stepped
    split at stepped
    · rename_i ready
      cases stepped
      have left : Owned (s.move t .outside) owner :=
        owned.stay (by simp [ready.1]) (by simp) (by simp [ready.1, Owns])
      exact ⟨⟨owner, left.awake ready.2⟩, fun _ => .inr (.inr ⟨waiter, by simp [State.awake]⟩)⟩
    · cases stepped
  | wakeNobody t =>
    simp only [step] at stepped
    split at stepped
    · rename_i ready
      cases stepped
      exact ⟨⟨owner, owned.stay (by simp [ready.1]) (by simp) (by simp [ready.1, Owns])⟩,
        fun sleepers => absurd ready.2 sleepers⟩
    · cases stepped
  | interrupt t =>
    simp only [step] at stepped
    split at stepped
    · rename_i waiter
      cases stepped
      exact ⟨⟨owner, owned.awake waiter⟩, fun _ => .inr (.inr ⟨t, by simp [State.awake]⟩)⟩
    · cases stepped

/-- What the mutex promises in a state. -/
structure Correct (s : State τ) : Prop where
  exclusive : ∀ t u, Holds (s.point t) → Holds (s.point u) → t = u
  range : s.word = 0 ∨ s.word = 1 ∨ s.word = 2
  attended : ∀ t, s.point t = .asleep → Attended s

omit [DecidableEq τ] in
theorem correct_of_inv (inv : Inv s) : Correct s := by
  obtain ⟨⟨owner, owned⟩, attended⟩ := inv
  have owner_of : ∀ t, Holds (s.point t) → owner = some t := by
    intro t holds
    refine (owned.owns t).mp ?_
    cases here : s.point t <;> rw [here] at holds <;> simp_all [Holds, Owns]
  constructor
  · intro t u left right
    exact Option.some.inj ((owner_of t left).symm.trans (owner_of u right))
  · cases mine : owner with
    | none => exact .inl (owned.free mine)
    | some t => exact .inr (owned.taken t mine)
  · intro t sleeps
    exact attended (List.ne_nil_of_mem ((owned.queued t).mpr sleeps))

/-- In every interleaving the mutex excludes, its word is 0, 1 or 2, and whoever
sleeps will be seen to. -/
theorem mutex_correct (actions : List (Action τ)) (s : State τ)
    (ran : runAll step (initial τ) actions = .ok s) : Correct s :=
  correct_of_inv (run_keeps inv_step inv_initial ran)


/-- One thread takes the lock, the other goes to sleep and is woken by the unlock. -/
def contendedRun : List (Action Bool) :=
  [.run false, .run false, .run true, .run true, .run true, .run true, .run false, .run false,
    .run false, .wake false true,
    .run true]

theorem contended_run_correct : ∃ s, runAll step (initial Bool) contendedRun = .ok s ∧
    s.point true = .critical ∧ Correct s :=
  ⟨_, rfl, rfl, mutex_correct contendedRun _ rfl⟩

end Adbi.MutexProofs
