import Mathlib.Logic.Function.Basic
import Adbi.Lib.Runs

/-! The mutex that injected code uses, after `idk/include/mutex.h`: the word,
the atomic steps of every thread on it, and the queue that the kernel keeps for
the futex. Threads are interleaved in any order; which waiter a wake-up reaches,
and when a sleep is interrupted, is left open. -/
namespace Adbi.Mutex
open Adbi.Lib

/-- `mutex_t`. -/
abbrev Word := BitVec 32

/-! ## Atomic operations, with their result and the word they leave -/

/-- `atomic_dec`. -/
def atomicDec (word : Word) : Word × Word := (word, word - 1)

/-- `atomic_cmpxchg`: zero means success. -/
def atomicCmpxchg (old new word : Word) : Word × Word := if word = old then (0, new) else (2, word)

/-- `atomic_swap`. -/
def atomicSwap (val word : Word) : Word × Word := (word, val)

/-! ## Threads -/

/-- What a thread does next. -/
inductive Point where
  /-- It has no business with the mutex. -/
  | outside
  /-- `mutex_lock`: the first attempt. -/
  | attempt
  /-- The head of the loop. -/
  | swap
  /-- The system call to wait. -/
  | wait
  | asleep
  /-- The head of the loop, after a wait. -/
  | retry
  | critical
  /-- `mutex_unlock`: the decrement. -/
  | decrement
  /-- The store of zero. -/
  | clear
  /-- The system call to wake. -/
  | wake
  deriving DecidableEq, Repr

/-- `waiters` are the threads that sleep on the word. -/
structure State (τ : Type) where
  word : Word
  point : τ → Point
  waiters : List τ

/-- The mutex is free and no thread is concerned with it. -/
def initial (τ : Type) : State τ := ⟨0, fun _ => .outside, []⟩

inductive Action (τ : Type) where
  /-- A thread takes its next step. -/
  | run (t : τ)
  /-- A thread issues its wake-up, which reaches `waiter`. -/
  | wake (t waiter : τ)
  /-- A thread issues its wake-up, and there is no waiter. -/
  | wakeNobody (t : τ)
  /-- A sleep ends for another reason. -/
  | interrupt (t : τ)

variable {τ : Type} [DecidableEq τ]

def State.move (s : State τ) (t : τ) (point : Point) : State τ :=
  { s with point := Function.update s.point t point }

/-- The step that a thread takes on its own. -/
def run (s : State τ) (t : τ) : Except Unit (State τ) :=
  match s.point t with
  | .outside => .ok (s.move t .attempt)
  | .attempt =>
    let (failed, word) := atomicCmpxchg 0 1 s.word
    .ok ({ s with word := word }.move t (if failed = 0 then .critical else .swap))
  | .swap | .retry =>
    let (previous, word) := atomicSwap 2 s.word
    .ok ({ s with word := word }.move t (if previous = 0 then .critical else .wait))
  -- the kernel compares the word before the thread sleeps
  | .wait =>
    .ok (if s.word = 2 then { s with waiters := t :: s.waiters }.move t .asleep else s.move t .retry)
  | .critical => .ok (s.move t .decrement)
  | .decrement =>
    let (previous, word) := atomicDec s.word
    .ok ({ s with word := word }.move t (if previous = 1 then .outside else .clear))
  | .clear => .ok ({ s with word := 0 }.move t .wake)
  | .asleep | .wake => .error ()

/-- A thread leaves the queue of the futex. -/
def State.awake (s : State τ) (t : τ) : State τ :=
  { s with waiters := s.waiters.filter (· ≠ t) }.move t .retry

def step (s : State τ) : Action τ → Except Unit (State τ)
  | .run t => run s t
  | .wake t waiter =>
    if s.point t = .wake ∧ waiter ∈ s.waiters then .ok ((s.move t .outside).awake waiter) else .error ()
  | .wakeNobody t => if s.point t = .wake ∧ s.waiters = [] then .ok (s.move t .outside) else .error ()
  | .interrupt t => if t ∈ s.waiters then .ok (s.awake t) else .error ()

end Adbi.Mutex
