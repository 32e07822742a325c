import Mathlib.Tactic.Common

/-! Code with loops as a machine: a step leads to the next state or returns a result.
A measure that every step lowers makes it return; a state that comes back makes it run
for ever. -/
namespace Adbi.Lib

variable {σ ρ : Type} {step : σ → σ ⊕ ρ} {s t : σ} {r : ρ}

/-- So many steps, or as many as there are up to the result. -/
def runSteps (step : σ → σ ⊕ ρ) : Nat → σ → σ ⊕ ρ
  | 0, s => .inl s
  | n + 1, s =>
    match step s with
    | .inl t => runSteps step n t
    | .inr r => .inr r

/-- The machine returns the result after finitely many steps. -/
def Finishes (step : σ → σ ⊕ ρ) (s : σ) (r : ρ) : Prop := ∃ n, runSteps step n s = .inr r

theorem runSteps_succ (next : step s = .inl t) (n : Nat) :
    runSteps step (n + 1) s = runSteps step n t := by
  rw [runSteps, next]

theorem finishes_next (next : step s = .inl t) (later : Finishes step t r) : Finishes step s r := by
  obtain ⟨n, ran⟩ := later
  exact ⟨n + 1, (runSteps_succ next n).trans ran⟩

theorem finishes_now (now : step s = .inr r) : Finishes step s r := ⟨1, by rw [runSteps, now]⟩

/-- From a state with the invariant, steps that keep it and lower the measure lead to
the result. -/
theorem finishes_of_measure {Inv : σ → Prop} (measure : σ → Nat)
    (progress : ∀ s, Inv s → (∃ t, step s = .inl t ∧ Inv t ∧ measure t < measure s) ∨
      step s = .inr r) (s : σ)
    (start : Inv s) : Finishes step s r := by
  induction bound : measure s using Nat.strongRecOn generalizing s with
  | ind n ih =>
    rcases progress s start with ⟨t, next, kept, lower⟩ | now
    · exact finishes_next next (ih (measure t) (bound ▸ lower) t kept rfl)
    · exact finishes_now now

theorem runSteps_add (ran : runSteps step n s = .inl t) (k : Nat) :
    runSteps step (n + k) s = runSteps step k t := by
  induction n generalizing s with
  | zero =>
    obtain rfl : s = t := Sum.inl.inj ran
    rw [Nat.zero_add]
  | succ n ih =>
    cases next : step s with
    | inl u =>
      rw [runSteps_succ next] at ran
      rw [Nat.add_right_comm, runSteps_succ next]
      exact ih ran
    | inr r =>
      rw [runSteps, next] at ran
      cases ran

/-- The result stays. -/
theorem runSteps_returned (ran : runSteps step n s = .inr r) (k : Nat) :
    runSteps step (n + k) s = .inr r := by
  induction n generalizing s with
  | zero => cases ran
  | succ n ih =>
    cases next : step s with
    | inl u =>
      rw [runSteps_succ next] at ran
      rw [Nat.add_right_comm, runSteps_succ next]
      exact ih ran
    | inr r' =>
      rw [runSteps, next] at ran
      rw [Nat.add_right_comm, runSteps, next]
      exact ran

/-- A machine that is back in the same state never returns. -/
theorem not_finishes_of_recurs (recurs : runSteps step (n + 1) s = .inl s) :
    ¬ ∃ r, Finishes step s r := by
  rintro ⟨r, k, ran⟩
  induction k using Nat.strongRecOn with
  | ind k ih =>
    by_cases short : k < n + 1
    · obtain ⟨rest, whole⟩ : ∃ rest, n + 1 = k + rest := ⟨n + 1 - k, by omega⟩
      rw [whole, runSteps_returned ran] at recurs
      cases recurs
    · obtain ⟨rest, rfl⟩ : ∃ rest, k = n + 1 + rest := ⟨k - (n + 1), by omega⟩
      rw [runSteps_add recurs] at ran
      exact ih rest (by omega) ran

/-- Neither does one that comes to such a state. -/
theorem not_finishes_of_cycle (comes : runSteps step k s = .inl t)
    (recurs : runSteps step (n + 1) t = .inl t) :
    ¬ ∃ r, Finishes step s r := by
  rintro ⟨r, m, ran⟩
  refine not_finishes_of_recurs recurs ⟨r, m, ?_⟩
  rw [← runSteps_add comes, Nat.add_comm]
  exact runSteps_returned ran k

end Adbi.Lib
