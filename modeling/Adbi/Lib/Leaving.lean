import Mathlib.Tactic.Common

/-! Runs of a partial step up to the step that leaves, as of code that is entered
and left again. What such a run ends in does not depend on how many steps are
allowed. -/
namespace Adbi.Lib

variable {σ : Type} {step : σ → Option σ} {leaves : σ → Bool} {n : Nat} {s t : σ}

/-- Run up to the step from a state in which `leaves` holds, for some number of steps at most. -/
def runUntil (step : σ → Option σ) (leaves : σ → Bool) : Nat → σ → Option σ
  | 0, _ => none
  | n + 1, s => (step s).bind fun s' => if leaves s then some s' else runUntil step leaves n s'

theorem runUntil_leave (last : leaves s = true) (n : Nat) : runUntil step leaves (n + 1) s = step s := by
  simp only [runUntil, last, ↓reduceIte, Option.bind_fun_some]

theorem runUntil_on (ok : step s = some t) (stays : leaves s = false) (n : Nat) :
    runUntil step leaves (n + 1) s = runUntil step leaves n t := by
  rw [runUntil, ok, Option.bind_some, stays, if_neg Bool.false_ne_true]

/-- A run that ends does not depend on the steps that are left. -/
theorem runUntil_add (done : runUntil step leaves n s = some t) (more : Nat) :
    runUntil step leaves (n + more) s = some t := by
  induction n generalizing s with
  | zero => cases done
  | succ n ih =>
    rw [Nat.succ_add]
    obtain ⟨next, ok, rest⟩ := Option.bind_eq_some_iff.mp done
    cases last : leaves s with
    | true =>
      rw [last, if_pos rfl] at rest
      rw [runUntil_leave last, ok, rest]
    | false =>
      rw [last, if_neg Bool.false_ne_true] at rest
      rw [runUntil_on ok last]
      exact ih rest

/-- What a run can end in, once it is known for as many steps as one likes. -/
theorem runUntil_ends_iff {ended : Option σ} (always : ∀ k, runUntil step leaves (k + n) s = ended) :
    (∃ m, runUntil step leaves m s = some t) ↔ ended = some t := by
  constructor
  · rintro ⟨m, done⟩
    rw [← always m, runUntil_add done]
  · intro is
    exact ⟨0 + n, (always 0).trans is⟩

end Adbi.Lib
