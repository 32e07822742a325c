import Adbi.Registry

/-! What an action in one thread does to the registry. -/
namespace Adbi.RegistryProofs
open Adbi.Tracee Adbi.Registry

variable {g : Injection.ImportGraph} {births : Pid → Birth} {s : Server}

/-- What a registered thread runs, when it comes to an end. -/
theorem inThread_ok {action : Action Unit} (found : s.threads pid = some entry)
    (ok : inThread g births s pid reports action = .ok final) :
    ∃ process w, s.processes entry.process = some process ∧
      action (worldOf pid entry process reports) = .ok () w ∧
      keepProcess g births (keepThread s pid entry w.thread) pid entry.process w = .ok final := by
  simp only [inThread, found] at ok
  cases home : s.processes entry.process with
  | none =>
    simp only [home] at ok
    cases ok
  | some process =>
    simp only [home] at ok
    cases ran : action (worldOf pid entry process reports) with
    | error fault w =>
      simp only [ran] at ok
      cases ok
    | ok _ w =>
      simp only [ran] at ok
      exact ⟨process, w, rfl, ran, ok⟩

theorem keepThread_other (different : other ≠ pid) (thread : Thread) :
    (keepThread s pid entry thread).threads other = s.threads other := by
  unfold keepThread
  split <;> simp [threadDel, Function.update_of_ne different]

theorem keepThread_same (thread : Thread) :
    (keepThread s pid entry thread).threads pid = if thread.dead then none
      else some { entry with thread := thread } := by
  unfold keepThread
  split <;> simp [threadDel]

/-- A new thread, and the process it went into: one the server knew, or a new one under the child's
pid. -/
theorem created (birth : (births child).child = child)
    (ok : threadCloneCreateChild g s (births child) thread = .ok final) :
    ∃ process, (process = (births child).tgid ∨ process = child) ∧
      final.threads = Function.update s.threads child
        (some ⟨process, { thread with notified := false }⟩) ∧
      ∀ q, q ≠ process → final.processes q = s.processes q := by
  unfold threadCloneCreateChild childProcess at ok
  cases known : s.processes (births child).tgid with
  | some record =>
    rw [known] at ok
    cases ok
    refine ⟨(births child).tgid, .inl rfl, by simp only [threadAdd, birth], fun q other => ?_⟩
    simp only [threadAdd, if_neg other]
  | none =>
    cases parent : s.processes (births child).ppid with
    | none =>
      simp only [known, parent] at ok
      cases ok
    | some record =>
      simp only [known, parent] at ok
      cases ok
      refine ⟨child, .inr rfl, by simp only [threadAdd, birth], fun q other => ?_⟩
      simp only [threadAdd, birth, if_neg other, Function.update_of_ne other]

end Adbi.RegistryProofs
