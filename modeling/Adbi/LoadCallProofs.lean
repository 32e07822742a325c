import Adbi.CallEndsProofs

/-! When the code that a loaded function has overwritten comes back. The
function's text is written over a part of the inferior's code, the function is
called, and only if the call is true the saved code is written back. -/
namespace Adbi.LoadCallProofs
open Adbi.Lib Adbi.MemWriteProofs Adbi.CallStack Adbi.Fncall Adbi.FncallProofs Adbi.CallEndsProofs
open Adbi.MemWrite (Inferior memWrite)

variable {arch : Arch} {text : Nat → BitVec 8} {size entry : BitVec arch.width} {context : arch.Context}
  {w w' w₁ w₂ : World arch} {original : Nat → BitVec 8}

/-- Where the text goes. -/
def loadAddress (size : BitVec arch.width) (w : World arch) : BitVec arch.width :=
  injectFindExecMem w (size.setWidth 32)

/-- The number of bytes that the text takes the place of. -/
def overwritten (text : Nat → BitVec 8) (size : BitVec arch.width) (w : World arch) : Nat :=
  match memWrite w.inferior (loadAddress size w) size text with
  | .ok done => done.1
  | .error _ => 0

/-- The function is called, in a world in which its text is loaded. -/
structure Loads (text : Nat → BitVec 8) (size : BitVec arch.width) (w w₁ : World arch)
    (original : Nat → BitVec 8) : Prop where
  sized : size.setWidth 32 ≠ 0#32
  stopped : (!w.thread.running && !w.othersRunning) = true
  found : loadAddress size w ≠ 0
  saved : memRead w.inferior (loadAddress size w) size.toNat = some original
  written : memWrite w.inferior (loadAddress size w) size text =
      .ok (overwritten text size w, w₁.inferior)
  begun : overwritten text size w ≠ 0
  same : w₁ = { w with inferior := w₁.inferior }

theorem writeInferior_run {address : BitVec arch.width} {inferior : Inferior arch.width} {k : Nat}
    (wrote : memWrite w.inferior address size text = .ok (k, inferior)) :
    writeInferior address size text w = .ok k { w with inferior := inferior } := by
  simp only [writeInferior, run_bind, run_get, wrote, run_modify, run_pure]

theorem writeInferior_ran {address : BitVec arch.width} {k : Nat}
    (ran : writeInferior address size text w = .ok k w') :
    memWrite w.inferior address size text = .ok (k, w'.inferior) ∧
    w' = { w with inferior := w'.inferior } := by
  cases wrote : memWrite w.inferior address size text with
  | ok done =>
    rw [writeInferior_run wrote] at ran
    cases ran
    exact ⟨rfl, rfl⟩
  | error fault =>
    simp only [writeInferior, run_bind, run_get, wrote] at ran
    cases ran

theorem overwritten_of {inferior : Inferior arch.width} {k : Nat}
    (written : memWrite w.inferior (loadAddress size w) size text = .ok (k, inferior)) :
    overwritten text size w = k := by
  simp only [overwritten, written]

/-- What is left to do then. -/
theorem Loads.run (loads : Loads text size w w₁ original) :
    fncallAllocLoadCall arch text size entry context w =
      (fncallCall arch (loadAddress size w + entry) context >>= fun result =>
        if result.1 then writeInferior (loadAddress size w) size original >>= fun _ => pure result
          else pure result) w₁ := by
  have sized : (size.setWidth 32 != 0#32) = true := bne_iff_ne.mpr loads.sized
  have found : ¬injectFindExecMem w (size.setWidth 32) = 0 := loads.found
  have saved : memRead w.inferior (injectFindExecMem w (size.setWidth 32)) size.toNat =
      some original := loads.saved
  have wrote := writeInferior_run loads.written
  rw [← loads.same, loadAddress] at wrote
  rw [fncallAllocLoadCall]
  simp only [run_bind, run_get, assert, sized, loads.stopped, ↓reduceIte, run_pure, found, saved,
    wrote, loads.begun]
  rfl

/-- When the call is not true, nothing is left to do. -/
theorem Loads.failed (loads : Loads text size w w₁ original) {context' : arch.Context}
    (called : fncallCall arch (loadAddress size w + entry) context w₁ = .ok (false, context') w₂) :
    fncallAllocLoadCall arch text size entry context w = .ok (false, context') w₂ := by
  rw [loads.run, run_bind, called]
  rfl

/-- A call that returns without loading its text has changed nothing. -/
theorem loads_or_unchanged {result : Bool × arch.Context}
    (ran : fncallAllocLoadCall arch text size entry context w = .ok result w') :
    (∃ w₁ original, Loads text size w w₁ original) ∨ w'.inferior.memory = w.inferior.memory := by
  replace ran := get_bind_ran ran
  obtain ⟨sized, ran⟩ := assert_bind_ran ran
  obtain ⟨stopped, ran⟩ := assert_bind_ran ran
  simp only at ran
  split at ran
  · cases ran
    exact .inr rfl
  · rename_i found
    cases saved : memRead w.inferior (injectFindExecMem w (size.setWidth 32)) size.toNat with
    | none =>
      rw [saved] at ran
      cases ran
      exact .inr rfl
    | some original =>
      rw [saved] at ran
      obtain ⟨written, u, wrote, ran⟩ := bind_ran ran
      obtain ⟨isWritten, same⟩ := writeInferior_ran wrote
      have count : overwritten text size w = written := overwritten_of isWritten
      split at ran
      · rename_i nothing
        cases ran
        right
        rw [(memWrite_ran arch.server isWritten).2, nothing, overwrite_nothing]
      · rename_i begun
        exact .inl ⟨u, original, bne_iff_ne.mp sized, stopped, found, saved, count ▸ isWritten,
          count ▸ begun, same⟩

/-- On every return with the thread alive and the range writable, the bytes that
were overwritten are what they were. -/
def Restores (text : Nat → BitVec 8) (size entry : BitVec arch.width) (context : arch.Context)
    (w : World arch) : Prop :=
  ∀ result w', fncallAllocLoadCall arch text size entry context w = .ok result w' →
  w'.inferior.dead = false →
    Writable w'.inferior (loadAddress size w) size → ∀ i < overwritten text size w,
      w'.inferior.memory (loadAddress size w + BitVec.ofNat _ i) =
        w.inferior.memory (loadAddress size w + BitVec.ofNat _ i)

/-- Where the text is loaded and the call fails, for its execution state, for a refused store on the
stack or for a stop that is no return, the inferior that is left has the old bytes. -/
def Harmless (text : Nat → BitVec 8) (size : BitVec arch.width) (context : arch.Context)
    (w : World arch) : Prop :=
  ∀ w₁ original inferior, Loads text size w w₁ original → CallFails context w₁ inferior →
    Writable inferior (loadAddress size w) size → ∀ i < overwritten text size w,
      inferior.memory (loadAddress size w + BitVec.ofNat _ i) =
        w.inferior.memory (loadAddress size w + BitVec.ofNat _ i)

/-- What is written after a call that is true covers what was written before. -/
theorem restored_of_true {result : Bool × arch.Context} (loads : Loads text size w w₁ original)
    (alive : w'.inferior.dead = false) (writable : Writable w'.inferior (loadAddress size w) size)
    (ran : (writeInferior (loadAddress size w) size original >>= fun _ => pure result) w₂ =
      .ok result w') (i : Nat)
    (inside : i < overwritten text size w) :
    w'.inferior.memory (loadAddress size w + BitVec.ofNat _ i) =
      w.inferior.memory (loadAddress size w + BitVec.ofNat _ i) := by
  obtain ⟨written, u, wrote, ran⟩ := bind_ran ran
  cases ran
  obtain ⟨isWritten, -⟩ := writeInferior_ran wrote
  obtain ⟨upTo, isOriginal⟩ := memWrite_ran arch.server isWritten
  rw [isOriginal] at alive writable
  have covered : overwritten text size w ≤ written :=
    memWrite_reaches arch.server loads.written isWritten alive writable
  have small := size.isLt
  have offset : (loadAddress size w + BitVec.ofNat _ i - loadAddress size w).toNat = i := by
    rw [BitVec.add_comm, BitVec.add_sub_cancel, BitVec.toNat_ofNat, Nat.mod_eq_of_lt (by omega)]
  have saved := loads.saved
  unfold memRead at saved
  split at saved
  · cases saved
    rw [isOriginal, overwrite]
    simp only [offset, Nat.zero_le, true_and, Nat.lt_of_lt_of_le inside covered, ↓reduceIte]
  · cases saved

/-- The thread is stopped when its function is called. -/
theorem Loads.halted (loads : Loads text size w w₁ original) : w₁.thread.running = false := by
  have stopped := loads.stopped
  rw [Bool.and_eq_true, Bool.not_eq_true'] at stopped
  rw [loads.same]
  exact stopped.1

/-- The overwritten bytes come back if and only if every failure of the call leaves them as they were. -/
theorem restores_iff (arch : Arch) (text : Nat → BitVec 8) (size entry : BitVec arch.width)
    (context : arch.Context)
    (w : World arch) : Restores text size entry context w ↔ Harmless text size context w := by
  constructor
  · intro restores w₁ original inferior loads fails writable
    obtain ⟨context', w₂, called, alive, rfl⟩ :=
      (call_fails_iff (loadAddress size w + entry) context inferior loads.halted).mpr fails
    exact restores (false, context') w₂ (loads.failed called) alive writable
  · intro harmless result w' ran alive writable i inside
    rcases loads_or_unchanged ran with ⟨w₁, original, loads⟩ | unchanged
    · rw [loads.run] at ran
      obtain ⟨result', w₂, called, ran⟩ := bind_ran ran
      obtain ⟨returned, context'⟩ := result'
      cases returned with
      | true =>
        have isResult : result = (true, context') := by
          obtain ⟨_, _, _, done⟩ := bind_ran ran
          cases done
          rfl
        exact restored_of_true loads alive writable (isResult ▸ ran) i inside
      | false =>
        cases ran
        have fails := (call_fails_iff _ context w'.inferior loads.halted).mp ⟨context', w',
          called, alive, rfl⟩
        exact harmless w₁ original w'.inferior loads fails writable i inside
    · rw [unchanged]

/-- A stopped thread of a process in AArch32 state, with one segment of code. -/
private def thread32 : World Arm64.arm64 where
  thread := ⟨false, false, false, false, false, none⟩
  regs := ⟨fun _ => 0, 0x8000, 0x1000, 0x10⟩
  inferior := zeroed
  segments := [⟨0x1000, 0x2000, true⟩]
  injected _ := false
  othersRunning := false
  stabilizing := false
  code _ := false
  answers := []
  reports := []

/-- `call_context_empty`. -/
private def callContextEmpty : Arm64.CallContext where
  registers _ := 0
  elements := ⟨0, fun _ => 0⟩
  mode32 := false

/-- The function's text. -/
private def text7 : Nat → BitVec 8 := fun _ => 7

private def size4 : BitVec Arm64.arm64.width := 4

private def loaded : World Arm64.arm64 :=
  { thread32 with inferior := overwrite thread32.inferior 0x1000#64 0 4 text7 }

private theorem written32 :
    memWrite thread32.inferior (loadAddress size4 thread32) size4 text7 = .ok (4, loaded.inferior) := by
  have live : thread32.inferior.dead = false := rfl
  have sized : (4#64) ≠ 0 := by decide
  obtain ⟨k, -, ran, all⟩ := memWrite_live (.inr rfl) live 0x1000#64 sized text7 (by decide)
  have four : k = 4 := all.mpr fun _ _ => rfl
  rw [four] at ran
  exact ran

/-- The arm64 server does not make the call in the process, and leaves the
function's text in its code. -/
theorem code_stays_foreign : ¬Restores text7 size4 0 callContextEmpty thread32 := by
  have count : overwritten text7 size4 thread32 = 4 := overwritten_of written32
  have loads : Loads text7 size4 thread32 loaded fun _ => 0 :=
    ⟨by decide, rfl, by decide, rfl, count ▸ written32, by rw [count]; decide, rfl⟩
  have call : fncallCall Arm64.arm64 (loadAddress size4 thread32 + 0) callContextEmpty loaded =
    .ok (false, callContextEmpty) loaded := rfl
  intro restores
  have same := restores (false, callContextEmpty) loaded (loads.failed call) rfl (fun _ _ => rfl) 0
    (by rw [count]; decide)
  exact absurd same (by decide)

end Adbi.LoadCallProofs
