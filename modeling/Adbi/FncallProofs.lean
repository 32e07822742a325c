import Adbi.Fncall
import Adbi.MemWriteProofs

/-! Calls leave the registers of the inferior alone, whichever way they end, and
what it means that one has returned. Everything but a wait and the setting of
registers is steady: the thread does not run. -/
namespace Adbi.FncallProofs
open Adbi.Lib Adbi.MemWriteProofs Adbi.CallStack Adbi.Fncall
open Adbi.MemWrite (Inferior memWrite)
open Adbi.Branch (Word)
open Adbi.Tracee (Signo)

variable {arch : Arch} {w w' : World arch} {α β : Type}

/-! ## While the thread is stopped -/

/-- The thread has not run, and its registers have not been set. -/
structure Within (w w' : World arch) : Prop where
  regs : w'.regs = w.regs
  reports : w'.reports = w.reports
  slavemode : w'.thread.slavemode = w.thread.slavemode
  dead : w'.inferior.dead = w.inferior.dead

theorem Within.refl (w : World arch) : Within w w := ⟨rfl, rfl, rfl, rfl⟩

theorem Within.trans {u v w : World arch} (first : Within u v) (second : Within v w) : Within u w :=
  ⟨second.regs.trans first.regs, second.reports.trans first.reports,
    second.slavemode.trans first.slavemode,
    second.dead.trans first.dead⟩

def Steady (x : Action arch α) : Prop := ∀ w a w', x w = .ok a w' → Within w w'

theorem steady_pure (a : α) : Steady (pure a : Action arch α) := by
  intro w b w' ran
  cases ran
  exact Within.refl w

theorem steady_throw (fault : Fault) : Steady (throw fault : Action arch α) := by
  intro w a w' ran
  cases ran

theorem steady_modify {f : World arch → World arch} (within : ∀ w, Within w (f w)) :
    Steady (modify f) := by
  intro w a w' ran
  cases ran
  exact within w

theorem steady_bind {x : Action arch α} {f : α → Action arch β} (first : Steady x)
    (second : ∀ a, Steady (f a)) :
    Steady (x >>= f) := by
  intro w b w' ran
  obtain ⟨a, v, ranFirst, ranSecond⟩ := bind_ran ran
  exact (first w a v ranFirst).trans (second a v b w' ranSecond)

theorem steady_get : Steady (get : Action arch (World arch)) := by
  intro w v w' ran
  cases ran
  exact Within.refl w

theorem steady_ite {c : Prop} [Decidable c] {x y : Action arch α} (yes : Steady x) (no : Steady y) :
    Steady (if c then x else y) := by
  split
  · exact yes
  · exact no

theorem steady_assert (holds : Bool) : Steady (assert holds : Action arch Unit) :=
  steady_ite (steady_pure ()) (steady_throw .assertion)

theorem assert_bind_ran {holds : Bool} {f : Unit → Action arch α} {a : α}
    (ran : (assert holds >>= f) w = .ok a w') :
    holds = true ∧ f () w = .ok a w' := by
  cases holds with
  | true => exact ⟨rfl, ran⟩
  | false => cases ran

theorem steady_lift (result : Except Fault α) : Steady (lift result : Action arch α) := by
  cases result with
  | ok a => exact steady_pure a
  | error fault => exact steady_throw fault

/-- What is done to a thread that does not concern its mode. -/
theorem steady_setThread {f : Thread → Thread} (slavemode : ∀ t, (f t).slavemode = t.slavemode) :
    Steady (setThread f : Action arch Unit) :=
  steady_modify fun w => ⟨rfl, rfl, slavemode w.thread, rfl⟩

theorem steady_request : Steady (request : Action arch Unit) := by
  refine steady_bind steady_get fun w => ?_
  refine steady_ite (steady_throw .bug) ?_
  split
  · exact steady_pure ()
  · exact steady_modify fun w => ⟨rfl, rfl, rfl, rfl⟩
  · exact steady_throw .bug

theorem steady_threadGetRegs : Steady (threadGetRegs : Action arch arch.Regs) :=
  steady_bind steady_get fun _ => steady_bind (steady_assert _) fun _ =>
    steady_bind steady_request fun _ => steady_pure _

theorem steady_threadContinue : Steady (threadContinue : Action arch Unit) := by
  have resumes : Steady (setThread fun t =>
      { t with setoptions := false, signo := none, running := true } : Action arch Unit) :=
    steady_setThread fun _ => rfl
  refine steady_bind steady_get fun w => steady_ite (steady_pure ()) (steady_ite ?_ ?_)
  · exact steady_bind steady_request fun _ => steady_bind steady_request fun _ => resumes
  · exact steady_bind steady_request fun _ => resumes

theorem patchInsn_ran {inferior after : Inferior arch.width} {address : BitVec arch.width}
    {kind : Kind} {insn : Word}
    {done : Bool} (ran : patchInsn inferior address kind insn = .ok (done, after)) :
    after.dead = inferior.dead := by
  unfold patchInsn at ran
  split at ran
  · simp only at ran
    split at ran
    · rename_i written inferior' wrote
      cases ran
      rw [(memWrite_ran arch.server wrote).2]
      rfl
    · cases ran
  · cases ran

theorem steady_patchInferior (address : BitVec arch.width) (kind : Kind) (insn : Word) :
    Steady (patchInferior address kind insn) := by
  intro w done w' ran
  replace ran := get_bind_ran ran
  obtain ⟨⟨done, after⟩, u, lifted, ran⟩ := bind_ran ran
  cases patched : patchInsn w.inferior address kind insn with
  | error fault =>
    rw [patched] at lifted
    cases lifted
  | ok result =>
    rw [patched] at lifted
    cases lifted
    cases ran
    exact ⟨rfl, rfl, rfl, patchInsn_ran patched⟩

theorem steady_lookAhead (address : BitVec arch.width) (kind : Kind) : Steady (lookAhead address kind) :=
  steady_bind steady_get fun _ =>
  steady_ite (steady_bind (steady_lift _) fun _ => steady_pure _) (steady_pure _)

theorem steady_placeBreakpoint (address : BitVec arch.width) (kind : Kind) :
    Steady (placeBreakpoint address kind) := by
  refine steady_bind steady_get fun w => steady_bind (steady_lift _) fun read => ?_
  obtain ⟨insn, kind⟩ := read
  cases insn with
  | none => exact steady_throw .assertion
  | some insn =>
    refine steady_bind (steady_lookAhead _ _) fun kind =>
      steady_bind (steady_patchInferior _ _ _) fun done => ?_
    exact steady_bind (steady_assert _) fun _ => steady_bind (steady_lookAhead _ _) fun _ =>
      steady_pure _

theorem steady_patchAtPc (regs : arch.Regs) : Steady (patchAtPc regs) := by
  refine steady_bind steady_get fun w => steady_ite ?_ (steady_pure none)
  exact steady_bind (steady_placeBreakpoint _ _) fun _ => steady_pure _

theorem steady_revertPatch (address : BitVec arch.width) (patch : Option (Word × Kind)) :
    Steady (revertPatch address patch) := by
  cases patch with
  | none => exact steady_pure ()
  | some patch =>
    exact steady_bind (steady_lookAhead _ _) fun _ => steady_bind (steady_patchInferior _ _ _) fun _ =>
      steady_bind (steady_lookAhead _ _) fun _ => steady_pure ()

theorem steady_prepareStack (context : arch.Context) (regs : arch.Regs) :
    Steady (prepareStack context regs) := by
  refine steady_bind steady_get fun w => ?_
  split
  · exact steady_bind (steady_modify fun w => ⟨rfl, rfl, rfl, rfl⟩) fun _ => steady_pure _
  · exact steady_bind (steady_modify fun w => ⟨rfl, rfl, rfl, rfl⟩) fun _ => steady_pure _
  · exact steady_throw .assertion
  · exact steady_throw .unending

theorem request_alive (ran : request w = .ok () w') : w.inferior.dead = false := by
  replace ran := get_bind_ran ran
  split at ran
  · cases ran
  · rename_i alive
    exact Bool.not_eq_true _ ▸ alive

/-- The registers that are read are those of a live thread. -/
theorem threadGetRegs_ran {regs : arch.Regs} (ran : threadGetRegs w = .ok regs w') :
    regs = w.regs ∧ w.inferior.dead = false ∧ Within w w' := by
  have within := steady_threadGetRegs w regs w' ran
  replace ran := get_bind_ran ran
  obtain ⟨-, ran⟩ := assert_bind_ran ran
  obtain ⟨⟨⟩, u, requested, ran⟩ := bind_ran ran
  cases ran
  exact ⟨rfl, request_alive requested, within⟩

/-- Setting the registers changes nothing else. -/
theorem threadSetRegs_ran {regs : arch.Regs} (ran : threadSetRegs regs w = .ok () w') :
    w'.regs = regs ∧ w'.reports = w.reports ∧ w'.thread.slavemode = w.thread.slavemode ∧
      w'.inferior.dead = w.inferior.dead := by
  replace ran := get_bind_ran ran
  obtain ⟨-, ran⟩ := assert_bind_ran ran
  obtain ⟨⟨⟩, u, requested, ran⟩ := bind_ran ran
  have within := steady_request w () u requested
  cases ran
  exact ⟨rfl, within.reports, within.slavemode, within.dead⟩

/-! ## What a wait reports -/

theorem threadHandleStatus_signal {signo : Signo} {regs : arch.Regs}
    {memory : BitVec arch.width → BitVec 8}
    {mapped : BitVec arch.width → Bool}
    (ran : threadHandleStatus (.signal signo regs memory mapped) w = .ok () w') :
    w'.regs = regs ∧ w'.thread.signo = some signo ∧ w'.reports = w.reports ∧
      w'.thread.slavemode = w.thread.slavemode ∧ w'.inferior.dead = false := by
  replace ran := modify_bind_ran ran
  replace ran := get_bind_ran ran
  split at ran
  · obtain ⟨now, v, read, ran⟩ := bind_ran ran
    obtain ⟨-, -, within⟩ := threadGetRegs_ran read
    split at ran
    all_goals
      cases ran
      exact ⟨within.regs, rfl, within.reports, within.slavemode, within.dead⟩
  · cases ran
    exact ⟨rfl, rfl, rfl, rfl, rfl⟩

/-- A wait for a live thread uses up a report. -/
theorem threadWait_ran (alive : w.inferior.dead = false) (ran : threadWait w = .ok () w') :
    w'.thread.slavemode = w.thread.slavemode ∧
      ((∃ signo memory mapped, w.reports = .signal signo w'.regs memory mapped :: w'.reports ∧
          w'.thread.signo = some signo ∧ w'.inferior.dead = false) ∨
        (w.reports = .exited :: w'.reports ∧ w'.inferior.dead = true)) := by
  replace ran := get_bind_ran ran
  rw [alive] at ran
  simp only [Bool.false_eq_true, ↓reduceIte] at ran
  cases next : w.reports with
  | nil =>
    rw [next] at ran
    cases ran
  | cons report rest =>
    rw [next] at ran
    replace ran := modify_bind_ran ran
    cases report with
    | exited =>
      cases ran
      exact ⟨rfl, .inr ⟨rfl, rfl⟩⟩
    | signal signo regs memory mapped =>
      obtain ⟨isRegs, stop, left, slavemode, alive'⟩ := threadHandleStatus_signal ran
      exact ⟨slavemode, .inl ⟨signo, memory, mapped, by rw [isRegs, left], stop, alive'⟩⟩

/-- The stops that `fncall_call` passes over. -/
def IsStop : Report arch → Prop
  | .signal signo _ _ _ => signo = .sigstop
  | .exited => False

/-- The loop of a call ends with the first stop that is no `SIGSTOP`. -/
theorem callLoop_ran {rounds : Nat} {result : Option Signo} (alive : w.inferior.dead = false)
    (ran : callLoop rounds w = .ok result w') :
    w'.thread.slavemode = w.thread.slavemode ∧
      match result with
      | none => w'.inferior.dead = true
      | some signo => ∃ stops memory mapped, (∀ r ∈ stops, IsStop r) ∧
          w.reports = stops ++ .signal signo w'.regs memory mapped :: w'.reports := by
  induction rounds generalizing w with
  | zero => cases ran
  | succ rounds ih =>
    obtain ⟨⟨⟩, v, waited, ran⟩ := bind_ran ran
    obtain ⟨mode, outcome⟩ := threadWait_ran alive waited
    replace ran := get_bind_ran ran
    rcases outcome with ⟨signo, memory, mapped, next, stop, alive'⟩ | ⟨-, dead⟩
    · simp only [alive', Bool.false_eq_true, ↓reduceIte] at ran
      obtain ⟨⟨⟩, u, taken, ran⟩ := bind_ran ran
      have kept := steady_setThread (f := fun t => { t with signo := none }) (fun _ => rfl) v () u taken
      simp only [stop] at ran
      by_cases passed : signo = .sigstop
      · rw [passed] at ran next
        obtain ⟨⟨⟩, t, resumed, ran⟩ := bind_ran ran
        have within := kept.trans (steady_threadContinue u () t resumed)
        obtain ⟨mode', ended⟩ := ih (within.dead.trans alive') ran
        refine ⟨mode'.trans (within.slavemode.trans mode), ?_⟩
        cases result with
        | none => exact ended
        | some last =>
          obtain ⟨stops, memory', mapped', all, rest⟩ := ended
          refine ⟨.signal .sigstop v.regs memory mapped :: stops, memory', mapped', ?_, ?_⟩
          · intro r member
            rcases List.mem_cons.mp member with rfl | member
            · rfl
            · exact all r member
          · rw [next, List.cons_append, ← rest, within.reports]
      · have ended : (pure (some signo) : Action arch _) u = .ok result w' := by
          cases signo <;> first | exact absurd rfl passed | exact ran
        cases ended
        refine ⟨kept.slavemode.trans mode, [], memory, mapped,
          fun r member => absurd member List.not_mem_nil, ?_⟩
        rw [next, kept.regs, kept.reports]
        rfl
    · simp only [dead, ↓reduceIte] at ran
      cases ran
      exact ⟨mode, dead⟩

/-- The loop of a restop uses up a first part of the reports. -/
theorem restopLoop_ran {rounds : Nat} (alive : w.inferior.dead = false)
    (ran : restopLoop rounds w = .ok () w') :
    w'.thread.slavemode = w.thread.slavemode ∧ ∃ used, w.reports = used ++ w'.reports := by
  induction rounds generalizing w with
  | zero => cases ran
  | succ rounds ih =>
    obtain ⟨⟨⟩, v, waited, ran⟩ := bind_ran ran
    obtain ⟨mode, outcome⟩ := threadWait_ran alive waited
    replace ran := get_bind_ran ran
    rcases outcome with ⟨signo, memory, mapped, next, stop, alive'⟩ | ⟨next, dead⟩
    · simp only [alive', Bool.false_eq_true, ↓reduceIte, stop] at ran
      -- a signal that is none of the three is delivered
      have outcome : (pure () : Action arch Unit) v = .ok () w' ∨
          (threadContinue >>= fun _ => restopLoop rounds) v = .ok () w' := by
        cases signo <;> first | exact .inl ran | exact .inr ran
      rcases outcome with done | again
      · cases done
        exact ⟨mode, [.signal signo w'.regs memory mapped], next⟩
      · obtain ⟨⟨⟩, t, resumed, ran⟩ := bind_ran again
        have within := steady_threadContinue _ () t resumed
        obtain ⟨mode', used, rest⟩ := ih (within.dead.trans alive') ran
        refine ⟨mode'.trans (within.slavemode.trans mode),
          .signal signo v.regs memory mapped :: used, ?_⟩
        rw [next, List.cons_append, ← rest, within.reports]
    · simp only [dead, ↓reduceIte] at ran
      cases ran
      exact ⟨mode, [.exited], next⟩

/-! ## Calls -/

/-- A restop puts the registers back, unless the thread dies in it. -/
theorem fncallRestop_ran {restopped : Bool} (ran : fncallRestop w = .ok restopped w') :
    if restopped then w'.regs = w.regs ∧ ∃ used, w.reports = used ++ w'.reports
      else w'.inferior.dead = true := by
  replace ran := get_bind_ran ran
  obtain ⟨-, ran⟩ := assert_bind_ran ran
  replace ran := modify_bind_ran ran
  obtain ⟨regs, s, read, ran⟩ := bind_ran ran
  obtain ⟨isRegs, alive, saved⟩ := threadGetRegs_ran read
  obtain ⟨patch, r, patched, ran⟩ := bind_ran ran
  obtain ⟨⟨⟩, q, resumed, ran⟩ := bind_ran ran
  have running := (saved.trans (steady_patchAtPc regs s patch r patched)).trans
    (steady_threadContinue r () q resumed)
  obtain ⟨⟨⟩, p, looped, ran⟩ := bind_ran ran
  obtain ⟨-, used, left⟩ := restopLoop_ran (running.dead.trans alive) looped
  replace ran := get_bind_ran ran
  split at ran
  · rename_i dead
    cases ran
    exact dead
  · replace ran := modify_bind_ran ran
    obtain ⟨now, n, read', ran⟩ := bind_ran ran
    obtain ⟨-, -, asked⟩ := threadGetRegs_ran read'
    obtain ⟨⟨⟩, m, set, ran⟩ := bind_ran ran
    obtain ⟨restored, kept, -, -⟩ := threadSetRegs_ran set
    obtain ⟨⟨⟩, l, reverted, ran⟩ := bind_ran ran
    have last := steady_revertPatch _ _ m () l reverted
    replace ran := modify_bind_ran ran
    cases ran
    refine ⟨?_, used, ?_⟩
    · rw [last.regs, restored, isRegs]
    · rw [last.reports, kept, asked.reports, ← left, running.reports]

/-- What it is for a call to have returned: the thread was stopped by a
segmentation fault at the return address, and the context has the registers it
had there. Before, it was stopped by a `SIGSTOP` only, or restopped. -/
def Returned (context : arch.Context) (w w' : World arch) (context' : arch.Context) : Prop :=
  ∃ restop stops regs memory mapped, (w.thread.execed = false → restop = []) ∧ (∀ r ∈ stops, IsStop r) ∧
    w.reports = restop ++ (stops ++ .signal .sigsegv regs memory mapped :: w'.reports) ∧
    arch.pc regs = 0 ∧ context' = arch.readRegisters regs context

/-- From the check of the execution state on, a live thread gets its registers
back on every way out. -/
theorem fncallRun_ran {address : BitVec arch.width} {context : arch.Context}
    {result : Bool × arch.Context}
    (alive : w.inferior.dead = false) (ran : fncallRun address context w.regs w = .ok result w') :
    (w'.inferior.dead = false → w'.regs = w.regs) ∧
      (result.1 = true → ∃ stops regs memory mapped, (∀ r ∈ stops, IsStop r) ∧
        w.reports = stops ++ .signal .sigsegv regs memory mapped :: w'.reports ∧
        arch.pc regs = 0 ∧ result.2 = arch.readRegisters regs context) := by
  unfold fncallRun at ran
  split at ran
  · obtain ⟨prepared, u, pushed, ran⟩ := bind_ran ran
    have stack := steady_prepareStack _ _ w prepared u pushed
    cases prepared with
    | none =>
      obtain ⟨⟨⟩, t, set, ran⟩ := bind_ran ran
      cases ran
      exact ⟨fun _ => (threadSetRegs_ran set).1, fun returned => by cases returned⟩
    | some regs =>
      obtain ⟨⟨⟩, t, set, ran⟩ := bind_ran ran
      obtain ⟨-, kept, -, lives⟩ := threadSetRegs_ran set
      obtain ⟨⟨⟩, s, resumed, ran⟩ := bind_ran ran
      have running := steady_threadContinue t () s resumed
      replace ran := get_bind_ran ran
      obtain ⟨signo, r, looped, ran⟩ := bind_ran ran
      obtain ⟨-, ended⟩ := callLoop_ran (running.dead.trans (lives.trans (stack.dead.trans alive)))
        looped
      cases signo with
      | none =>
        cases ran
        exact ⟨fun alive' => absurd (alive'.symm.trans ended) Bool.false_ne_true,
          fun returned => by cases returned⟩
      | some signo =>
        obtain ⟨stops, memory, mapped, all, left⟩ := ended
        obtain ⟨now, q, read, ran⟩ := bind_ran ran
        obtain ⟨isNow, -, asked⟩ := threadGetRegs_ran read
        obtain ⟨⟨⟩, p, restored, ran⟩ := bind_ran ran
        obtain ⟨back, rest, -, -⟩ := threadSetRegs_ran restored
        split at ran
        · rename_i atNull
          obtain ⟨fault, null⟩ := atNull
          cases ran
          refine ⟨fun _ => back,
            fun _ => ⟨stops, r.regs, memory, mapped, all, ?_, isNow ▸ null, isNow ▸ rfl⟩⟩
          rw [rest, asked.reports, ← fault, ← left, running.reports, kept, stack.reports]
        · cases ran
          exact ⟨fun _ => back, fun returned => by cases returned⟩
  · cases ran
    exact ⟨fun _ => rfl, fun returned => by cases returned⟩

theorem fncallStart_ran {address : BitVec arch.width} {context : arch.Context}
    {result : Bool × arch.Context}
    (ran : fncallStart address context w = .ok result w') :
    (w'.inferior.dead = false → w'.regs = w.regs ∧ w'.thread.slavemode = false) ∧
      (result.1 = true → ∃ stops regs memory mapped, (∀ r ∈ stops, IsStop r) ∧
        w.reports = stops ++ .signal .sigsegv regs memory mapped :: w'.reports ∧
        arch.pc regs = 0 ∧ result.2 = arch.readRegisters regs context) := by
  replace ran := get_bind_ran ran
  obtain ⟨-, ran⟩ := assert_bind_ran ran
  replace ran := modify_bind_ran ran
  obtain ⟨regs, s, read, ran⟩ := bind_ran ran
  obtain ⟨isRegs, alive, saved⟩ := threadGetRegs_ran read
  have same : regs = s.regs := isRegs.trans saved.regs.symm
  obtain ⟨result', r, called, ran⟩ := bind_ran ran
  rw [same] at called
  obtain ⟨restored, returned⟩ := fncallRun_ran (saved.dead.trans alive) called
  replace ran := modify_bind_ran ran
  cases ran
  refine ⟨fun lives => ⟨?_, rfl⟩, fun isTrue => ?_⟩
  · rw [restored lives, saved.regs]
  · obtain ⟨stops, at', memory, mapped, all, left, atNull⟩ := returned isTrue
    exact ⟨stops, at', memory, mapped, all, by rw [← left, saved.reports], atNull⟩

/-- On every return of a call with the thread alive its registers are what they
were and it is not in slave mode; and only a call that has returned is true. -/
theorem register_neutral (arch : Arch) (address : BitVec arch.width) (context : arch.Context)
    (w w' : World arch)
    (result : Bool × arch.Context) (ran : fncallCall arch address context w = .ok result w') :
    (w'.inferior.dead = false → w'.regs = w.regs ∧ w'.thread.slavemode = false) ∧
      (result.1 = true → Returned context w w' result.2) := by
  replace ran := get_bind_ran ran
  split at ran
  · rename_i execed
    obtain ⟨restopped, u, restop, ran⟩ := bind_ran ran
    have stopped := fncallRestop_ran restop
    cases restopped with
    | true =>
      obtain ⟨same, used, left⟩ := stopped
      replace ran := modify_bind_ran ran
      obtain ⟨neutral, returned⟩ := fncallStart_ran ran
      refine ⟨fun lives => ⟨(neutral lives).1.trans same, (neutral lives).2⟩, fun isTrue => ?_⟩
      obtain ⟨stops, regs, memory, mapped, all, rest, atNull⟩ := returned isTrue
      exact ⟨used, stops, regs, memory, mapped,
        fun fresh => absurd (fresh.symm.trans execed) Bool.false_ne_true, all,
        by rw [left, ← rest], atNull⟩
    | false =>
      replace ran := modify_bind_ran ran
      cases ran
      exact ⟨fun lives => absurd (lives.symm.trans stopped) Bool.false_ne_true,
        fun returned => by cases returned⟩
  · obtain ⟨neutral, returned⟩ := fncallStart_ran ran
    refine ⟨neutral, fun isTrue => ?_⟩
    obtain ⟨stops, regs, memory, mapped, all, rest, atNull⟩ := returned isTrue
    exact ⟨[], stops, regs, memory, mapped, fun _ => rfl, all, rest, atNull⟩

/-- All of the memory is mapped and holds zeros. -/
def zeroed : MemWrite.Inferior Arm64.arm64.width := ⟨fun _ => 0, fun _ => true, false, Bool.noConfusion⟩

private def zeroRegs : Arm64.PtRegs where
  regs _ := 0
  sp := 0x8000
  pc := 0x1000
  pstate := 0

private def emptyContext : Arm64.CallContext where
  registers _ := 0
  elements := ⟨0, fun _ => 0⟩
  mode32 := false

/-- The thread is stopped by somebody's `SIGSTOP` before the function returns 7. -/
private def returning : World Arm64.arm64 where
  thread := ⟨false, false, false, false, false, none⟩
  regs := zeroRegs
  inferior := zeroed
  segments := []
  injected _ := false
  othersRunning := false
  stabilizing := false
  code _ := false
  answers := []
  reports :=
    [.signal .sigstop zeroRegs (fun _ => 0) fun _ => true,
      .signal .sigsegv { zeroRegs with pc := 0, regs := fun _ => 7 } (fun _ => 0) fun _ => true]

theorem returning_neutral : ∃ context w', Arm64.fncallCall 0x2000 emptyContext returning =
    .ok (true, context) w' ∧
    (w'.regs = zeroRegs ∧ w'.thread.slavemode = false) ∧ Returned emptyContext returning w' context := by
  obtain ⟨context, w', ran, alive⟩ :
      ∃ context w', Arm64.fncallCall 0x2000 emptyContext returning = .ok (true, context) w' ∧
      w'.inferior.dead = false := ⟨_, _, rfl, rfl⟩
  have neutral := register_neutral Arm64.arm64 0x2000 emptyContext returning w' (true, context) ran
  exact ⟨context, w', ran, neutral.1 alive, neutral.2 rfl⟩

end Adbi.FncallProofs
