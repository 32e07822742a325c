import Adbi.CallEndsProofs

/-! One call by the two models of `fncall_call`. `Fncall` has the registers and
the memory of the inferior, `Tracee` the senders of the signals and what else a
thread reports. A call that comes to its end in the one does so in the other,
on the same reports, and leaves the thread in the same state. -/
namespace Adbi.TracedCallProofs
open Adbi.Lib Adbi.FncallProofs Adbi.CallEndsProofs
open Adbi.Tracee (Signo Signal)

variable {arch : Fncall.Arch} {w w' : Fncall.World arch} {t : Tracee.World}

/-- A report as both models have it. -/
inductive Reported : Fncall.Report arch → Tracee.Report → Prop
  | signal (signo : Signo) (regs : arch.Regs) (memory : BitVec arch.width → BitVec 8)
      (mapped : BitVec arch.width → Bool) (seen : Tracee.Regs) (rescan : Tracee.Rescan)
      (here : seen.pc = (arch.pc regs).toNat) :
      Reported (.signal signo regs memory mapped) (.signal signo seen rescan)
  | exited : Reported .exited .exited

/-- A thread as both models have it, but for its registers, and what it is going to report. -/
structure Shows (w : Fncall.World arch) (t : Tracee.World) : Prop where
  running : t.thread.running = w.thread.running
  setoptions : t.thread.setoptions = w.thread.setoptions
  execed : t.thread.execed = w.thread.execed
  stopme : t.thread.stopme = w.thread.stopme
  slavemode : t.thread.slavemode = w.thread.slavemode
  dead : t.thread.dead = w.inferior.dead
  signo : t.thread.signo.map Signal.signo = w.thread.signo
  stabilizing : t.stabilizing = w.stabilizing
  code : ∀ address : BitVec arch.width, t.layout.code address.toNat = w.code address
  reports : List.Forall₂ Reported w.reports t.reports

/-- The stop has been taken note of. -/
private theorem Shows.quiet (shows_ : Shows w t) :
    Shows { w with thread := { w.thread with signo := none } }
      { t with thread := { t.thread with signo := none } } :=
  ⟨shows_.running, shows_.setoptions, shows_.execed, shows_.stopme, shows_.slavemode, shows_.dead, rfl,
    shows_.stabilizing, shows_.code, shows_.reports⟩

/-! ## Waiting -/

/-- A stop that is reported in slave mode. -/
private theorem signal_shows (shows_ : Shows w t) (slave : w.thread.slavemode = true)
    (alive : w.inferior.dead = false) {signo : Signo} {regs : arch.Regs}
    {memory : BitVec arch.width → BitVec 8} {mapped : BitVec arch.width → Bool}
    {rest : List (Fncall.Report arch)} {seen : Tracee.Regs} {rescan : Tracee.Rescan}
    {later : List Tracee.Report} (here : seen.pc = (arch.pc regs).toNat)
    (next : t.reports = .signal signo seen rescan :: later)
    (reports : List.Forall₂ Reported rest later) :
    ∃ t', Tracee.slaveWait t = .ok () t' ∧ Shows (heard w signo regs memory mapped rest) t' ∧
      t'.reports = later := by
  have alive' := shows_.dead.trans alive
  have slave' := shows_.slavemode.trans slave
  have looking : (t.stabilizing && signo = .sigsegv && t.layout.code seen.pc) =
      (looks w signo && w.code (arch.pc regs)) := by
    rw [looks, shows_.stabilizing, here, shows_.code]
  by_cases held : (t.stabilizing && signo = .sigsegv && t.layout.code seen.pc) = true
  · -- The signal is kept for the stabilization, which looks at it.
    have looked := looking.symm.trans held
    obtain ⟨⟨stabilizing, rfl⟩, code⟩ : (t.stabilizing = true ∧ signo = .sigsegv) ∧
        t.layout.code seen.pc = true := by
      simpa using held
    simp [Tracee.slaveWait, Tracee.threadWait, alive', next, Tracee.threadHandleStatus,
      Tracee.stoppedBy, slave', Tracee.isTrap, Tracee.threadHandleSignal, stabilizing, code,
      Tracee.setThread]
    exact ⟨rfl, shows_.setoptions, shows_.execed, by simp [heard, looked, shows_.stopme], slave.symm,
      rfl, rfl, stabilizing.symm.trans shows_.stabilizing, shows_.code, reports⟩
  · have looked : (looks w signo && w.code (arch.pc regs)) = false := by
      rw [← looking]
      simpa using held
    have resumed : ¬((t.stabilizing = true ∧ signo = .sigsegv) ∧ t.layout.code seen.pc = true) := by
      simpa using held
    by_cases stop : signo = .sigstop
    · subst stop
      simp [Tracee.slaveWait, Tracee.threadWait, alive', next, Tracee.threadHandleStatus,
        Tracee.stoppedBy, slave', Tracee.threadHandleSignal, Tracee.threadContinueOrStop,
        Tracee.setThread, Tracee.keepStopped]
      exact ⟨rfl, shows_.setoptions, shows_.execed, by simp [heard, looked], slave.symm, rfl, rfl,
        shows_.stabilizing, shows_.code, reports⟩
    · simp [Tracee.slaveWait, Tracee.threadWait, alive', next, Tracee.threadHandleStatus,
        Tracee.stoppedBy, stop, slave', Tracee.threadHandleSignal, resumed, Tracee.threadContinueOrStop,
        Tracee.setThread, Tracee.keepStopped]
      exact ⟨rfl, shows_.setoptions, shows_.execed, by simp [heard, looked], slave.symm, rfl, rfl,
        shows_.stabilizing, shows_.code, reports⟩

/-- A wait of the live thread. -/
private theorem wait_shows (shows_ : Shows w t) (slave : w.thread.slavemode = true)
    (alive : w.inferior.dead = false) (ran : Fncall.threadWait w = .ok () w') :
    ∃ t', Tracee.slaveWait t = .ok () t' ∧ Shows w' t' ∧ w'.thread.slavemode = true ∧
      t'.reports.length < t.reports.length := by
  have alive' := shows_.dead.trans alive
  have reports := shows_.reports
  generalize next : w.reports = list at reports
  generalize next' : t.reports = list' at reports
  cases reports with
  | nil => simp [Fncall.threadWait, alive, next] at ran
  | @cons report report' rest later here reports =>
    cases here with
    | signal signo regs memory mapped seen rescan here =>
      rw [← bind_pure Fncall.threadWait] at ran
      obtain ⟨-, same⟩ := (threadWait_bind_iff alive next).mp ran
      cases same
      obtain ⟨t', ran', shows', left⟩ : ∃ t', Tracee.slaveWait t = .ok () t' ∧
          Shows (heard w signo regs memory mapped rest) t' ∧ t'.reports = later :=
        signal_shows shows_ slave alive here next' reports
      exact ⟨t', ran', shows', slave, by simp [left]⟩
    | exited =>
      simp only [Fncall.threadWait, run_bind, run_get, alive, Bool.false_eq_true, ↓reduceIte, next,
        run_modify, Fncall.threadHandleStatus, EStateM.Result.ok.injEq, true_and] at ran
      subst ran
      refine ⟨{ t with reports := later, thread := Tracee.threadExit t.thread }, ?_, ?_, slave, by simp⟩
      · simp [Tracee.slaveWait, Tracee.threadWait, alive', next', Tracee.threadHandleStatus,
          Tracee.setThread]
      · exact ⟨rfl, shows_.setoptions, shows_.execed, shows_.stopme, shows_.slavemode, rfl, shows_.signo,
          shows_.stabilizing, shows_.code, reports⟩

/-- Letting the thread run. -/
private theorem continue_shows (shows_ : Shows w t) (ran : Fncall.threadContinue w = .ok () w') :
    Shows w' { t with thread := Tracee.threadContinue none t.thread } ∧
      w'.thread.slavemode = w.thread.slavemode ∧ w'.inferior.dead = w.inferior.dead := by
  replace ran := get_bind_ran ran
  rw [← shows_.dead, ← shows_.running] at ran
  unfold Tracee.threadContinue
  split at ran
  · rename_i still
    cases ran
    rw [if_pos still]
    exact ⟨shows_, rfl, rfl⟩
  · rename_i stopped
    rw [if_neg stopped]
    have resumed (k : Nat) : Shows { CallEndsProofs.spend k w with
        thread := { w.thread with setoptions := false, signo := none, running := true } }
        { t with thread := { t.thread with
          setoptions := false
          running := true
          signo := none
          delivered := t.thread.signo :: t.thread.delivered } } :=
      ⟨rfl, rfl, shows_.execed, shows_.stopme, shows_.slavemode, shows_.dead, rfl, shows_.stabilizing,
        shows_.code, shows_.reports⟩
    split at ran
    · obtain ⟨-, ran⟩ := request_bind_iff.mp ran
      obtain ⟨-, ran⟩ := request_bind_iff.mp ran
      cases ran
      rw [spend_spend]
      exact ⟨resumed _, rfl, rfl⟩
    · obtain ⟨-, ran⟩ := request_bind_iff.mp ran
      cases ran
      exact ⟨resumed _, rfl, rfl⟩

/-! ## The loops -/

private theorem callLoop_shows {rounds rounds' : Nat} {result : Option Signo} (shows_ : Shows w t)
    (slave : w.thread.slavemode = true) (alive : w.inferior.dead = false)
    (enough : t.reports.length ≤ rounds') (ran : Fncall.callLoop rounds w = .ok result w') :
    ∃ t', Tracee.callLoop rounds' t = .ok () t' ∧ Shows w' t' ∧ w'.thread.slavemode = true ∧
      (result = none ↔ w'.inferior.dead = true) := by
  induction rounds generalizing w t rounds' with
  | zero => cases ran
  | succ rounds ih =>
    obtain ⟨⟨⟩, v, waited, ran⟩ := bind_ran ran
    obtain ⟨u, waited', shows', slave', fewer⟩ := wait_shows shows_ slave alive waited
    obtain ⟨left, rfl⟩ : ∃ left, rounds' = left + 1 := ⟨rounds' - 1, by omega⟩
    replace ran := get_bind_ran ran
    split at ran
    · rename_i dead
      cases ran
      refine ⟨u, ?_, shows', slave', by simp [dead]⟩
      simp only [Tracee.callLoop, run_bind, waited', run_get, shows'.dead, dead, ↓reduceIte, run_pure]
    · rename_i lives
      replace ran := modify_bind_ran ran
      cases stop : v.thread.signo with
      | none =>
        rw [stop] at ran
        cases ran
      | some signo =>
        rw [stop] at ran
        by_cases again : signo = .sigstop
        · subst again
          obtain ⟨⟨⟩, v', continued, ran⟩ := bind_ran ran
          obtain ⟨further, mode, dead⟩ := continue_shows shows'.quiet continued
          have turn : Tracee.callLoop (left + 1) t = Tracee.callLoop left
              { u with thread := Tracee.threadContinue none { u.thread with signo := none } } := by
            simp only [Tracee.callLoop, run_bind, waited', run_get, shows'.dead, lives, ↓reduceIte,
              Tracee.setThread, run_modify, shows'.signo, stop, Bool.false_eq_true]
          rw [turn]
          exact ih further (mode.trans slave') (dead.trans (by simpa using lives))
            (by simp only; omega) ran
        · have turn : Tracee.callLoop (left + 1) t =
              .ok () { u with thread := { u.thread with signo := none } } := by
            cases signo <;> first
              | exact absurd rfl again
              | simp only [Tracee.callLoop, run_bind, waited', run_get, shows'.dead, lives, ↓reduceIte,
                  Tracee.setThread, run_modify, run_pure, shows'.signo, stop, Bool.false_eq_true]
          refine ⟨{ u with thread := { u.thread with signo := none } }, turn, ?_⟩
          cases signo <;> first
            | exact absurd rfl again
            | cases ran; exact ⟨shows'.quiet, slave', by simpa using lives⟩

private theorem restopLoop_shows {rounds rounds' : Nat} (shows_ : Shows w t)
    (slave : w.thread.slavemode = true) (alive : w.inferior.dead = false)
    (enough : t.reports.length ≤ rounds') (ran : Fncall.restopLoop rounds w = .ok () w') :
    ∃ t', Tracee.restopLoop rounds' t = .ok () t' ∧ Shows w' t' ∧ w'.thread.slavemode = true := by
  induction rounds generalizing w t rounds' with
  | zero => cases ran
  | succ rounds ih =>
    obtain ⟨⟨⟩, v, waited, ran⟩ := bind_ran ran
    obtain ⟨u, waited', shows', slave', fewer⟩ := wait_shows shows_ slave alive waited
    obtain ⟨left, rfl⟩ : ∃ left, rounds' = left + 1 := ⟨rounds' - 1, by omega⟩
    replace ran := get_bind_ran ran
    split at ran
    · rename_i dead
      cases ran
      refine ⟨u, ?_, shows', slave'⟩
      simp only [Tracee.restopLoop, run_bind, waited', run_get, shows'.dead, dead, ↓reduceIte, run_pure]
    · rename_i lives
      have resumed (ran : (Fncall.threadContinue >>= fun _ => Fncall.restopLoop rounds) v = .ok () w')
          (turn : Tracee.restopLoop (left + 1) t =
            Tracee.restopLoop left { u with thread := Tracee.threadContinue none u.thread }) :
          ∃ t', Tracee.restopLoop (left + 1) t = .ok () t' ∧ Shows w' t' ∧
            w'.thread.slavemode = true := by
        obtain ⟨⟨⟩, v', continued, ran⟩ := bind_ran ran
        obtain ⟨further, mode, dead⟩ := continue_shows shows' continued
        rw [turn]
        exact ih further (mode.trans slave') (dead.trans (by simpa using lives))
          (by simp only; omega) ran
      cases stop : v.thread.signo with
      | none =>
        rw [stop] at ran
        refine resumed ran ?_
        simp only [Tracee.restopLoop, run_bind, waited', run_get, shows'.dead, lives, ↓reduceIte,
          Tracee.setThread, run_modify, shows'.signo, stop, Bool.false_eq_true]
      | some signo =>
        rw [stop] at ran
        cases signo with
        | sigsegv | sigtrap | sigbus =>
          cases ran
          refine ⟨u, ?_, shows', slave'⟩
          simp only [Tracee.restopLoop, run_bind, waited', run_get, shows'.dead, lives, ↓reduceIte,
            run_pure, shows'.signo, stop, Bool.false_eq_true]
        | sigstop | sigill | other =>
          refine resumed ran ?_
          simp only [Tracee.restopLoop, run_bind, waited', run_get, shows'.dead, lives, ↓reduceIte,
            Tracee.setThread, run_modify, shows'.signo, stop, Bool.false_eq_true]

/-! ## The call -/

/-- What is not shown changes. -/
private theorem Shows.hidden (shows_ : Shows w t) {regs : arch.Regs}
    {inferior : MemWrite.Inferior arch.width} {answers : List Bool}
    (dead : inferior.dead = w.inferior.dead) :
    Shows { w with regs := regs, inferior := inferior, answers := answers } t :=
  ⟨shows_.running, shows_.setoptions, shows_.execed, shows_.stopme, shows_.slavemode,
    shows_.dead.trans dead.symm, shows_.signo, shows_.stabilizing, shows_.code, shows_.reports⟩

private theorem Shows.mode (shows_ : Shows w t) (slavemode : Bool) :
    Shows { w with thread := { w.thread with slavemode := slavemode } }
      { t with thread := { t.thread with slavemode := slavemode } } :=
  ⟨shows_.running, shows_.setoptions, shows_.execed, shows_.stopme, rfl, shows_.dead, shows_.signo,
    shows_.stabilizing, shows_.code, shows_.reports⟩

/-- The frame of what changes only what is not shown. -/
private theorem Shows.frame (shows_ : Shows w t) {v : Fncall.World arch}
    {inferior : MemWrite.Inferior arch.width} (same : v = { w with inferior := inferior })
    (dead : v.inferior.dead = w.inferior.dead) : Shows v t := by
  subst same
  exact shows_.hidden dead

private theorem getRegs_shows {regs : arch.Regs} (shows_ : Shows w t)
    (ran : Fncall.threadGetRegs w = .ok regs w') :
    Tracee.threadGetRegs t = .ok t.thread.regs t ∧ Shows w' t ∧ w'.thread = w.thread ∧
      w.inferior.dead = false ∧ w'.inferior.dead = false := by
  rw [← bind_pure Fncall.threadGetRegs] at ran
  obtain ⟨stopped, ⟨alive, -⟩, same⟩ := threadGetRegs_bind_iff.mp ran
  cases same
  refine ⟨?_, shows_.hidden rfl, rfl, alive, alive⟩
  simp [Tracee.threadGetRegs, Tracee.assert, shows_.running.trans stopped, shows_.dead.trans alive]

/-- The registers of the thread are not shown. -/
private theorem setRegs_shows {regs : arch.Regs} (shows_ : Shows w t)
    (ran : Fncall.threadSetRegs regs w = .ok () w') (seen : Tracee.Regs) :
    Tracee.threadSetRegs seen t = .ok () { t with thread := { t.thread with regs := seen } } ∧
      Shows w' t ∧ Shows w' { t with thread := { t.thread with regs := seen } } ∧
      w'.thread = w.thread ∧ w'.inferior.dead = false := by
  rw [← bind_pure (Fncall.threadSetRegs regs)] at ran
  obtain ⟨stopped, ⟨alive, -⟩, same⟩ := threadSetRegs_bind_iff.mp ran
  cases same
  have kept : Shows { spend 1 w with regs := regs } t := shows_.hidden rfl
  refine ⟨?_, kept, ?_, rfl, alive⟩
  · simp [Tracee.threadSetRegs, Tracee.assert, Tracee.setThread, shows_.running.trans stopped,
      shows_.dead.trans alive]
  · exact ⟨kept.running, kept.setoptions, kept.execed, kept.stopme, kept.slavemode, kept.dead, kept.signo,
      kept.stabilizing, kept.code, kept.reports⟩

private theorem prepareStack_shows {context : arch.Context} {regs : arch.Regs}
    {prepared : Option arch.Regs} (shows_ : Shows w t)
    (ran : Fncall.prepareStack context regs w = .ok prepared w') :
    Shows w' t ∧ w'.thread = w.thread ∧ w'.inferior.dead = w.inferior.dead := by
  cases pushed : arch.pushStack regs context ⟨arch.sp regs, w.inferior, []⟩ with
  | ok _ p =>
    simp only [Fncall.prepareStack, run_bind, run_get, pushed, run_modify, run_pure] at ran
    cases ran
    exact ⟨shows_.hidden rfl, rfl, rfl⟩
  | error stop p =>
    cases stop <;>
      simp only [Fncall.prepareStack, run_bind, run_get, pushed, run_modify, run_pure] at ran
    case refused =>
      cases ran
      exact ⟨shows_.hidden rfl, rfl, rfl⟩
    all_goals cases ran

private theorem assert_bind {holds : Bool} {rest : Unit → Tracee.Action Unit} (passes : holds = true) :
    (Tracee.assert holds >>= rest) t = rest () t := by
  subst passes
  rfl

private theorem setThread_bind {f : Tracee.Thread → Tracee.Thread} {rest : Unit → Tracee.Action Unit} :
    (Tracee.setThread f >>= rest) t = rest () { t with thread := f t.thread } := rfl

/-- A call from the moment when the thread is in slave mode and its registers are saved. -/
private def entered (begins : Bool) (rounds : Nat) (regs : Tracee.Regs) : Tracee.Action Unit :=
  Tracee.unlessSo (!begins) do
    Tracee.setThread (Tracee.threadContinue none)
    Tracee.callLoop rounds
    let w ← get
    Tracee.unlessSo w.thread.dead (Tracee.threadSetRegs regs)

private theorem callFrom_shows {enters oldRegs : arch.Regs} {context : arch.Context}
    {result : Bool × arch.Context} (shows_ : Shows w t) (regs : Tracee.Regs)
    (slave : w.thread.slavemode = true) (ran : callFrom enters oldRegs context w = .ok result w') :
    ∃ t', entered true t.reports.length regs t = .ok () t' ∧ Shows w' t' := by
  obtain ⟨⟨⟩, v, set, ran⟩ := bind_ran ran
  obtain ⟨-, shows_v, -, thread, lives⟩ := setRegs_shows shows_ set regs
  obtain ⟨⟨⟩, u, continued, ran⟩ := bind_ran ran
  obtain ⟨shows_u, mode, dead⟩ := continue_shows shows_v continued
  replace ran := get_bind_ran ran
  obtain ⟨ended, x, looped, ran⟩ := bind_ran ran
  have slave' : u.thread.slavemode = true := by rw [mode, thread, slave]
  obtain ⟨t', looped', shows_x, -, died⟩ :
      ∃ t', Tracee.callLoop t.reports.length
          { t with thread := Tracee.threadContinue none t.thread } = .ok () t' ∧
        Shows x t' ∧ x.thread.slavemode = true ∧ (ended = none ↔ x.inferior.dead = true) :=
    callLoop_shows shows_u slave' (dead.trans lives) le_rfl looped
  have same : entered true t.reports.length regs t =
      Tracee.unlessSo t'.thread.dead (Tracee.threadSetRegs regs) t' := by
    simp only [entered, Tracee.unlessSo, Tracee.setThread, Bool.not_true, Bool.false_eq_true, ↓reduceIte,
      run_bind, run_modify, looped', run_get]
  rw [same, shows_x.dead]
  cases ended with
  | none =>
    cases ran
    rw [died.mp rfl]
    exact ⟨t', rfl, shows_x⟩
  | some signo =>
    obtain ⟨now, y, read, ran⟩ := bind_ran ran
    obtain ⟨-, shows_y, -, alive, -⟩ := getRegs_shows shows_x read
    obtain ⟨⟨⟩, z, restored, ran⟩ := bind_ran ran
    obtain ⟨restored', -, shows_z, -, -⟩ := setRegs_shows shows_y restored regs
    rw [alive]
    refine ⟨_, restored', ?_⟩
    split at ran <;>
    · cases ran
      exact shows_z

private theorem run_shows {address : BitVec arch.width} {context : arch.Context} {oldRegs : arch.Regs}
    {result : Bool × arch.Context} (shows_ : Shows w t) (regs : Tracee.Regs)
    (slave : w.thread.slavemode = true)
    (ran : Fncall.fncallRun address context oldRegs w = .ok result w') :
    ∃ begins t', entered begins t.reports.length regs t = .ok () t' ∧ Shows w' t' := by
  rw [fncallRun_eq] at ran
  split at ran
  · obtain ⟨prepared, v, pushed, ran⟩ := bind_ran ran
    obtain ⟨shows_v, thread, -⟩ := prepareStack_shows shows_ pushed
    cases prepared with
    | none =>
      obtain ⟨⟨⟩, u, set, ran⟩ := bind_ran ran
      cases ran
      obtain ⟨-, shows_u, -, -, -⟩ := setRegs_shows shows_v set regs
      exact ⟨false, t, rfl, shows_u⟩
    | some _ => exact ⟨true, callFrom_shows shows_v regs (thread ▸ slave) ran⟩
  · cases ran
    exact ⟨false, t, rfl, shows_⟩

private theorem start_shows {address : BitVec arch.width} {context : arch.Context}
    {result : Bool × arch.Context} (shows_ : Shows w t)
    (ran : Fncall.fncallStart address context w = .ok result w') :
    ∃ begins t', Tracee.fncallStart begins t = .ok () t' ∧ Shows w' t' := by
  replace ran := get_bind_ran ran
  obtain ⟨free, ran⟩ := assert_bind_ran ran
  replace ran := modify_bind_ran ran
  obtain ⟨oldRegs, v, read, ran⟩ := bind_ran ran
  obtain ⟨read', shows_v, thread, -, -⟩ := getRegs_shows (shows_.mode true) read
  obtain ⟨result', u, called, ran⟩ := bind_ran ran
  obtain ⟨begins, t', called', shows_u⟩ := run_shows shows_v t.thread.regs (by rw [thread]) called
  cases modify_bind_ran ran
  refine ⟨begins, _, ?_, shows_u.mode false⟩
  have same : Tracee.fncallStart begins t = (Tracee.assert (!t.thread.slavemode) >>= fun _ =>
      Tracee.setThread (fun t => { t with slavemode := true }) >>= fun _ =>
        Tracee.threadGetRegs >>= fun regs => entered begins t.reports.length regs >>= fun _ =>
          Tracee.setThread fun t => { t with slavemode := false }) t := rfl
  rw [← shows_.slavemode] at free
  rw [same, assert_bind free, setThread_bind, run_bind, read']
  simp only [run_bind, called', Tracee.setThread, run_modify]

/-- A restop comes to its end in both, and the thread is dead then in both or in neither. -/
private theorem restop_shows {restopped : Bool} (shows_ : Shows w t)
    (ran : Fncall.fncallRestop w = .ok restopped w') :
    ∃ t', Tracee.fncallRestop true t = .ok () t' ∧ Shows w' t' ∧
      w'.inferior.dead = !restopped := by
  replace ran := get_bind_ran ran
  obtain ⟨free, ran⟩ := assert_bind_ran ran
  replace ran := modify_bind_ran ran
  obtain ⟨regs, v, read, ran⟩ := bind_ran ran
  obtain ⟨read', shows_v, thread, -, lives⟩ := getRegs_shows (shows_.mode true) read
  obtain ⟨patch, u, patched, ran⟩ := bind_ran ran
  have planted := steady_patchAtPc regs v patch u patched
  have shows_u := shows_v.frame ((local_patchAtPc regs).frame patched) planted.dead
  obtain ⟨⟨⟩, x, continued, ran⟩ := bind_ran ran
  obtain ⟨shows_x, mode, dead⟩ := continue_shows shows_u continued
  have slave : x.thread.slavemode = true := by rw [mode, planted.slavemode, thread]
  obtain ⟨⟨⟩, y, looped, ran⟩ := bind_ran ran
  obtain ⟨t', looped', shows_y, -⟩ :=
    restopLoop_shows shows_x slave (dead.trans (planted.dead.trans lives)) le_rfl looped
  have same : Tracee.fncallRestop true t = (if t'.thread.dead then pure ()
      else do
        Tracee.setThread fun t => { t with signo := none }
        Tracee.threadSetRegs t.thread.regs
        Tracee.setThread fun t => { t with slavemode := false } : Tracee.Action Unit) t' := by
    have first : Tracee.fncallRestop true t = (Tracee.assert (!t.thread.slavemode) >>= fun _ =>
        Tracee.setThread (fun t => { t with slavemode := true }) >>= fun _ =>
          Tracee.threadGetRegs >>= fun regs => Tracee.setThread (Tracee.threadContinue none) >>= fun _ =>
            Tracee.restopLoop t.reports.length >>= fun _ => get >>= fun w =>
              if w.thread.dead then pure ()
              else do
                Tracee.setThread fun t => { t with signo := none }
                Tracee.threadSetRegs regs
                Tracee.setThread fun t => { t with slavemode := false }) t := rfl
    rw [← shows_.slavemode] at free
    rw [first, assert_bind free, setThread_bind, run_bind, read']
    dsimp only
    rw [setThread_bind, run_bind, looped']
    rfl
  rw [same, shows_y.dead]
  replace ran := get_bind_ran ran
  split at ran
  · rename_i died
    cases ran
    rw [if_pos died]
    exact ⟨t', rfl, shows_y, died⟩
  · rename_i alive
    rw [if_neg alive]
    replace ran := modify_bind_ran ran
    obtain ⟨_, z, again, ran⟩ := bind_ran ran
    obtain ⟨-, shows_z, -, -, -⟩ := getRegs_shows shows_y.quiet again
    obtain ⟨⟨⟩, k, set, ran⟩ := bind_ran ran
    obtain ⟨set', -, shows_k, -, alive'⟩ := setRegs_shows shows_z set t.thread.regs
    obtain ⟨⟨⟩, l, reverted, ran⟩ := bind_ran ran
    have back := steady_revertPatch _ _ k () l reverted
    have shows_l := shows_k.frame ((local_revertPatch _ _).frame reverted) back.dead
    cases modify_bind_ran ran
    refine ⟨_, ?_, shows_l.mode false, back.dead.trans alive'⟩
    simp only [Tracee.setThread, run_bind, run_modify, set']

/-- A call by `Fncall` that comes to its end is one by `Tracee`. -/
theorem fncallCall_shows {address : BitVec arch.width} {context : arch.Context}
    {result : Bool × arch.Context} (shows_ : Shows w t)
    (ran : Fncall.fncallCall arch address context w = .ok result w') :
    ∃ call t', Tracee.fncallCall call t = .ok () t' ∧ Shows w' t' := by
  replace ran := get_bind_ran ran
  split at ran
  · rename_i execed
    have execed' := shows_.execed.trans execed
    obtain ⟨restopped, v, first, ran⟩ := bind_ran ran
    obtain ⟨t', first', shows_v, dead⟩ := restop_shows shows_ first
    have same (begins : Bool) : Tracee.fncallCall ⟨true, begins⟩ t = (if t'.thread.dead then
        Tracee.setThread fun t => { t with slavemode := false }
        else do
          Tracee.setThread fun t => { t with execed := false }
          Tracee.fncallStart begins : Tracee.Action Unit) t' := by
      simp only [Tracee.fncallCall, run_bind, run_get, execed', ↓reduceIte, first']
    cases restopped with
    | false =>
      cases modify_bind_ran ran
      refine ⟨⟨true, false⟩, _, ?_, shows_v.mode false⟩
      rw [same, shows_v.dead, dead]
      rfl
    | true =>
      replace ran := modify_bind_ran ran
      have fresh : Shows { v with thread := { v.thread with execed := false } }
          { t' with thread := { t'.thread with execed := false } } :=
        ⟨shows_v.running, shows_v.setoptions, rfl, shows_v.stopme, shows_v.slavemode, shows_v.dead,
          shows_v.signo, shows_v.stabilizing, shows_v.code, shows_v.reports⟩
      obtain ⟨begins, t'', started, shows_'⟩ := start_shows fresh ran
      refine ⟨⟨true, begins⟩, t'', ?_, shows_'⟩
      rw [same, shows_v.dead, dead]
      exact started
  · rename_i loaded
    obtain ⟨begins, t', started, shows_'⟩ := start_shows shows_ ran
    refine ⟨⟨true, begins⟩, t', ?_, shows_'⟩
    simp only [Tracee.fncallCall, run_bind, run_get, shows_.execed.trans (Bool.eq_false_iff.mpr loaded),
      Bool.false_eq_true, ↓reduceIte, started]

end Adbi.TracedCallProofs
