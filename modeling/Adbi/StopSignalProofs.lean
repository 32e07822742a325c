import Adbi.Tracee

/-! Where the `SIGSTOP` of `thread_stop` goes. As long as the wait of every
`thread_stop` is answered by that `SIGSTOP` or by the death of the thread, no
run passes it on to the tracee. If another report comes first, `thread_stop`
takes it for the stop and the `SIGSTOP` is left pending. -/
namespace Adbi.StopSignalProofs
open Adbi.Lib Adbi.Tracee

/-- No `SIGSTOP` of the server is pending, kept for later or passed on. -/
structure Clean (w : World) : Prop where
  pending : w.thread.pending ≠ some .server
  signo : ∀ s, w.thread.signo = some s → s.sender ≠ .server
  delivered : ∀ s, some s ∈ w.thread.delivered → s.sender ≠ .server

/-- The same as `Clean` for what depends on the thread alone. -/
private theorem clean_congr {v w : World} (clean : Clean w)
    (pending : v.thread.pending = w.thread.pending)
    (signo : v.thread.signo = w.thread.signo) (delivered : v.thread.delivered = w.thread.delivered) :
    Clean v :=
  ⟨pending ▸ clean.pending, signo ▸ clean.signo, delivered ▸ clean.delivered⟩

private theorem keeps_assert (holds : Bool) : Keeps Clean (assert holds) := by
  cases holds with
  | false => exact keeps_throw _
  | true => exact keeps_pure _

private theorem keeps_unlessSo (so : Bool) (kept : Keeps Clean action) :
    Keeps Clean (unlessSo so action) := by
  cases so with
  | false => exact kept
  | true => exact keeps_pure _

/-- Updates of the thread that leave the signals alone. -/
private theorem keeps_setThread {f : Thread → Thread}
    (same : ∀ t, (f t).pending = t.pending ∧ (f t).signo = t.signo ∧ (f t).delivered = t.delivered) :
    Keeps Clean (setThread f) :=
  keeps_modify fun w clean => clean_congr clean (same w.thread).1 (same w.thread).2.1 (same w.thread).2.2

private theorem keeps_clear_signo : Keeps Clean (setThread fun t => { t with signo := none }) :=
  keeps_modify fun _ clean => ⟨clean.pending, by simp, clean.delivered⟩

private theorem keeps_getRegs : Keeps Clean threadGetRegs := by
  refine keeps_get_bind fun w clean => ?_
  refine keeps_bind (keeps_assert _) (fun _ => ?_) w clean
  split
  · exact keeps_throw _
  · exact keeps_pure _

private theorem keeps_setRegs (regs : Regs) : Keeps Clean (threadSetRegs regs) := by
  refine keeps_get_bind fun w clean => ?_
  refine keeps_bind (keeps_assert _) (fun _ => ?_) w clean
  split
  · exact keeps_throw _
  · exact keeps_setThread fun _ => ⟨rfl, rfl, rfl⟩

/-- A signal that the server did not send may be passed on. -/
private theorem keeps_continue (foreign : ∀ s, signo = some s → s.sender ≠ .server) :
    Keeps Clean (setThread (threadContinue signo)) := by
  refine keeps_modify fun w clean => ?_
  unfold threadContinue
  split
  · exact clean
  · cases signo with
    | none =>
      refine ⟨clean.pending, by simp, fun s member => ?_⟩
      rcases List.mem_cons.mp member with now | before
      · exact clean.signo s now.symm
      · exact clean.delivered s before
    | some signal =>
      refine ⟨clean.pending, clean.signo, fun s member => ?_⟩
      rcases List.mem_cons.mp member with now | before
      · exact foreign s now.symm
      · exact clean.delivered s before

private theorem keeps_keepStopped (foreign : ∀ s, signo = some s → s.sender ≠ .server) :
    Keeps Clean (setThread (keepStopped signo)) := by
  refine keeps_modify fun w clean => ⟨clean.pending, fun s kept => ?_, clean.delivered⟩
  simp only [keepStopped] at kept
  split at kept
  · exact foreign s kept
  · split at kept
    · cases kept
    · exact foreign s kept

/-! ## Handling keeps the signals clean -/

section
variable {call : Call → Action Unit} (calls : ∀ c, Keeps Clean (call c))
include calls

private theorem keeps_continueOrStop (foreign : ∀ s, signo = some s → s.sender ≠ .server) :
    Keeps Clean (threadContinueOrStop call signo) := by
  refine keeps_get_bind fun w clean => ?_
  split
  · exact clean
  · split
    · exact keeps_keepStopped foreign w clean
    · refine keeps_bind ?_ (fun _ => keeps_continue foreign) w clean
      refine keeps_unlessSo _ (keeps_get_bind fun w clean => ?_)
      refine keeps_bind (keeps_assert _) (fun _ => ?_) w clean
      refine keeps_bind (keeps_forM fun c _ => calls c) fun _ => ?_
      exact keeps_setThread fun _ => ⟨rfl, rfl, rfl⟩

private theorem keeps_continueOrStop_none : Keeps Clean (threadContinueOrStop call none) :=
  keeps_continueOrStop calls fun _ absurd => by cases absurd

private theorem keeps_trap (rescan : Rescan) : Keeps Clean (threadTrap call rescan) := by
  refine keeps_bind keeps_getRegs fun regs => ?_
  refine keeps_get_bind fun w clean => ?_
  split
  · refine keeps_bind (keeps_unlessSo _ ?_) (fun _ => keeps_pure _) w clean
    exact keeps_bind (keeps_setRegs _) fun _ => keeps_continueOrStop_none calls
  · split
    · refine keeps_bind (keeps_bind (keeps_forM fun c _ => calls c) fun _ => ?_) (fun _ =>
        keeps_pure _) w clean
      refine keeps_bind (keeps_modify fun _ clean => clean_congr clean rfl rfl rfl) fun _ => ?_
      exact keeps_bind (keeps_setRegs _) fun _ => keeps_continueOrStop_none calls
    · exact clean

private theorem keeps_handleSignal (foreign : signal.sender ≠ .server) :
    Keeps Clean (threadHandleSignal call signal) := by
  refine keeps_get_bind fun w clean => ?_
  split
  · refine keeps_modify (fun w clean => ⟨clean.pending, fun s kept => ?_, clean.delivered⟩) w clean
    cases kept
    exact foreign
  · refine keeps_continueOrStop calls (fun s same => ?_) w clean
    cases same
    exact foreign

private theorem keeps_handleStatus (report : Report) : Keeps Clean (threadHandleStatus call report) := by
  cases report with
  | exited => exact keeps_modify fun _ clean => ⟨by simp [threadExit], clean.signo, clean.delivered⟩
  | clone child =>
    refine keeps_bind (keeps_modify fun _ clean => clean_congr clean rfl rfl rfl) fun _ => ?_
    exact keeps_continueOrStop_none calls
  | exec regs rescan =>
    refine keeps_bind (keeps_setThread fun _ => ⟨rfl, rfl, rfl⟩) fun _ => ?_
    refine keeps_bind (keeps_modify fun _ clean => clean_congr clean rfl rfl rfl) fun _ => ?_
    exact keeps_bind (keeps_forM fun c _ => calls c) fun _ => keeps_continueOrStop_none calls
  | signal signo regs rescan =>
    refine keeps_get_bind fun w clean => ?_
    -- With nothing of the server pending, the reported signal is foreign.
    have foreign : (stoppedBy signo w.thread).1.sender ≠ .server := by
      unfold stoppedBy
      split
      · have pending := clean.pending
        cases sender : w.thread.pending with
        | none => simp
        | some sender' =>
          rw [sender] at pending
          simpa using pending
      · simp
    have stopped : Clean { w with thread := { (stoppedBy signo w.thread).2 with running := false, regs := regs } } := by
      unfold stoppedBy
      split
      · exact ⟨by simp, clean.signo, clean.delivered⟩
      · exact clean_congr clean rfl rfl rfl
    refine after_bind_modify_keeps ?_ stopped
    split
    · exact keeps_bind (keeps_trap calls rescan) fun _ =>
        keeps_unlessSo _ (keeps_handleSignal calls foreign)
    · exact keeps_handleSignal calls foreign

private theorem keeps_wait : Keeps Clean (threadWait call) := by
  refine keeps_get_bind fun w clean => ?_
  split
  · exact clean
  · split
    · exact clean
    · exact after_bind_modify_keeps (keeps_handleStatus calls _) (clean_congr clean rfl rfl rfl)

end

private theorem keeps_slaveWait : Keeps Clean slaveWait := keeps_wait fun _ => keeps_throw _

private theorem keeps_continue_none : Keeps Clean (setThread (threadContinue none)) :=
  keeps_continue fun _ absurd => by cases absurd

private theorem keeps_restopLoop (rounds : Nat) : Keeps Clean (restopLoop rounds) := by
  induction rounds with
  | zero => exact keeps_throw _
  | succ rounds ih =>
    refine keeps_bind keeps_slaveWait fun _ => keeps_get_bind fun w clean => ?_
    split
    · exact clean
    · split
      · exact clean
      · exact clean
      · exact clean
      · exact keeps_bind keeps_continue_none (fun _ => ih) w clean

private theorem keeps_restop (patched : Bool) : Keeps Clean (fncallRestop patched) := by
  refine keeps_get_bind fun w clean => ?_
  refine keeps_bind (keeps_assert _) (fun _ => ?_) w clean
  refine keeps_bind (keeps_setThread fun _ => ⟨rfl, rfl, rfl⟩) fun _ => ?_
  refine keeps_bind keeps_getRegs fun regs => ?_
  refine keeps_bind (keeps_assert _) fun _ => ?_
  refine keeps_bind keeps_continue_none fun _ => ?_
  refine keeps_bind (keeps_restopLoop _) fun _ => keeps_get_bind fun w clean => ?_
  split
  · exact clean
  · refine keeps_bind keeps_clear_signo (fun _ => ?_) w clean
    refine keeps_bind (keeps_setRegs _) fun _ => ?_
    exact keeps_setThread fun _ => ⟨rfl, rfl, rfl⟩

private theorem keeps_callLoop (rounds : Nat) : Keeps Clean (callLoop rounds) := by
  induction rounds with
  | zero => exact keeps_throw _
  | succ rounds ih =>
    refine keeps_bind keeps_slaveWait fun _ => keeps_get_bind fun w clean => ?_
    split
    · exact clean
    · refine keeps_bind keeps_clear_signo (fun _ => ?_) w clean
      split
      · exact keeps_throw _
      · exact keeps_bind keeps_continue_none fun _ => ih
      · exact keeps_pure _

private theorem keeps_start (begins : Bool) : Keeps Clean (fncallStart begins) := by
  refine keeps_get_bind fun w clean => ?_
  refine keeps_bind (keeps_assert _) (fun _ => ?_) w clean
  refine keeps_bind (keeps_setThread fun _ => ⟨rfl, rfl, rfl⟩) fun _ => ?_
  refine keeps_bind keeps_getRegs fun regs => ?_
  refine keeps_bind (keeps_unlessSo _ ?_) fun _ => ?_
  · refine keeps_bind keeps_continue_none fun _ => ?_
    refine keeps_bind (keeps_callLoop _) fun _ => keeps_get_bind fun w clean => ?_
    exact keeps_unlessSo _ (keeps_setRegs _) w clean
  · exact keeps_setThread fun _ => ⟨rfl, rfl, rfl⟩

/-- Injected calls run the thread many times and pass on nothing of the server's. -/
theorem keeps_fncallCall (call : Call) : Keeps Clean (fncallCall call) := by
  refine keeps_get_bind fun w clean => ?_
  split
  · refine keeps_bind (keeps_restop _) (fun _ => keeps_get_bind fun w clean => ?_) w clean
    split
    · refine (?_ : Keeps Clean _) w clean
      exact keeps_setThread fun _ => ⟨rfl, rfl, rfl⟩
    · refine keeps_bind ?_ (fun _ => keeps_start _) w clean
      exact keeps_setThread fun _ => ⟨rfl, rfl, rfl⟩
  · exact keeps_start _ w clean

private theorem keeps_killLoop (rounds : Nat) : Keeps Clean (killLoop rounds) := by
  induction rounds with
  | zero => exact keeps_throw _
  | succ rounds ih =>
    refine keeps_get_bind fun w clean => ?_
    split
    · exact clean
    · exact keeps_bind (keeps_wait keeps_fncallCall) (fun _ => ih) w clean

/-- Every request but a stop keeps the signals clean, also when it does not come to an end. -/
theorem keeps_perform (notStop : ∀ reports, request ≠ .stop reports) :
    Keeps Clean (perform request) := by
  have given : ∀ (reports : List Report) (action : Action Unit), Keeps Clean action →
      Keeps Clean (do modify fun w => { w with reports := reports }; action) :=
      fun reports action kept =>
    keeps_bind (keeps_modify fun _ clean => clean_congr clean rfl rfl rfl) fun _ => kept
  cases request with
  | stop reports => exact absurd rfl (notStop reports)
  | resume => exact keeps_continue_none
  | event reports => exact given _ _ (keeps_wait keeps_fncallCall)
  | inject call reports => exact given _ _ (keeps_fncallCall call)
  | kill reports =>
    refine given _ _ (keeps_bind (keeps_setThread fun _ => ⟨rfl, rfl, rfl⟩) fun _ => ?_)
    exact keeps_get_bind fun w clean => keeps_killLoop _ w clean
  | stabilize on => exact keeps_modify fun _ clean => clean_congr clean rfl rfl rfl
  | sigstop =>
    refine keeps_modify fun w clean => ⟨?_, clean.signo, clean.delivered⟩
    have pending := clean.pending
    cases sender : w.thread.pending with
    | none => simp [Tracee.sigstop, sender]
    | some sender' =>
      rw [sender] at pending
      simpa [Tracee.sigstop, sender] using pending

/-! ## Slave mode ends with the call -/

/-- The thread is under nobody's control but its own. -/
def Free (w : World) : Prop := w.thread.slavemode = false

private theorem free_modify {f : World → World}
    (same : ∀ w, (f w).thread.slavemode = w.thread.slavemode) :
    Ensures Free (modify f : Action Unit) fun _ => Free :=
  ensures_modify fun w free => (same w).trans free

private theorem free_setThread {f : Thread → Thread}
    (same : ∀ t, (f t).slavemode = t.slavemode) :
    Ensures Free (setThread f) fun _ => Free :=
  free_modify fun w => same w.thread

private theorem free_assert (holds : Bool) : Ensures Free (assert holds) fun _ => Free := by
  cases holds with
  | false => exact ensures_throw
  | true => exact ensures_pure fun _ free => free

private theorem free_unlessSo (so : Bool) (ensured : Ensures Free action fun _ => Free) :
    Ensures Free (unlessSo so action) fun _ => Free := by
  cases so with
  | false => exact ensured
  | true => exact ensures_pure fun _ free => free

private theorem free_continue (signo : Option Signal) :
    Ensures Free (setThread (threadContinue signo)) fun _ => Free :=
  free_setThread fun t => by
    unfold threadContinue
    split
    · rfl
    · cases signo <;> rfl

private theorem free_start (begins : Bool) : Ensures P (fncallStart begins) fun _ => Free := by
  refine ensures_bind ensures_true fun w => ?_
  refine ensures_bind ensures_true fun _ => ensures_bind ensures_true fun _ => ?_
  refine ensures_bind ensures_true fun regs => ensures_bind ensures_true fun _ => ?_
  exact ensures_modify fun _ _ => rfl

theorem free_fncallCall (call : Call) : Ensures P (fncallCall call) fun _ => Free := by
  refine ensures_get fun w => ?_
  split
  · refine ensures_bind ensures_true fun _ => ensures_get fun w => ?_
    split
    · exact ensures_modify fun _ _ => rfl
    · exact ensures_bind ensures_true fun _ => free_start _
  · exact free_start _

private theorem free_getRegs : Ensures Free threadGetRegs fun _ => Free := by
  refine ensures_get fun w => ensures_bind (free_assert _) fun _ => ?_
  split
  · exact ensures_throw
  · exact ensures_pure fun _ free => free

private theorem free_setRegs (regs : Regs) : Ensures Free (threadSetRegs regs) fun _ => Free := by
  refine ensures_get fun w => ensures_bind (free_assert _) fun _ => ?_
  split
  · exact ensures_throw
  · exact free_setThread fun _ => rfl

private theorem free_continueOrStop (signo : Option Signal) :
    Ensures Free (threadContinueOrStop fncallCall signo) fun _ => Free := by
  refine ensures_get fun w => ?_
  split
  · exact ensures_pure fun _ free => free
  · split
    · exact free_setThread fun _ => rfl
    · refine ensures_bind (free_unlessSo _ ?_) fun _ => free_continue signo
      refine ensures_get fun w => ensures_bind (free_assert _) fun _ => ?_
      exact ensures_bind (ensures_forM fun c _ => free_fncallCall c) fun _ => free_setThread fun _ => rfl

private theorem free_trap (rescan : Rescan) :
    Ensures Free (threadTrap fncallCall rescan) fun _ => Free := by
  refine ensures_bind free_getRegs fun regs => ensures_get fun w => ?_
  split
  · refine ensures_bind (free_unlessSo _ ?_) fun _ => ensures_pure fun _ free => free
    exact ensures_bind (free_setRegs _) fun _ => free_continueOrStop none
  · split
    · refine ensures_bind ?_ fun _ => ensures_pure fun _ free => free
      refine ensures_bind (ensures_forM fun c _ => free_fncallCall c) fun _ => ?_
      exact ensures_bind (free_modify fun _ => rfl) fun _ => ensures_bind (free_setRegs _) fun _ =>
        free_continueOrStop none
    · exact ensures_pure fun _ free => free

private theorem free_handleSignal (signal : Signal) :
    Ensures Free (threadHandleSignal fncallCall signal) fun _ => Free := by
  refine ensures_get fun w => ?_
  split
  · exact free_setThread fun _ => rfl
  · exact free_continueOrStop _

private theorem free_handleStatus (report : Report) :
    Ensures Free (threadHandleStatus fncallCall report) fun _ => Free := by
  cases report with
  | exited => exact free_setThread fun _ => rfl
  | clone child => exact ensures_bind (free_modify fun _ => rfl) fun _ => free_continueOrStop none
  | exec regs rescan =>
    refine ensures_bind (free_setThread fun _ => rfl) fun _ =>
      ensures_bind (free_modify fun _ => rfl) fun _ => ?_
    exact ensures_bind (ensures_forM fun c _ => free_fncallCall c) fun _ => free_continueOrStop none
  | signal signo regs rescan =>
    refine ensures_get_bind fun w free => ?_
    have slavemode : (stoppedBy signo w.thread).2.slavemode = w.thread.slavemode := by
      unfold stoppedBy
      split <;> rfl
    refine ensures_bind (Q := fun _ => Free) (ensures_modify fun _ _ => slavemode.trans free) fun _ => ?_
    split
    · exact ensures_bind (free_trap rescan) fun _ => free_unlessSo _ (free_handleSignal _)
    · exact free_handleSignal _

private theorem free_wait : Ensures Free (threadWait fncallCall) fun _ => Free := by
  refine ensures_get fun w => ?_
  split
  · exact ensures_pure fun _ free => free
  · split
    · exact ensures_throw
    · exact ensures_bind (free_modify fun _ => rfl) fun _ => free_handleStatus _

private theorem free_killLoop (rounds : Nat) : Ensures Free (killLoop rounds) fun _ => Free := by
  induction rounds with
  | zero => exact ensures_throw
  | succ rounds ih =>
    refine ensures_get fun w => ?_
    split
    · exact ensures_pure fun _ free => free
    · exact ensures_bind free_wait fun _ => ih

private theorem free_stop : Ensures Free threadStop fun _ => Free := by
  refine ensures_get fun w => ?_
  split
  · exact ensures_pure fun _ free => free
  · refine ensures_bind (free_setThread fun _ => rfl) fun _ => ensures_bind free_wait fun _ => ?_
    exact ensures_get fun w => free_assert _

/-- No request that comes to an end leaves the thread in slave mode. -/
theorem free_perform (request : Request) : Ensures Free (perform request) fun _ => Free := by
  have given : ∀ (reports : List Report) (action : Action Unit), Ensures Free action (fun _ => Free) →
      Ensures Free (do modify fun w => { w with reports := reports }; action) fun _ => Free :=
    fun reports action ensured => ensures_bind (free_modify fun _ => rfl) fun _ => ensured
  cases request with
  | stop reports => exact given _ _ free_stop
  | resume => exact free_continue none
  | event reports => exact given _ _ free_wait
  | inject call reports => exact given _ _ (free_fncallCall call)
  | kill reports =>
    refine given _ _ (ensures_bind (free_setThread fun _ => rfl) fun _ =>
      ensures_get fun w => free_killLoop _)
  | stabilize on => exact free_modify fun _ => rfl
  | sigstop => exact free_setThread fun _ => rfl

/-! ## Whole runs -/

/-- The wait of `thread_stop` is answered by the `SIGSTOP` it sent, or by the
death of the thread. Nothing is asked of a stop whose `SIGSTOP` is lost, since
one from elsewhere is pending already. -/
def Answered (w : World) : Request → Prop
  | .stop reports =>
    w.thread.running = true → w.thread.dead = false → w.thread.pending = none →
      ∀ first rest, reports = first :: rest → first = .exited ∨
      ∃ regs rescan, first = .signal .sigstop regs rescan
  | _ => True

/-- What the server passed on was never its own `SIGSTOP`. -/
def NothingPassed (w : World) : Prop := ∀ s, some s ∈ w.thread.delivered → s.sender ≠ .server

/-- Waiting for a live thread takes the next report. -/
theorem wait_report {call : Call → Action Unit} (w : World) (alive : w.thread.dead = false)
    (next : w.reports = report :: rest) :
    threadWait call w = threadHandleStatus call report { w with reports := rest } := by
  simp only [threadWait, run_bind, run_get, alive, next, run_modify, Bool.false_eq_true, ↓reduceIte]

private theorem stop_idle (w : World) (idle : w.thread.dead = true ∨ w.thread.running = false) :
    perform (.stop reports) w = .ok () { w with reports := reports } := by
  simp [perform, threadStop, idle]

/-- A running thread that was just asked to stop. -/
private def asked (w : World) (reports : List Report) : World :=
  { w with reports := reports, thread := sigstop .server { w.thread with stopme := true } }

/-- The rest of the stop: the wait and the assertion. -/
private theorem stop_running (w : World) (running : w.thread.running = true)
    (alive : w.thread.dead = false) :
    perform (.stop reports) w =
      (do threadWait fncallCall; let w ← get; assert (!w.thread.running) : Action Unit)
      (asked w reports) := by
  simp [perform, threadStop, running, alive, setThread, asked]

/-- The answer of its own `SIGSTOP` leaves a thread with nothing to pass on. -/
private theorem sigstop_answers (w : World) (regs : Regs) (rescan : Rescan)
    (alive : w.thread.dead = false)
    (free : Free w) (stopme : w.thread.stopme = true) :
    threadHandleStatus fncallCall (.signal .sigstop regs rescan) w =
      .ok () { w with thread := { w.thread with
        running := false, regs := regs, pending := none, signo := none, stopme := false } } := by
  have slavemode : w.thread.slavemode = false := free
  simp [threadHandleStatus, stoppedBy, isTrap, threadHandleSignal, threadContinueOrStop, keepStopped,
    setThread, alive, stopme, slavemode]

/-- A stop whose wait is answered as it should be consumes its own `SIGSTOP`. -/
private theorem stop_consumes (w : World) (clean : Clean w) (free : Free w)
    (answered : Answered w (.stop reports)) :
    (∀ w', perform (.stop reports) w = .ok () w' → Clean w') ∧
    NothingPassed (after (perform (.stop reports)) w) := by
  by_cases idle : w.thread.dead = true ∨ w.thread.running = false
  · rw [after, stop_idle w idle]
    exact ⟨fun w' ran => by cases ran; exact clean_congr clean rfl rfl rfl, clean.delivered⟩
  obtain ⟨alive, running⟩ : w.thread.dead = false ∧ w.thread.running = true := by simpa using idle
  rw [after, stop_running w running alive]
  cases pending : w.thread.pending with
  | some sender =>
    -- A `SIGSTOP` is pending already, so the new one is lost.
    have lost : Clean (asked w reports) := clean_congr clean (by simp [asked, sigstop, pending]) rfl rfl
    have waits : Keeps Clean (do threadWait fncallCall; let w ← get; assert (!w.thread.running) : Action Unit) :=
      keeps_bind (keeps_wait keeps_fncallCall) fun _ => keeps_get_bind fun w clean =>
      keeps_assert _ w clean
    have kept := waits _ lost
    refine ⟨fun w' ran => ?_, kept.delivered⟩
    rw [← after_of_ok ran]
    exact kept
  | none =>
    cases reports with
    | nil =>
      have blocked : threadWait fncallCall (asked w []) = .error .blocked (asked w []) := by
        simp [threadWait, asked, sigstop, alive]
      rw [run_bind, blocked]
      exact ⟨fun w' ran => (by cases ran), clean.delivered⟩
    | cons first rest =>
      rw [run_bind, wait_report (asked w (first :: rest)) alive rfl]
      rcases answered running alive pending first rest rfl with rfl | ⟨regs, rescan, rfl⟩
      · refine ⟨fun w' ran => ?_, clean.delivered⟩
        cases ran
        exact ⟨by simp [threadExit], clean.signo, clean.delivered⟩
      · rw [sigstop_answers { asked w (_ :: rest) with reports := rest } regs rescan alive free rfl]
        refine ⟨fun w' ran => ?_, clean.delivered⟩
        cases ran
        exact ⟨by simp, by simp, clean.delivered⟩

/-- In every run whose stops are answered by their own `SIGSTOP` or by the
death of the thread, no `SIGSTOP` of the server is passed on to the tracee. -/
theorem answered_runs_pass_no_own_sigstop (requests : List Request) (w : World) (clean : Clean w)
    (free : Free w)
    (answered : Along perform Answered w requests) : NothingPassed (runRequests requests w) := by
  refine along_run (P := fun w => Clean w ∧ Free w) (fun w good => good.1.delivered) ?_ ⟨clean,
    free⟩ answered
  intro w request good admitted
  have freed : ∀ w', perform request w = .ok () w' → Free w' := free_perform request w good.2 ()
  by_cases stop : ∃ reports, request = .stop reports
  · obtain ⟨reports, rfl⟩ := stop
    obtain ⟨consumed, passed⟩ := stop_consumes w good.1 good.2 admitted
    exact ⟨fun w' ran => ⟨consumed w' ran, freed w' ran⟩, passed⟩
  · have kept := keeps_perform (fun reports same => stop ⟨reports, same⟩) w good.1
    refine ⟨fun w' ran => ⟨?_, freed w' ran⟩, kept.delivered⟩
    simpa [after, ran] using kept

/-- A process with no breakpoints, and a thread in it that was just attached. -/
def bareLayout : Layout where
  jump _ := none
  linkerBkpt := 0
  code _ := false
  artificial _ := false
  newProcess := []
  newThread := []

def bareReport (signo : Signo) : Report := .signal signo ⟨8, 0⟩ ⟨[], bareLayout⟩

def attached : World where
  thread :=
    { running := false, setoptions := true, execed := false, stopme := false, slavemode := false, dead := false
      notified := true, signo := none, regs := ⟨8, 0⟩, pending := none, delivered := [] }
  leader := true
  stabilizing := false
  layout := bareLayout
  children := []
  alone := false
  reports := []

/-- A signal that comes in after the stop does not disturb it. -/
theorem attached_passes_no_own_sigstop :
    NothingPassed (runRequests
      [.resume, .stop [bareReport .sigstop], .resume, .event [bareReport (.other 10)],
        .resume] attached) := by
  refine answered_runs_pass_no_own_sigstop _ attached ⟨by decide, by simp [attached],
    by simp [attached]⟩ rfl ?_
  refine ⟨trivial, fun _ _ => ⟨?_,
    fun _ _ => ⟨trivial, fun _ _ => ⟨trivial, fun _ _ => ⟨trivial, fun _ _ => trivial⟩⟩⟩⟩⟩
  intro _ _ _ first rest same
  cases same
  exact .inr ⟨_, _, rfl⟩

/-- A signal that comes in before the `SIGSTOP` is taken for the stop, and the
`SIGSTOP` then reaches the tracee. -/
theorem attached_passes_sigstop_after_other_signal :
    ¬ NothingPassed (runRequests
      [.resume, .stop [bareReport (.other 10)], .resume, .event [bareReport .sigstop]] attached) :=
  fun nothing => nothing ⟨.sigstop, .server⟩ (by decide) rfl

end Adbi.StopSignalProofs
