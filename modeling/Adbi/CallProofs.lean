import Adbi.Tracee

/-! What injected calls do to the thread they are made in. How a call, or a
series of calls, ends is first said on the reports alone; then the loops of
`fncall_restop` and `fncall_call` are shown to end that way. -/
namespace Adbi.CallProofs
open Adbi.Lib Adbi.Tracee

/-! ## How injected calls end -/

/-- What a series of calls does to the thread: nothing (none of them ran), a
run that it survives, or its death. -/
inductive Fate where
  | untouched | survived | died
  deriving DecidableEq, Repr

/-- The fate, the layout of the process by then, and the reports left. -/
structure Ending where
  fate : Fate
  layout : Layout
  rest : List Report

/-- A restop waits for a segmentation fault, a trap or a bus error. -/
def restopEnd (layout : Layout) : List Report → Option Ending
  | [] => none
  | .exited :: rest => some ⟨.died, layout, rest⟩
  | .clone _ :: rest => restopEnd layout rest
  | .exec _ rescan :: rest => if rescan.calls = [] then restopEnd rescan.layout rest else none
  | .signal signo _ _ :: rest =>
    match signo with
    | .sigsegv | .sigtrap | .sigbus => some ⟨.survived, layout, rest⟩
    | _ => restopEnd layout rest

/-- A call waits for any signal but a `SIGSTOP`; a clone or an exec is fatal to the server. -/
def callEnd (layout : Layout) : List Report → Option Ending
  | [] => none
  | .exited :: rest => some ⟨.died, layout, rest⟩
  | .clone _ :: _ => none
  | .exec _ _ :: _ => none
  | .signal signo _ _ :: rest =>
    match signo with
    | .sigstop => callEnd layout rest
    | _ => some ⟨.survived, layout, rest⟩

/-- One use of `fncall_call`. -/
def fncallEnd (execed : Bool) (call : Call) (layout : Layout) (reports : List Report) : Option Ending :=
  if execed then
    if call.patched then
      match restopEnd layout reports with
      | some ⟨.survived, layout, rest⟩ =>
        if call.begins then callEnd layout rest else some ⟨.survived, layout, rest⟩
      | ending => ending
    else none
  else if call.begins then callEnd layout reports else some ⟨.untouched, layout, reports⟩

/-- A series of calls. A call in a dead thread is fatal to the server. -/
def callsEnd (execed : Bool) (layout : Layout) : List Call → List Report → Option Ending
  | [], reports => some ⟨.untouched, layout, reports⟩
  | call :: calls, reports =>
    match fncallEnd execed call layout reports with
    | none => none
    | some ⟨.died, layout, rest⟩ => if calls = [] then some ⟨.died, layout, rest⟩ else none
    | some ⟨.untouched, layout, rest⟩ => callsEnd false layout calls rest
    | some ⟨.survived, layout, rest⟩ =>
      match callsEnd false layout calls rest with
      | some ⟨.untouched, layout, rest⟩ => some ⟨.survived, layout, rest⟩
      | ending => ending

/-- The calls that announce a thread which has not just execed. -/
def announceEnd (leader : Bool) (layout : Layout) (reports : List Report) : Option Ending :=
  callsEnd false layout (layout.handlers leader) reports

private theorem callEnd_ran (ends : callEnd layout reports = some ending) :
    ending.fate ≠ .untouched := by
  induction reports with
  | nil => cases ends
  | cons report rest ih =>
    cases report with
    | exited =>
      cases ends
      simp
    | clone child => cases ends
    | exec regs rescan => cases ends
    | signal signo regs rescan =>
      cases signo <;> first | exact ih ends | (cases ends; simp)

private theorem restopEnd_ran (ends : restopEnd layout reports = some ending) :
    ending.fate ≠ .untouched := by
  induction reports generalizing layout with
  | nil => cases ends
  | cons report rest ih =>
    cases report with
    | exited =>
      cases ends
      simp
    | clone child => exact ih ends
    | exec regs rescan =>
      simp only [restopEnd] at ends
      split at ends
      · exact ih ends
      · cases ends
    | signal signo regs rescan =>
      cases signo <;> first | exact ih ends | (cases ends; simp)

private theorem restarted_ran (ends : fncallEnd true call layout reports = some ending) :
    ending.fate ≠ .untouched := by
  simp only [fncallEnd, ↓reduceIte] at ends
  split at ends
  · cases restop : restopEnd layout reports with
    | none =>
      rw [restop] at ends
      cases ends
    | some first =>
      obtain ⟨fate, layout', rest⟩ := first
      rw [restop] at ends
      cases fate with
      | untouched => exact absurd rfl (restopEnd_ran restop)
      | died =>
        cases ends
        simp
      | survived =>
        simp only at ends
        split at ends
        · exact callEnd_ran ends
        · cases ends
          simp
  · cases ends

/-! ## What a run of the thread leaves alone -/

/-- What holds of any later state of the same thread. -/
structure Later (w w' : World) : Prop where
  leader : w'.leader = w.leader
  notified : w'.thread.notified = w.thread.notified
  stabilizing : w'.stabilizing = w.stabilizing
  unasked : w.thread.stopme = false → w'.thread.stopme = false
  fewer : ∀ r ∈ w'.reports, r ∈ w.reports

theorem Later.refl (w : World) : Later w w := ⟨rfl, rfl, rfl, id, fun _ member => member⟩

theorem Later.trans (first : Later u v) (second : Later v w) : Later u w :=
  ⟨second.leader.trans first.leader, second.notified.trans first.notified,
    second.stabilizing.trans first.stabilizing,
    fun unasked => second.unasked (first.unasked unasked),
    fun r member => first.fewer r (second.fewer r member)⟩

/-- The process around the thread is as it was. -/
structure Frame (w w' : World) : Prop where
  layout : w'.layout = w.layout
  children : w'.children = w.children
  alone : w'.alone = w.alone

theorem Frame.refl (w : World) : Frame w w := ⟨rfl, rfl, rfl⟩

theorem Frame.trans (first : Frame u v) (second : Frame v w) : Frame u w :=
  ⟨second.layout.trans first.layout, second.children.trans first.children,
    second.alone.trans first.alone⟩

/-- A signal or an exit: a report that does not concern the process. -/
def Plain : Report → Prop
  | .signal _ _ _ => True
  | .exited => True
  | .clone _ => False
  | .exec _ _ => False

/-! ## One report in slave mode -/

/-- A thread that an injected call lets run. -/
structure Driven (w : World) : Prop where
  alive : w.thread.dead = false
  slave : w.thread.slavemode = true
  runs : w.thread.running = true

/-- `w'` is `w` after a report that left the thread stopped in slave mode. The
request to stop, if there was one, is gone; only a stop in code while the
process is stabilizing leaves it. -/
structure Held (w w' : World) : Prop extends Later w w' where
  alive : w'.thread.dead = false
  slave : w'.thread.slavemode = true
  stopped : w'.thread.running = false
  cleared : w.stabilizing = false → w'.thread.stopme = false

private theorem slave_exited (driven : Driven w) (next : w.reports = .exited :: rest) :
    slaveWait w = .ok () { w with reports := rest, thread := threadExit w.thread } := by
  simp [slaveWait, threadWait, driven.alive, next, threadHandleStatus, setThread]

private theorem fewer_of_next {w w' : World} (next : w.reports = report :: rest)
    (left : w'.reports = rest) :
    ∀ r ∈ w'.reports, r ∈ w.reports := by
  intro r member
  rw [left] at member
  rw [next]
  exact List.mem_cons_of_mem _ member

private theorem slave_clone (driven : Driven w) (next : w.reports = .clone child :: rest) :
    ∃ w', slaveWait w = .ok () w' ∧ Held w w' ∧ w'.reports = rest ∧
      w'.layout = w.layout ∧ w'.thread.signo = none := by
  simp only [slaveWait, threadWait, driven.alive, next, threadHandleStatus, threadContinueOrStop,
    driven.slave,
    setThread, keepStopped, run_bind, run_get, run_modify, Bool.or_false, Bool.or_true,
    Bool.false_eq_true, ↓reduceIte]
  exact ⟨_, rfl, ⟨⟨rfl, rfl, rfl, fun _ => rfl, fewer_of_next next rfl⟩, rfl, rfl, rfl,
    fun _ => rfl⟩, rfl, rfl, rfl⟩

private theorem slave_exec (driven : Driven w) (next : w.reports = .exec regs rescan :: rest)
    (quiet : rescan.calls = []) :
    ∃ w', slaveWait w = .ok () w' ∧ Held w w' ∧ w'.reports = rest ∧
      w'.layout = rescan.layout ∧ w'.thread.signo = none := by
  simp [slaveWait, threadWait, driven.alive, next, threadHandleStatus, threadExec, quiet,
    threadContinueOrStop,
    driven.slave, setThread, keepStopped]
  exact ⟨⟨rfl, rfl, rfl, fun _ => rfl, fewer_of_next next rfl⟩, rfl, rfl, rfl, fun _ => rfl⟩

private theorem slave_exec_fails (driven : Driven w) (next : w.reports = .exec regs rescan :: rest)
    (calls : rescan.calls ≠ []) : ∃ fault w', slaveWait w = .error fault w' := by
  obtain ⟨call, more, shape⟩ := List.exists_cons_of_ne_nil calls
  simp [slaveWait, threadWait, driven.alive, next, threadHandleStatus, threadExec, shape, setThread]

/-- A signal changes nothing but the thread. -/
private theorem slave_signal (driven : Driven w) (next : w.reports = .signal signo regs rescan :: rest) :
    ∃ w', slaveWait w = .ok () w' ∧ Held w w' ∧ w'.reports = rest ∧ Frame w w' ∧
      w'.thread.signo.map Signal.signo = some signo ∧ w'.thread.execed = w.thread.execed := by
  by_cases held : (w.stabilizing && signo = .sigsegv && w.layout.code regs.pc) = true
  · obtain ⟨⟨stabilizing, rfl⟩, code⟩ : (w.stabilizing = true ∧ signo = .sigsegv) ∧
        w.layout.code regs.pc = true := by
      simpa using held
    simp [slaveWait, threadWait, driven.alive, next, threadHandleStatus, stoppedBy, driven.slave, isTrap,
      threadHandleSignal, stabilizing, code, setThread]
    exact ⟨⟨⟨rfl, rfl, stabilizing.symm, id, fewer_of_next next rfl⟩, rfl, rfl, rfl,
      fun calm => by simp [stabilizing] at calm⟩,
      rfl, rfl, rfl⟩
  · by_cases stop : signo = .sigstop
    · simp [slaveWait, threadWait, driven.alive, next, threadHandleStatus, stoppedBy, stop, driven.slave,
        threadHandleSignal, threadContinueOrStop, setThread, keepStopped]
      exact ⟨⟨⟨rfl, rfl, rfl, fun _ => rfl, fewer_of_next next rfl⟩, rfl, rfl, rfl, fun _ => rfl⟩,
        rfl, rfl, rfl⟩
    · have resumed : ¬ ((w.stabilizing = true ∧ signo = .sigsegv) ∧ w.layout.code regs.pc = true) := by
        simpa using held
      simp [slaveWait, threadWait, driven.alive, next, threadHandleStatus, stoppedBy, stop, driven.slave,
        threadHandleSignal, resumed, threadContinueOrStop, setThread, keepStopped]
      exact ⟨⟨⟨rfl, rfl, rfl, fun _ => rfl, fewer_of_next next rfl⟩, rfl, rfl, rfl, fun _ => rfl⟩,
        rfl, rfl, rfl⟩

/-- Letting a held thread run again. -/
private theorem Held.driven (held : Held w w') :
    Driven { w' with thread := threadContinue none w'.thread } := by
  simp only [threadContinue, held.alive, held.stopped, Bool.or_self, Bool.false_eq_true, ↓reduceIte]
  exact ⟨rfl, held.slave, rfl⟩

/-! ## Loops -/

/-- A thread that died, as `thread_exit` leaves it. -/
structure Gone (w : World) : Prop where
  dead : w.thread.dead = true
  stopped : w.thread.running = false

/-- How the loop of an injected call leaves the thread. -/
private structure Ended (ending : Ending) (w w' : World) : Prop extends Later w w' where
  rest : w'.reports = ending.rest
  layout : w'.layout = ending.layout
  frame : (∀ r ∈ w.reports, Plain r) → Frame w w'
  died : ending.fate = .died → Gone w'
  lives : ending.fate ≠ .died → Held w w'

/-- A program that does to the thread what the reports say. -/
def Ends (R : Ending → World → World → Prop) (result : EStateM.Result Fault World Unit)
    (ending : Option Ending) (w : World) : Prop :=
  match ending with
  | none => ∃ fault w', result = .error fault w'
  | some ending => ∃ w', result = .ok () w' ∧ R ending w w'

theorem Ends.imp {R S : Ending → World → World → Prop} (ends : Ends R result ending v)
    (stronger : ∀ ending w', R ending v w' → S ending w w') : Ends S result ending w := by
  cases ending with
  | none => exact ends
  | some ending =>
    obtain ⟨w', ran, ended⟩ := ends
    exact ⟨w', ran, stronger ending w' ended⟩

private theorem Held.trans (first : Later u v) (held : Held v w) : Held u w :=
  ⟨first.trans held.toLater, held.alive, held.slave, held.stopped, fun calm =>
    held.cleared (first.stabilizing.trans calm)⟩

private theorem Ended.trans (first : Later u v) (quiet : (∀ r ∈ u.reports, Plain r) → Frame u v)
    (ended : Ended ending v w) : Ended ending u w :=
  ⟨first.trans ended.toLater, ended.rest, ended.layout,
    fun plain => (quiet plain).trans (ended.frame fun r member => plain r (first.fewer r member)),
    ended.died, fun lives => (ended.lives lives).trans first⟩

private theorem continue_notified (t : Thread) : (threadContinue signo t).notified = t.notified := by
  unfold threadContinue
  split
  · rfl
  · cases signo <;> rfl

private theorem continue_execed (t : Thread) : (threadContinue signo t).execed = t.execed := by
  unfold threadContinue
  split
  · rfl
  · cases signo <;> rfl

private theorem continue_stopme (t : Thread) : (threadContinue signo t).stopme = t.stopme := by
  unfold threadContinue
  split
  · rfl
  · cases signo <;> rfl

private theorem later_continue (signo : Option Signal) (w : World) :
    Later w { w with thread := threadContinue signo w.thread } :=
  ⟨rfl, continue_notified _, rfl, fun unasked => (continue_stopme _).trans unasked,
    fun _ member => member⟩

/-- A thread that dies in slave mode. -/
private theorem ended_exited (next : w.reports = .exited :: rest) :
    Ended ⟨.died, w.layout, rest⟩ w { w with reports := rest, thread := threadExit w.thread } :=
  ⟨⟨rfl, rfl, rfl, id, fewer_of_next next rfl⟩, rfl, rfl, fun _ => ⟨rfl, rfl, rfl⟩, fun _ => ⟨rfl, rfl⟩,
    fun lives => absurd rfl lives⟩

private theorem ended_held (held : Held w w') (frame : (∀ r ∈ w.reports, Plain r) → Frame w w') :
    Ended ⟨.survived, w'.layout, w'.reports⟩ w w' :=
  ⟨held.toLater, rfl, rfl, frame, fun died => (by cases died), fun _ => held⟩

private theorem not_plain {w : World} {report : Report} (next : w.reports = report :: rest)
    (impure : ¬ Plain report)
    (plain : ∀ r ∈ w.reports, Plain r) : False :=
  impure (plain report (next ▸ List.mem_cons_self))

private theorem restop_loop_ends (driven : Driven w) (fuel : w.reports.length ≤ rounds) :
    Ends Ended (restopLoop rounds w) (restopEnd w.layout w.reports) w := by
  induction rounds generalizing w with
  | zero =>
    have empty : w.reports = [] := List.length_eq_zero_iff.mp (Nat.le_zero.mp fuel)
    rw [empty]
    exact ⟨_, _, rfl⟩
  | succ rounds ih =>
    -- A stop that does not end the loop lets the thread run on the remaining reports.
    have again : ∀ {w'}, Held w w' → ((∀ r ∈ w.reports, Plain r) → Frame w w') →
        w'.reports.length ≤ rounds →
        Ends Ended (restopLoop rounds { w' with thread := threadContinue none w'.thread })
          (restopEnd w'.layout w'.reports) w := fun {w'} held quiet shorter =>
      (ih held.driven shorter).imp fun _ _ ended =>
        (ended.trans (later_continue none w') fun _ => ⟨rfl, rfl, rfl⟩).trans held.toLater quiet
    cases next : w.reports with
    | nil =>
      exact ⟨_, _, by simp [restopLoop, slaveWait, threadWait, driven.alive, next]; exact ⟨rfl, rfl⟩⟩
    | cons report rest =>
      rw [next] at fuel
      simp only [List.length_cons, Nat.add_le_add_iff_right] at fuel
      cases report with
      | exited =>
        refine ⟨_, ?_, ended_exited next⟩
        simp [restopLoop, slave_exited driven next, threadExit]
      | clone child =>
        obtain ⟨w', waited, held, left, layout, signo⟩ := slave_clone driven next
        have ends := again held (fun plain => (not_plain next id plain).elim) (left ▸ fuel)
        simpa [restopLoop, waited, held.alive, signo, setThread, restopEnd, left, layout] using ends
      | exec regs rescan =>
        by_cases quiet : rescan.calls = []
        · obtain ⟨w', waited, held, left, layout, signo⟩ := slave_exec driven next quiet
          have ends := again held (fun plain => (not_plain next id plain).elim) (left ▸ fuel)
          simpa [restopLoop, waited, held.alive, signo, setThread, restopEnd, left, layout,
            quiet] using ends
        · obtain ⟨fault, w', failed⟩ := slave_exec_fails driven next quiet
          simp [restopLoop, failed, restopEnd, quiet, Ends]
      | signal signo regs rescan =>
        obtain ⟨w', waited, held, left, frame, stopped, -⟩ := slave_signal driven next
        have ends := again held (fun _ => frame) (left ▸ fuel)
        have ended := ended_held held fun _ => frame
        cases signo <;>
          simp [restopLoop, waited, held.alive, stopped, setThread, restopEnd, left,
            frame.layout] at ends ended ⊢ <;>
          first | exact ends | exact ⟨w', rfl, ended⟩

/-- A call, unlike a restop, always leaves the process and `execed` alone. -/
private structure CallEnded (ending : Ending) (w w' : World) : Prop extends Ended ending w w' where
  execed : w'.thread.execed = w.thread.execed
  kept : Frame w w'
  taken : ending.fate ≠ .died → w'.thread.signo = none

private theorem call_loop_ends (driven : Driven w) (fuel : w.reports.length ≤ rounds) :
    Ends CallEnded (callLoop rounds w) (callEnd w.layout w.reports) w := by
  induction rounds generalizing w with
  | zero =>
    have empty : w.reports = [] := List.length_eq_zero_iff.mp (Nat.le_zero.mp fuel)
    rw [empty]
    exact ⟨_, _, rfl⟩
  | succ rounds ih =>
    cases next : w.reports with
    | nil =>
      exact ⟨_, _, by simp [callLoop, slaveWait, threadWait, driven.alive, next]; exact ⟨rfl, rfl⟩⟩
    | cons report rest =>
      rw [next] at fuel
      simp only [List.length_cons, Nat.add_le_add_iff_right] at fuel
      cases report with
      | exited =>
        refine ⟨_, ?_, ended_exited next, rfl, ⟨rfl, rfl, rfl⟩, fun lives => absurd rfl lives⟩
        simp [callLoop, slave_exited driven next, threadExit]
      | clone child =>
        obtain ⟨w', waited, held, left, layout, signo⟩ := slave_clone driven next
        simp [callLoop, waited, held.alive, signo, setThread, callEnd, Ends]
      | exec regs rescan =>
        by_cases quiet : rescan.calls = []
        · obtain ⟨w', waited, held, left, layout, signo⟩ := slave_exec driven next quiet
          simp [callLoop, waited, held.alive, signo, setThread, callEnd, Ends]
        · obtain ⟨fault, w', failed⟩ := slave_exec_fails driven next quiet
          simp [callLoop, failed, callEnd, Ends]
      | signal signo regs rescan =>
        obtain ⟨w', waited, held, left, frame, stopped, execed⟩ := slave_signal driven next
        -- The signal is taken from the thread before the loop goes on or ends.
        have taken : Held w { w' with thread := { w'.thread with signo := none } } :=
          ⟨⟨held.leader, held.notified, held.stabilizing, held.unasked, held.fewer⟩, held.alive,
            held.slave, held.stopped,
            held.cleared⟩
        have quiet : Frame w { w' with thread := { w'.thread with signo := none } } :=
          ⟨frame.layout, frame.children, frame.alone⟩
        have ended : CallEnded _ w { w' with thread := { w'.thread with signo := none } } :=
          ⟨ended_held taken fun _ => quiet, execed, quiet, fun _ => rfl⟩
        have ends := (ih taken.driven (left ▸ fuel)).imp (S := CallEnded) (w := w) fun _ _ later =>
          ⟨(later.toEnded.trans (later_continue none _) fun _ => ⟨rfl, rfl, rfl⟩).trans
            taken.toLater fun _ => quiet,
            later.execed.trans ((continue_execed _).trans execed),
            ⟨later.kept.layout.trans frame.layout, later.kept.children.trans frame.children,
              later.kept.alone.trans frame.alone⟩, later.taken⟩
        cases signo <;>
          simp [callLoop, waited, held.alive, stopped, setThread, callEnd, left,
            frame.layout] at ends ended ⊢ <;>
          first | exact ends | exact ⟨_, rfl, ended⟩

/-! ## Calls -/

/-- A stopped thread in which a call may be made. -/
structure Ready (w : World) : Prop where
  alive : w.thread.dead = false
  stopped : w.thread.running = false
  free : w.thread.slavemode = false

/-- How a finished call, or a series of them, leaves the thread. -/
structure Settled (ending : Ending) (w w' : World) : Prop extends Later w w' where
  rest : w'.reports = ending.rest
  layout : w'.layout = ending.layout
  frame : w.thread.execed = false ∨ (∀ r ∈ w.reports, Plain r) → Frame w w'
  untouched : ending.fate = .untouched → w' = w
  survived : ending.fate = .survived →
    Ready w' ∧ w'.thread.execed = false ∧ w'.thread.regs = w.thread.regs ∧
      (w.stabilizing = false → w'.thread.stopme = false) ∧ w'.thread.signo = none
  died : ending.fate = .died → Gone w'

private theorem settled_untouched (w : World) : Settled ⟨.untouched, w.layout, w.reports⟩ w w :=
  ⟨Later.refl w, rfl, rfl, fun _ => Frame.refl w, fun _ => rfl, fun absurd => (by cases absurd),
    fun absurd => (by cases absurd)⟩

/-- A call that is not begun leaves the world as it was. -/
private theorem start_untouched (ready : Ready w) : fncallStart false w = .ok () w := by
  obtain ⟨thread, leader, stabilizing, layout, children, alone, reports⟩ := w
  obtain ⟨running, setoptions, execed, stopme, slavemode, dead, notified, signo, regs, pending,
      delivered⟩ := thread
  obtain ⟨alive, stopped, free⟩ := ready
  dsimp only at alive stopped free
  subst alive stopped free
  rfl

/-- The thread as the loop of a call, or of a restop, finds it. -/
private theorem Ready.driven (ready : Ready w) :
    Driven { w with thread := threadContinue none { w.thread with slavemode := true } } := by
  simp only [threadContinue, ready.alive, ready.stopped, Bool.or_self, Bool.false_eq_true, ↓reduceIte]
  exact ⟨rfl, rfl, rfl⟩

private theorem Ready.later (w : World) :
    Later w { w with thread := threadContinue none { w.thread with slavemode := true } } :=
  ⟨rfl, continue_notified _, rfl, fun unasked => (continue_stopme _).trans unasked,
    fun _ member => member⟩

private theorem start_ends (ready : Ready w) (execed : w.thread.execed = false) :
    Ends Settled (fncallStart true w) (callEnd w.layout w.reports) w := by
  have started : fncallStart true w = (do
      callLoop w.reports.length
      let w' ← get
      unlessSo w'.thread.dead (threadSetRegs w.thread.regs)
      setThread fun t => { t with slavemode := false } : Action Unit)
      { w with thread := threadContinue none { w.thread with slavemode := true } } := by
    simp [fncallStart, ready.free, assert, setThread, threadGetRegs, ready.stopped,
      ready.alive, unlessSo]
  have ends := call_loop_ends ready.driven (Nat.le_refl w.reports.length)
  rw [started]
  cases ending : callEnd w.layout w.reports with
  | none =>
    rw [ending] at ends
    obtain ⟨fault, w', failed⟩ := ends
    exact ⟨fault, w', by simp [failed]⟩
  | some ending' =>
    rw [ending] at ends
    obtain ⟨w', ran, ended, same, kept, taken⟩ := ends
    have later := (Ready.later w).trans ended.toLater
    have ranAtAll := callEnd_ran ending
    by_cases died : ending'.fate = .died
    · have gone := ended.died died
      refine ⟨{ w' with thread := { w'.thread with slavemode := false } },
        by simp [ran, gone.dead, unlessSo, setThread], ?_⟩
      exact ⟨⟨later.leader, later.notified, later.stabilizing, later.unasked, later.fewer⟩,
        ended.rest, ended.layout,
        fun _ => ⟨kept.layout, kept.children, kept.alone⟩, fun untouched => absurd untouched ranAtAll,
        fun survived => by simp [died] at survived, fun _ => ⟨gone.dead, gone.stopped⟩⟩
    · have held := ended.lives died
      refine ⟨{ w' with thread := { w'.thread with regs := w.thread.regs, slavemode := false } },
        by simp [ran, held.alive, held.stopped, unlessSo, setThread, threadSetRegs, assert], ?_⟩
      exact ⟨⟨later.leader, later.notified, later.stabilizing, later.unasked, later.fewer⟩,
        ended.rest, ended.layout,
        fun _ => ⟨kept.layout, kept.children, kept.alone⟩, fun untouched => absurd untouched ranAtAll,
        fun _ => ⟨⟨held.alive, held.stopped, rfl⟩, (same.trans (continue_execed _)).trans execed, rfl,
          held.cleared, taken died⟩,
        fun absurd => (died absurd).elim⟩

/-- How a restop leaves the thread. -/
private structure Restopped (ending : Ending) (w w' : World) : Prop extends Later w w' where
  rest : w'.reports = ending.rest
  layout : w'.layout = ending.layout
  frame : (∀ r ∈ w.reports, Plain r) → Frame w w'
  survived : ending.fate = .survived →
    Ready w' ∧ w'.thread.regs = w.thread.regs ∧ (w.stabilizing = false → w'.thread.stopme = false) ∧
      w'.thread.signo = none
  died : ending.fate = .died → Gone w'

private theorem restop_ends (ready : Ready w) :
    Ends Restopped (fncallRestop true w) (restopEnd w.layout w.reports) w := by
  have started : fncallRestop true w = (do
      restopLoop w.reports.length
      let w' ← get
      if w'.thread.dead then pure ()
      else do
        setThread fun t => { t with signo := none }
        threadSetRegs w.thread.regs
        setThread fun t => { t with slavemode := false } : Action Unit)
      { w with thread := threadContinue none { w.thread with slavemode := true } } := by
    simp [fncallRestop, ready.free, assert, setThread, threadGetRegs, ready.stopped, ready.alive]
  have ends := restop_loop_ends ready.driven (Nat.le_refl w.reports.length)
  rw [started]
  cases ending : restopEnd w.layout w.reports with
  | none =>
    rw [ending] at ends
    obtain ⟨fault, w', failed⟩ := ends
    exact ⟨fault, w', by simp [failed]⟩
  | some ending' =>
    rw [ending] at ends
    obtain ⟨w', ran, ended⟩ := ends
    have later := (Ready.later w).trans ended.toLater
    have frame : (∀ r ∈ w.reports, Plain r) → Frame w w' := fun plain =>
      ⟨(ended.frame plain).layout, (ended.frame plain).children, (ended.frame plain).alone⟩
    by_cases died : ending'.fate = .died
    · have gone := ended.died died
      exact ⟨w', by simp [ran, gone.dead], later, ended.rest, ended.layout, frame,
        fun survived => by simp [died] at survived, fun _ => gone⟩
    · have held := ended.lives died
      refine ⟨{ w' with thread := { w'.thread with signo := none, regs := w.thread.regs, slavemode := false } },
        by simp [ran, held.alive, held.stopped, setThread, threadSetRegs, assert],
        ⟨later.leader, later.notified, later.stabilizing, later.unasked, later.fewer⟩, ended.rest,
        ended.layout,
        fun plain => ⟨(frame plain).layout, (frame plain).children, (frame plain).alone⟩,
        fun _ => ⟨⟨held.alive, held.stopped, rfl⟩, rfl, held.cleared, rfl⟩,
        fun absurd => (died absurd).elim⟩

/-- A later call decides how the thread is left, if it runs at all. -/
private theorem Settled.after_survival (first : Later u v)
    (frame : (∀ r ∈ u.reports, Plain r) → Frame u v)
    (kept : u.thread.execed = false → Frame u v) (execed : v.thread.execed = false)
    (regs : v.thread.regs = u.thread.regs) (ran : ending.fate ≠ .untouched)
    (settled : Settled ending v w) :
    Settled ending u w := by
  refine ⟨first.trans settled.toLater, settled.rest, settled.layout, fun quiet => ?_,
    fun untouched => absurd untouched ran, fun survived => ?_, settled.died⟩
  · have later := settled.frame (.inl execed)
    rcases quiet with notExeced | plain
    · exact (kept notExeced).trans later
    · exact (frame plain).trans later
  · obtain ⟨ready, notExeced, same, cleared, taken⟩ := settled.survived survived
    exact ⟨ready, notExeced, same.trans regs, fun calm => cleared (first.stabilizing.trans calm), taken⟩

/-- `fncall_call` does to the thread what the reports say. -/
theorem call_ends (call : Call) (ready : Ready w) :
    Ends Settled (fncallCall call w) (fncallEnd w.thread.execed call w.layout w.reports) w := by
  cases execed : w.thread.execed with
  | false =>
    cases begins : call.begins with
    | true => simpa [fncallCall, execed, fncallEnd, begins] using start_ends ready execed
    | false =>
      have ending : fncallEnd false call w.layout w.reports =
          some ⟨.untouched, w.layout, w.reports⟩ := by
        simp [fncallEnd, begins]
      rw [ending]
      exact ⟨w, by simp [fncallCall, execed, begins, start_untouched ready], settled_untouched w⟩
  | true =>
    cases patched : call.patched with
    | false =>
      simp [fncallCall, execed, fncallEnd, patched, fncallRestop, ready.free, ready.stopped,
        ready.alive, assert,
        setThread, threadGetRegs, Ends]
    | true =>
      have ends := restop_ends ready
      have restopping : fncallCall call w = (do
          fncallRestop true
          let w ← get
          if w.thread.dead then setThread fun t => { t with slavemode := false }
          else do
            setThread fun t => { t with execed := false }
            fncallStart call.begins : Action Unit) w := by
        simp only [fncallCall, run_bind, run_get, execed, ↓reduceIte, patched]
      rw [restopping]
      simp only [fncallEnd, patched, ↓reduceIte]
      have notFalse : ¬ w.thread.execed = false := by simp [execed]
      cases ending : restopEnd w.layout w.reports with
      | none =>
        rw [ending] at ends
        obtain ⟨fault, w', failed⟩ := ends
        exact ⟨fault, w', by simp [failed]⟩
      | some ending' =>
        rw [ending] at ends
        obtain ⟨w', ran, later, rest', layout', frame, survived, died⟩ := ends
        obtain ⟨fate, layout, rest⟩ := ending'
        subst rest' layout'
        rw [run_bind, ran]
        cases fate with
        | untouched => exact absurd rfl (restopEnd_ran ending)
        | died =>
          have gone := died rfl
          refine ⟨{ w' with thread := { w'.thread with slavemode := false } },
            by simp [gone.dead, setThread], ?_⟩
          exact ⟨⟨later.leader, later.notified, later.stabilizing, later.unasked, later.fewer⟩, rfl, rfl,
            fun quiet => frame (quiet.resolve_left notFalse) |>.trans ⟨rfl, rfl, rfl⟩,
            fun absurd => (by cases absurd),
            fun absurd => (by cases absurd), fun _ => ⟨gone.dead, gone.stopped⟩⟩
        | survived =>
          obtain ⟨ready', regs, cleared, taken⟩ := survived rfl
          have again : Ready { w' with thread := { w'.thread with execed := false } } :=
            ⟨ready'.alive, ready'.stopped, ready'.free⟩
          have later' : Later w { w' with thread := { w'.thread with execed := false } } :=
            ⟨later.leader, later.notified, later.stabilizing, later.unasked, later.fewer⟩
          have frame' : (∀ r ∈ w.reports, Plain r) →
              Frame w { w' with thread := { w'.thread with execed := false } } :=
            fun plain => (frame plain).trans ⟨rfl, rfl, rfl⟩
          simp only [run_bind, run_get]
          rw [if_neg (by simp [ready'.alive])]
          cases begins : call.begins with
          | true =>
            have started := start_ends again rfl
            cases ending'' : callEnd w'.layout w'.reports with
            | none =>
              simp only [ending''] at started
              exact started
            | some final =>
              simp only [ending''] at started
              obtain ⟨w'', ran', settled⟩ := started
              refine ⟨w'', ran', ?_⟩
              exact settled.after_survival later' frame' (fun absurd => (notFalse absurd).elim) rfl regs
                (callEnd_ran ending'')
          | false =>
            refine ⟨_, start_untouched again, later', rfl, rfl,
              fun quiet => frame' (quiet.resolve_left notFalse),
              fun absurd => (by cases absurd), fun _ => ⟨again, rfl, regs, cleared, taken⟩,
              fun absurd => (by cases absurd)⟩

/-- Making a call in a dead thread is fatal. -/
private theorem call_dead (call : Call) (dead : w.thread.dead = true) :
    ∃ fault w', fncallCall call w = .error fault w' := by
  cases execed : w.thread.execed <;> cases slave : w.thread.slavemode <;> cases running :
      w.thread.running <;>
    simp [fncallCall, execed, fncallRestop, fncallStart, slave, running, dead, assert, setThread,
      threadGetRegs]

/-- A series of calls does to the thread what the reports say. -/
theorem calls_end (calls : List Call) (ready : Ready w) :
    Ends Settled (calls.forM fncallCall w) (callsEnd w.thread.execed w.layout calls w.reports) w := by
  induction calls generalizing w with
  | nil => exact ⟨w, rfl, settled_untouched w⟩
  | cons call calls ih =>
    have ends := call_ends call ready
    simp only [List.forM_eq_forM, List.forM_cons, run_bind, callsEnd] at ih ⊢
    cases ending : fncallEnd w.thread.execed call w.layout w.reports with
    | none =>
      rw [ending] at ends
      obtain ⟨fault, w', failed⟩ := ends
      exact ⟨fault, w', by simp [failed]⟩
    | some ending' =>
      rw [ending] at ends
      obtain ⟨w', ran, settled⟩ := ends
      obtain ⟨fate, layout, rest⟩ := ending'
      obtain ⟨later, rfl, rfl, frame, untouched, survived, died⟩ := settled
      simp only [ran]
      cases fate with
      | untouched =>
        -- Only a thread that has not just execed can be left untouched.
        cases untouched rfl
        cases execed : w.thread.execed with
        | true =>
          rw [execed] at ending
          exact absurd rfl (restarted_ran ending)
        | false =>
          have ends := ih ready
          rw [execed] at ends
          exact ends
      | died =>
        cases calls with
        | nil =>
          exact ⟨w', rfl, later, rfl, rfl, frame, fun absurd => (by cases absurd),
            fun absurd => (by cases absurd), died⟩
        | cons next calls =>
          obtain ⟨fault, w'', failed⟩ := call_dead next (died rfl).dead
          simp [failed, Ends]
      | survived =>
        obtain ⟨ready', execed, regs, cleared, taken⟩ := survived rfl
        have ends := ih ready'
        rw [execed] at ends
        simp only
        cases last : callsEnd false w'.layout calls w'.reports with
        | none =>
          rw [last] at ends
          exact ends
        | some ending'' =>
          rw [last] at ends
          obtain ⟨w'', ran', settled⟩ := ends
          obtain ⟨fate, layout, rest⟩ := ending''
          have after : fate ≠ .untouched → Settled ⟨fate, layout, rest⟩ w w'' := fun ran =>
            settled.after_survival later (fun plain => frame (.inr plain)) (fun notExeced =>
              frame (.inl notExeced))
              execed regs ran
          cases fate with
          | untouched =>
            obtain ⟨-, rfl, rfl, -, untouched, -, -⟩ := settled
            cases untouched rfl
            exact ⟨w', ran', later, rfl, rfl, frame, fun absurd => (by cases absurd),
              fun _ => ⟨ready', execed, regs, cleared, taken⟩, fun absurd => (by cases absurd)⟩
          | survived => exact ⟨w'', ran', after (by simp)⟩
          | died => exact ⟨w'', ran', after (by simp)⟩

/-! ## Resuming a thread -/

/-- `thread_continue_or_stop` for a thread that nobody asked to stop. -/
theorem resume_announced (signo : Option Signal) (ready : Ready w) (unasked : w.thread.stopme = false)
    (notified : w.thread.notified = true) :
    threadContinueOrStop fncallCall signo w = .ok ()
    { w with thread := threadContinue signo w.thread } := by
  simp [threadContinueOrStop, ready.alive, ready.stopped, ready.free, unasked, notified,
    unlessSo, setThread]

/-- A thread that was not announced yet is announced first. -/
theorem resume_unannounced (signo : Option Signal) (ready : Ready w) (unasked : w.thread.stopme = false)
    (notified : w.thread.notified = false) :
    threadContinueOrStop fncallCall signo w =
      match (w.layout.handlers w.leader).forM fncallCall w with
      | .ok _ w' => .ok () { w' with thread := threadContinue signo { w'.thread with notified := true } }
      | .error fault w' => .error fault w' := by
  simp only [threadContinueOrStop, run_bind, run_get, ready.alive, ready.stopped, ready.free,
    unasked, notified,
    unlessSo, injectionNotifyNewThread, assert, setThread, run_modify, run_pure, Bool.or_self,
    Bool.not_false,
    Bool.false_eq_true, ↓reduceIte]
  cases (w.layout.handlers w.leader).forM fncallCall w <;> rfl

/-- A request to stop, or slave mode, keeps the thread where it is. -/
theorem resume_kept (call : Call → Action Unit) (signo : Option Signal) (alive : w.thread.dead = false)
    (stopped : w.thread.running = false) (kept : w.thread.stopme = true ∨ w.thread.slavemode = true) :
    threadContinueOrStop call signo w = .ok () { w with thread := keepStopped signo w.thread } := by
  simp [threadContinueOrStop, alive, stopped, kept, setThread]

end Adbi.CallProofs
