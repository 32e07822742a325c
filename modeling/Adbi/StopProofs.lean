import Adbi.CallProofs

/-! When `thread_stop` stops its thread. Handling an exec or a linker hit makes
injected calls in the very thread that is being stopped; the stops of these
calls clear the request, and the thread is resumed. -/
namespace Adbi.StopProofs
open Adbi.Lib Adbi.Tracee Adbi.CallProofs

/-! ## Resuming or stopping at the end -/

/-- A request that is still there keeps the thread stopped. -/
private theorem asked_stays (call : Call → Action Unit) (signo : Option Signal)
    (stopped : w.thread.running = false)
    (asked : w.thread.stopme = true) :
    ∃ w', threadContinueOrStop call signo w = .ok () w' ∧ w'.thread.running = false := by
  cases dead : w.thread.dead with
  | true => exact ⟨w, by simp [threadContinueOrStop, dead], stopped⟩
  | false => exact ⟨_, resume_kept call signo dead stopped (.inl asked), stopped⟩

/-- A request that is gone resumes the thread, unless the thread still has to
be announced and dies of it. -/
private theorem unasked_runs (ready : Ready w) (cleared : w.thread.stopme = false)
    (execed : w.thread.execed = false) :
    (∃ w', threadContinueOrStop fncallCall none w = .ok () w' ∧ w'.thread.running = false) ↔
      w.thread.notified = false ∧
        ∃ ending, announceEnd w.leader w.layout w.reports = some ending ∧ ending.fate = .died := by
  cases notified : w.thread.notified with
  | true =>
    rw [resume_announced none ready cleared notified]
    simp [threadContinue, ready.alive, ready.stopped]
  | false =>
    have ends := calls_end (w.layout.handlers w.leader) ready
    rw [execed] at ends
    rw [resume_unannounced none ready cleared notified]
    simp only [announceEnd]
    cases ending : callsEnd false w.layout (w.layout.handlers w.leader) w.reports with
    | none =>
      rw [ending] at ends
      obtain ⟨fault, w', failed⟩ := ends
      simp [failed]
    | some ending' =>
      rw [ending] at ends
      obtain ⟨w', ran, settled⟩ := ends
      obtain ⟨fate, layout, rest⟩ := ending'
      obtain ⟨-, rfl, rfl, -, untouched, survived, died⟩ := settled
      rw [ran]
      cases fate with
      | untouched =>
        cases untouched rfl
        simp [threadContinue, ready.alive, ready.stopped]
      | survived =>
        obtain ⟨ready', -⟩ := survived rfl
        simp [threadContinue, ready'.alive, ready'.stopped]
      | died => simp [threadContinue, (died rfl).dead, (died rfl).stopped]

/-! ## `thread_stop` -/

/-- The calls kill the thread. -/
def Dies (ending : Option Ending) : Prop := ∃ e, ending = some e ∧ e.fate = .died

/-- Which events leave a thread that was asked to stop stopped. An exec or a hit
of the linker breakpoint must run no injected call, or the thread must die of
the calls, at the latest of those that announce it; after a linker hit the
server still needs the thread, so there only of the latter. -/
def Harmless (w : World) : Report → List Report → Prop
  | .exec _ rescan, rest =>
    match callsEnd true rescan.layout rescan.calls rest with
    | none => False
    | some ⟨.untouched, _, _⟩ => True
    | some ⟨.survived, layout, rest⟩ =>
      w.thread.notified = false ∧ Dies (announceEnd w.leader layout rest)
    | some ⟨.died, _, _⟩ => True
  | .signal signo regs rescan, rest =>
    isTrap signo = true → w.layout.jump regs.pc = none → regs.pc = w.layout.linkerBkpt →
      match callsEnd w.thread.execed w.layout rescan.calls rest with
      | none => False
      | some ⟨.untouched, _, _⟩ => True
      | some ⟨.survived, _, rest⟩ =>
        w.thread.notified = false ∧ Dies (announceEnd w.leader rescan.layout rest)
      | some ⟨.died, _, _⟩ => False
  | .clone _, _ => True
  | .exited, _ => True

/-- Handling came to an end with the thread stopped. -/
private def Stops (result : EStateM.Result Fault World Unit) : Prop :=
  ∃ w', result = .ok () w' ∧ w'.thread.running = false

/-- A stopped thread with a pending request to stop. -/
private structure Asked (w : World) : Prop extends Ready w where
  calm : w.stabilizing = false
  asked : w.thread.stopme = true

/-- What is left to do once the calls of an exec are made. -/
private theorem exec_stops_iff (asked : Asked w) (calls : List Call) :
    Stops ((do calls.forM fncallCall; threadContinueOrStop fncallCall none : Action Unit) w) ↔
      match callsEnd w.thread.execed w.layout calls w.reports with
      | none => False
      | some ⟨.untouched, _, _⟩ => True
      | some ⟨.survived, layout, rest⟩ =>
        w.thread.notified = false ∧ Dies (announceEnd w.leader layout rest)
      | some ⟨.died, _, _⟩ => True := by
  have ends := calls_end calls asked.toReady
  cases ending : callsEnd w.thread.execed w.layout calls w.reports with
  | none =>
    rw [ending] at ends
    obtain ⟨fault, w', failed⟩ := ends
    rw [Stops, run_bind, failed]
    simp
  | some ending' =>
    rw [ending] at ends
    obtain ⟨w', ran, settled⟩ := ends
    obtain ⟨fate, layout, rest⟩ := ending'
    obtain ⟨later, rfl, rfl, -, untouched, survived, died⟩ := settled
    have notified := later.notified
    have leader := later.leader
    rw [Stops, run_bind, ran]
    cases fate with
    | untouched =>
      cases untouched rfl
      exact iff_of_true (asked_stays fncallCall none asked.stopped asked.asked) trivial
    | survived =>
      obtain ⟨ready', execed, -, cleared, -⟩ := survived rfl
      rw [← notified, ← leader]
      exact unasked_runs ready' (cleared asked.calm) execed
    | died =>
      refine iff_of_true ⟨w', ?_, (died rfl).stopped⟩ trivial
      simp [threadContinueOrStop, (died rfl).dead]

/-- What is left to do once the calls of a linker hit are made. -/
private theorem linker_stops_iff (asked : Asked w) (rescan : Rescan) (regs : Regs) :
    Stops (linkerHit fncallCall rescan regs w) ↔
      match callsEnd w.thread.execed w.layout rescan.calls w.reports with
      | none => False
      | some ⟨.untouched, _, _⟩ => True
      | some ⟨.survived, _, rest⟩ =>
        w.thread.notified = false ∧ Dies (announceEnd w.leader rescan.layout rest)
      | some ⟨.died, _, _⟩ => False := by
  have ends := calls_end rescan.calls asked.toReady
  cases ending : callsEnd w.thread.execed w.layout rescan.calls w.reports with
  | none =>
    rw [ending] at ends
    obtain ⟨fault, w', failed⟩ := ends
    rw [Stops, linkerHit, run_bind, failed]
    simp
  | some ending' =>
    rw [ending] at ends
    obtain ⟨w', ran, settled⟩ := ends
    obtain ⟨fate, layout, rest⟩ := ending'
    obtain ⟨later, rfl, rfl, -, untouched, survived, died⟩ := settled
    have notified := later.notified
    have leader := later.leader
    rw [Stops, linkerHit, run_bind, ran]
    -- In a thread that is still there the registers can be set.
    have moved : ∀ {w' : World}, Ready w' → (do
        modify fun w => { w with layout := rescan.layout }
        threadSetRegs { regs with pc := regs.lr }
        threadContinueOrStop fncallCall none : Action Unit) w' =
          threadContinueOrStop fncallCall none
            { w' with layout := rescan.layout, thread := { w'.thread with regs := { regs with pc := regs.lr } } } :=
      fun ready => by
        simp [threadSetRegs, ready.alive, ready.stopped, assert, setThread]
    cases fate with
    | untouched =>
      cases untouched rfl
      simp only [moved asked.toReady, iff_true]
      exact asked_stays fncallCall none asked.stopped asked.asked
    | survived =>
      obtain ⟨ready', execed, -, cleared, -⟩ := survived rfl
      simp only [moved ready', ← notified, ← leader]
      exact unasked_runs ⟨ready'.alive, ready'.stopped, ready'.free⟩ (cleared asked.calm) execed
    | died =>
      simp [threadSetRegs, (died rfl).dead, (died rfl).stopped, assert]

/-- A signal that is no breakpoint of the server leaves the thread stopped. -/
private theorem signal_stops (asked : Asked w) (signal : Signal) :
    Stops (threadHandleSignal fncallCall signal w) := by
  obtain ⟨w', stays, stopped⟩ := asked_stays fncallCall (some signal) asked.stopped asked.asked
  exact ⟨w', by simp [threadHandleSignal, asked.calm, stays], stopped⟩

/-- What a trap comes to in a thread that was asked to stop. -/
private theorem trap_stops_iff (asked : Asked w) (rescan : Rescan) (signal : Signal) :
    Stops ((do let handled ← threadTrap fncallCall rescan; unlessSo handled (threadHandleSignal fncallCall signal)
        : Action Unit) w) ↔
      (w.layout.jump w.thread.regs.pc = none → w.thread.regs.pc = w.layout.linkerBkpt →
        match callsEnd w.thread.execed w.layout rescan.calls w.reports with
        | none => False
        | some ⟨.untouched, _, _⟩ => True
        | some ⟨.survived, _, rest⟩ =>
          w.thread.notified = false ∧ Dies (announceEnd w.leader rescan.layout rest)
        | some ⟨.died, _, _⟩ => False) := by
  have regs : threadGetRegs w = .ok w.thread.regs w := by
    simp [threadGetRegs, assert, asked.stopped, asked.alive]
  simp only [run_bind, threadTrap, regs, run_get]
  cases jump : w.layout.jump w.thread.regs.pc with
  | some target =>
    refine iff_of_true ?_ (by simp)
    obtain ⟨w', stays, stopped⟩ := asked_stays fncallCall none
      (w := { w with thread := { w.thread with regs := { w.thread.regs with pc := target } } })
        asked.stopped asked.asked
    refine ⟨w', ?_, stopped⟩
    simp [unlessSo, asked.calm, threadSetRegs, assert, asked.stopped, asked.alive, setThread] at stays ⊢
    simp [stays]
  | none =>
    by_cases linker : w.thread.regs.pc = w.layout.linkerBkpt
    · simp only [linker, forall_const, ↓reduceIte, run_bind]
      rw [← linker_stops_iff asked rescan w.thread.regs]
      cases linkerHit fncallCall rescan w.thread.regs w <;> simp [Stops, unlessSo]
    · refine iff_of_true ?_ (by simp [linker])
      simpa [linker, unlessSo] using signal_stops asked signal

private theorem stoppedBy_frame (signo : Signo) (t : Thread) :
    ∃ pending, (stoppedBy signo t).2 = { t with pending := pending } := by
  unfold stoppedBy
  split
  · exact ⟨none, rfl⟩
  · exact ⟨t.pending, rfl⟩

/-- Handling the report that answers the wait of `thread_stop`. -/
private theorem handle_stops_iff (alive : w.thread.dead = false) (free : w.thread.slavemode = false)
    (calm : w.stabilizing = false) (asked : w.thread.stopme = true) (report : Report) :
    Stops (threadHandleStatus fncallCall report w) ↔ Harmless w report w.reports := by
  cases report with
  | exited => exact iff_of_true ⟨_, rfl, rfl⟩ trivial
  | clone child =>
    refine iff_of_true ?_ trivial
    exact asked_stays fncallCall none
      (w := { w with
        children := child :: w.children, thread :=
        { w.thread with running := false, setoptions := true } }) rfl asked
  | exec regs rescan =>
    exact exec_stops_iff (w := { w with
      alone := true, layout := rescan.layout
      thread := { w.thread with running := false, setoptions := true, regs := regs, execed := true } })
      ⟨⟨alive, rfl, free⟩, calm, asked⟩ rescan.calls
  | signal signo regs rescan =>
    obtain ⟨pending, stopped⟩ := stoppedBy_frame signo w.thread
    have stop : Asked { w with thread := { w.thread with pending := pending, running := false, regs := regs } } :=
      ⟨⟨alive, rfl, free⟩, calm, asked⟩
    have offered : (!w.thread.slavemode && isTrap signo) = isTrap signo := by simp [free]
    simp only [threadHandleStatus, run_bind, run_get, setThread, run_modify, stopped, offered]
    cases trap : isTrap signo with
    | false =>
      refine iff_of_true ?_ (by simp [Harmless, trap])
      simpa [trap] using signal_stops stop _
    | true =>
      simp only [Harmless, trap, forall_const, ↓reduceIte]
      exact trap_stops_iff stop rescan _

/-- A process with nothing but the linker breakpoint, at address 16, and a
running thread in it. -/
def linked : Layout where
  jump _ := none
  linkerBkpt := 16
  code _ := false
  artificial _ := false
  newProcess := []
  newThread := []

def tracing (reports : List Report) : World where
  thread :=
    { running := true, setoptions := false, execed := false, stopme := false, slavemode := false, dead := false
      notified := true, signo := none, regs := ⟨0, 0⟩, pending := none, delivered := [] }
  leader := true
  stabilizing := false
  layout := linked
  children := []
  alone := false
  reports := reports

end Adbi.StopProofs
