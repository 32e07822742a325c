import Adbi.Lib.Stateful

/-! One traced thread, after `process/thread.c`, `procutil/wait.c`,
`arch/*/trap.c` and the injected calls of `arch/*/fncall.c`: what the server
keeps about the thread, what the kernel keeps about it, and what the server
does with each report it waits for. The reports are chosen by the environment
in any order; a wait that has none is blocked. Requests on a thread that is
stopped and alive are taken to succeed, so a thread dies only by a report. -/
namespace Adbi.Tracee
open Adbi.Lib

abbrev Pid := Nat
abbrev Address := Nat

inductive Signo where
  | sigstop | sigtrap | sigill | sigbus | sigsegv
  | other (number : Nat)
  deriving DecidableEq, Repr

/-- Who sent a signal. The server itself sends only the `SIGSTOP` of `thread_stop`. -/
inductive Sender where
  | server | elsewhere
  deriving DecidableEq, Repr

structure Signal where
  signo : Signo
  sender : Sender
  deriving DecidableEq, Repr

structure Regs where
  pc : Address
  lr : Address
  deriving DecidableEq, Repr

/-- One use of `fncall_call`: whether `fncall_restop`, if it is needed, gets its
breakpoint in, and whether the call itself passes the mode check and writes its
stack. -/
structure Call where
  patched : Bool
  begins : Bool
  deriving DecidableEq, Repr

/-- What the handling of a report looks up in the process. -/
structure Layout where
  /-- `jump_get`. -/
  jump : Address → Option Address
  /-- `process->linker.bkpt`. -/
  linkerBkpt : Address
  /-- `segment_check_address_is_code`. -/
  code : Address → Bool
  /-- `address_is_artificial`: trampolines and injections. -/
  artificial : Address → Bool
  /-- The calls to the `new_process` and to the `new_thread` handlers of the injections. -/
  newProcess : List Call
  newThread : List Call

/-- The handlers that announce a thread: the first one of a process announces the process. -/
def Layout.handlers (layout : Layout) (leader : Bool) : List Call :=
  if leader then layout.newProcess else layout.newThread

/-- What `segment_rescan` finds: the injected calls that it takes to instrument
the new segments, and the layout afterwards. -/
structure Rescan where
  calls : List Call
  layout : Layout

/-- What `waitpid` reports about a thread. -/
inductive Report where
  /-- Stopped by a signal; `rescan` is for the case that this is the linker breakpoint. -/
  | signal (signo : Signo) (regs : Regs) (rescan : Rescan)
  /-- A fork, vfork or clone event. -/
  | clone (child : Pid)
  /-- An exec event, with the start of the new image. -/
  | exec (regs : Regs) (rescan : Rescan)
  /-- Exited or terminated by a signal. -/
  | exited

/-- `thread_t`, and below it the kernel's side of the thread. -/
structure Thread where
  running : Bool
  setoptions : Bool
  execed : Bool
  stopme : Bool
  slavemode : Bool
  dead : Bool
  notified : Bool
  signo : Option Signal
  regs : Regs
  /-- The sender of the pending `SIGSTOP`; a second one is lost. -/
  pending : Option Sender
  /-- The signals passed with `PTRACE_CONT`, the last one first. -/
  delivered : List (Option Signal)
  deriving DecidableEq, Repr

/-- The thread in its process. -/
structure World where
  thread : Thread
  /-- `thread->pid == process->pid`. -/
  leader : Bool
  stabilizing : Bool
  layout : Layout
  /-- The children of the clone events seen so far, the last one first. -/
  children : List Pid
  /-- Set by `thread_exec`: the other threads of the process are gone. -/
  alone : Bool
  /-- What the coming waits report. -/
  reports : List Report

/-- How handling a report ends early: a failed assertion, `adbi_bug`, a ptrace
request to a dead thread (which is `adbi_bug` too), or a wait without a report. -/
inductive Fault where
  | assertion | bug | ptrace | blocked
  deriving DecidableEq, Repr

abbrev Action := EStateM Fault World

def setThread (f : Thread → Thread) : Action Unit := modify fun w => { w with thread := f w.thread }

def assert (holds : Bool) : Action Unit := if holds then pure () else throw .assertion

def unlessSo (so : Bool) (action : Action Unit) : Action Unit := if so then pure () else action

/-! ## Registers and signals -/

def threadGetRegs : Action Regs := do
  let w ← get
  assert (!w.thread.running)
  if w.thread.dead then throw .ptrace else pure w.thread.regs

def threadSetRegs (regs : Regs) : Action Unit := do
  let w ← get
  assert (!w.thread.running)
  if w.thread.dead then throw .ptrace else setThread fun t => { t with regs := regs }

/-- The kernel keeps at most one pending `SIGSTOP`. -/
def sigstop (sender : Sender) (t : Thread) : Thread := { t with pending := t.pending.or (some sender) }

/-- The stop that a report of `signo` stands for. A `SIGSTOP` that nobody was
seen to send came from elsewhere. -/
def stoppedBy (signo : Signo) (t : Thread) : Signal × Thread :=
  if signo = .sigstop then (⟨signo, t.pending.getD .elsewhere⟩, { t with pending := none })
  else (⟨signo, .elsewhere⟩, t)

/-! ## Continuing and stopping -/

/-- `thread_continue`. -/
def threadContinue (signo : Option Signal) (t : Thread) : Thread :=
  if t.dead || t.running then t
  else
    match signo with
    | some s => { t with setoptions := false, running := true, delivered := some s :: t.delivered }
    | none =>
      { t with setoptions := false, running := true, signo := none, delivered := t.signo :: t.delivered }

/-- The branch of `thread_continue_or_stop` for a thread that was asked to stop. -/
def keepStopped (signo : Option Signal) (t : Thread) : Thread :=
  { t with
    signo :=
      if t.slavemode then signo
      else if signo.map Signal.signo = some .sigstop then none else signo
    stopme := false }

section
variable (call : Call → Action Unit)

/-- `injection_notify_new_thread`. -/
def injectionNotifyNewThread : Action Unit := do
  let w ← get
  assert (!w.thread.running)
  (w.layout.handlers w.leader).forM call
  setThread fun t => { t with notified := true }

/-- `thread_continue_or_stop`. -/
def threadContinueOrStop (signo : Option Signal) : Action Unit := do
  let w ← get
  if w.thread.dead || w.thread.running then pure ()
  else if w.thread.stopme || w.thread.slavemode then setThread (keepStopped signo)
  else do
    unlessSo w.thread.notified (injectionNotifyNewThread call)
    setThread (threadContinue signo)

/-! ## Handling a report -/

/-- `thread_exec`. -/
def threadExec (rescan : Rescan) : Action Unit := do
  modify fun w =>
    { w with alone := true, layout := rescan.layout, thread := { w.thread with execed := true } }
  rescan.calls.forM call
  threadContinueOrStop call none

/-- A hit of the linker breakpoint: `linker_notify`, and the return that the
breakpoint replaced. -/
def linkerHit (rescan : Rescan) (regs : Regs) : Action Unit := do
  rescan.calls.forM call
  modify fun w => { w with layout := rescan.layout }
  threadSetRegs { regs with pc := regs.lr }
  threadContinueOrStop call none

/-- `thread_trap`: whether the stop was one of the server's own breakpoints. -/
def threadTrap (rescan : Rescan) : Action Bool := do
  let regs ← threadGetRegs
  let w ← get
  match w.layout.jump regs.pc with
  | some target => do
    -- While the process is stabilizing the jump is deferred.
    unlessSo w.stabilizing do
      threadSetRegs { regs with pc := target }
      threadContinueOrStop call none
    pure true
  | none =>
    if regs.pc = w.layout.linkerBkpt then do
      linkerHit call rescan regs
      pure true
    else pure false

/-- The stops that `thread_handle_status` offers to `thread_trap`. -/
def isTrap : Signo → Bool
  | .sigill | .sigtrap | .sigbus => true
  | _ => false

/-- The rest of `thread_handle_status` for a signal that is no breakpoint of the server. -/
def threadHandleSignal (signal : Signal) : Action Unit := do
  let w ← get
  if w.stabilizing && signal.signo = .sigsegv && w.layout.code w.thread.regs.pc then
    setThread fun t => { t with signo := some signal }
  else threadContinueOrStop call (some signal)

/-- `thread_exit`, for a thread that the kernel has forgotten with its signals. -/
def threadExit (t : Thread) : Thread := { t with running := false, dead := true, pending := none }

/-- `thread_handle_status`. -/
def threadHandleStatus : Report → Action Unit
  | .exited => setThread threadExit
  | .clone child => do
    modify fun w =>
      { w with
        children := child :: w.children
        thread := { w.thread with running := false, setoptions := true } }
    threadContinueOrStop call none
  | .exec regs rescan => do
    setThread fun t => { t with running := false, setoptions := true, regs := regs }
    threadExec call rescan
  | .signal signo regs rescan => do
    let w ← get
    let stop := stoppedBy signo w.thread
    setThread fun _ => { stop.2 with running := false, regs := regs }
    if !w.thread.slavemode && isTrap signo then do
      let handled ← threadTrap call rescan
      unlessSo handled (threadHandleSignal call stop.1)
    else threadHandleSignal call stop.1

/-- `thread_wait`, without `WNOHANG`. -/
def threadWait : Action Unit := do
  let w ← get
  if w.thread.dead then pure ()
  else
    match w.reports with
    | [] => throw .blocked
    | report :: rest => do
      modify fun w => { w with reports := rest }
      threadHandleStatus call report

end

/-! ## Injected calls -/

/-- The wait of a thread in slave mode. Any injected call that handling the
report would make fails the assertion that the thread is not in slave mode. -/
def slaveWait : Action Unit := threadWait fun _ => throw .assertion

/-- The loop of `fncall_restop`. Each round uses up a report. -/
def restopLoop : Nat → Action Unit
  | 0 => throw .blocked
  | rounds + 1 => do
    slaveWait
    let w ← get
    if w.thread.dead then pure ()
    else
      match w.thread.signo.map Signal.signo with
      | some .sigsegv | some .sigtrap | some .sigbus => pure ()
      | _ => do
        -- any other signal is delivered
        setThread (threadContinue none)
        restopLoop rounds

/-- `fncall_restop`. -/
def fncallRestop (patched : Bool) : Action Unit := do
  let w ← get
  assert (!w.thread.slavemode)
  setThread fun t => { t with slavemode := true }
  let regs ← threadGetRegs
  assert patched
  setThread (threadContinue none)
  restopLoop w.reports.length
  let w ← get
  if w.thread.dead then pure ()
  else do
    setThread fun t => { t with signo := none }
    threadSetRegs regs
    setThread fun t => { t with slavemode := false }

/-- The loop of `fncall_call`: a `SIGSTOP` is dropped, any other signal ends the call. -/
def callLoop : Nat → Action Unit
  | 0 => throw .blocked
  | rounds + 1 => do
    slaveWait
    let w ← get
    if w.thread.dead then pure ()
    else do
      setThread fun t => { t with signo := none }
      match w.thread.signo.map Signal.signo with
      | none => throw .bug
      | some .sigstop => do
        setThread (threadContinue none)
        callLoop rounds
      | some _ => pure ()

/-- `fncall_call` once the thread has been restopped. -/
def fncallStart (begins : Bool) : Action Unit := do
  let w ← get
  assert (!w.thread.slavemode)
  setThread fun t => { t with slavemode := true }
  let regs ← threadGetRegs
  unlessSo (!begins) do
    setThread (threadContinue none)
    callLoop w.reports.length
    let w ← get
    unlessSo w.thread.dead (threadSetRegs regs)
  setThread fun t => { t with slavemode := false }

/-- `fncall_call`. -/
def fncallCall (call : Call) : Action Unit := do
  let w ← get
  if w.thread.execed then do
    fncallRestop call.patched
    let w ← get
    if w.thread.dead then setThread fun t => { t with slavemode := false }
    else do
      setThread fun t => { t with execed := false }
      fncallStart call.begins
  else fncallStart call.begins

/-! ## Requests of the server -/

/-- `thread_stop`. -/
def threadStop : Action Unit := do
  let w ← get
  if w.thread.dead || !w.thread.running then pure ()
  else do
    setThread fun t => sigstop .server { t with stopme := true }
    threadWait fncallCall
    let w ← get
    assert (!w.thread.running)

/-- The loop of `thread_kill`. -/
def killLoop : Nat → Action Unit
  | 0 => throw .blocked
  | rounds + 1 => do
    let w ← get
    if w.thread.dead then pure ()
    else do
      threadWait fncallCall
      killLoop rounds

/-- `thread_kill`. Each round but the last uses up a report. -/
def threadKill : Action Unit := do
  setThread fun t => { t with stopme := false }
  let w ← get
  killLoop (w.reports.length + 1)

/-- What happens to a thread between two iterations of the main loop, with the
reports that come in meanwhile. -/
inductive Request where
  /-- `thread_stop`. -/
  | stop (reports : List Report)
  /-- `thread_continue`, as `process_continue` calls it. -/
  | resume
  /-- `wait_main` or `process_stabilize` collects a report. -/
  | event (reports : List Report)
  /-- The server makes a call in the stopped thread. -/
  | inject (call : Call) (reports : List Report)
  /-- `thread_kill`. -/
  | kill (reports : List Report)
  /-- `process_stabilize` starts or ends. -/
  | stabilize (on : Bool)
  /-- Somebody else sends the thread a `SIGSTOP`. -/
  | sigstop

def perform : Request → Action Unit
  | .stop reports => do
    modify fun w => { w with reports := reports }
    threadStop
  | .resume => setThread (threadContinue none)
  | .event reports => do
    modify fun w => { w with reports := reports }
    threadWait fncallCall
  | .inject call reports => do
    modify fun w => { w with reports := reports }
    fncallCall call
  | .kill reports => do
    modify fun w => { w with reports := reports }
    threadKill
  | .stabilize on => modify fun w => { w with stabilizing := on }
  | .sigstop => setThread (Tracee.sigstop .elsewhere)

/-- The world after a run, also after one that the server does not survive. -/
def runRequests (requests : List Request) (w : World) : World := after (requests.forM perform) w

end Adbi.Tracee
