import Adbi.Lib.Runs
import Adbi.Registry

/-! Stabilizing a stopped process, after `process_stabilize` of
`process/process.c`: the threads that stopped in a trampoline or in an injected
library run until they leave it. Natural code is not executable meanwhile. What
the threads and the kernel do is chosen by the environment. -/
namespace Adbi.Stabilize
open Adbi.Lib Adbi.Tracee Adbi.Registry

/-- `process->threads`. -/
def threadsOf (s : Server) (process : Pid) : List Pid :=
  ((s.processes process).map Process.threads).getD []

/-- A thread of the process. One that left it is dead to the caller. -/
def threadIn (s : Server) (process pid : Pid) : Option Thread :=
  ((s.threads pid).filter fun e => e.process = process).map Entry.thread

def setThreadIn (s : Server) (process pid : Pid) (f : Thread → Thread) : Server :=
  { s with
    threads := fun q =>
      if q = pid then (s.threads q).map fun e => if e.process = process then { e with thread := f e.thread } else e
      else s.threads q }

def runs (s : Server) (process pid : Pid) : Bool :=
  match threadIn s process pid with
  | some t => t.running
  | none => false

/-- `process_is_stopped`. -/
def processIsStopped (s : Server) (process : Pid) : Bool :=
  (threadsOf s process).all fun pid => !runs s process pid

/-- `thread_any_stopped`: the threads are ordered by their pids. -/
def threadAnyStopped (s : Server) (process : Pid) : Option Pid :=
  ((threadsOf s process).filter fun pid =>
    match threadIn s process pid with
    | some t => !t.running && !t.dead
    | none => false).min?

/-- `thread_is_stable`. -/
def threadIsStable (layout : Layout) (t : Thread) : Except Fault Bool :=
  if t.running then .error .assertion else .ok (t.dead || !layout.artificial t.regs.pc)

/-- The callback of `process_find_unstable`, for each of the threads. -/
def unstableAmong (s : Server) (process : Pid) (layout : Layout) : List Pid → Except Fault (List Pid)
  | [] => .ok []
  | pid :: rest =>
    match threadIn s process pid with
    | none => unstableAmong s process layout rest
    | some t => do
      let stable ← threadIsStable layout t
      let found ← unstableAmong s process layout rest
      .ok (if stable then found else pid :: found)

/-- `process_find_unstable`. -/
def processFindUnstable (s : Server) (process : Pid) : Except Fault (List Pid) :=
  match s.processes process with
  | none => .ok []
  | some p => unstableAmong s process p.layout p.threads

def setStabilizing (s : Server) (process : Pid) (on : Bool) : Server :=
  { s with
    processes := fun q =>
      if q = process then (s.processes q).map fun p => { p with stabilizing := on } else s.processes q }

/-- A call of `mprotect` in the process, and whether it returned success. -/
structure Attempt where
  call : Call
  reports : List Report
  success : Bool

/-- A report that `waitpid` has for a thread, and those that come in while it is handled. -/
structure Wait where
  report : Report
  nested : List Report

/-- What one round of waits finds, without blocking. -/
abbrev Round := Pid → Option Wait

/-- The environment of one `process_stabilize`. -/
structure Conduct where
  /-- The tree of unstable threads is ordered by their addresses in the server. -/
  arrange : List Pid → List Pid
  arranged : ∀ pids pid, pid ∈ arrange pids ↔ pid ∈ pids
  /-- The number of executable segments that are mapped from files. -/
  segments : Nat
  protecting : List Attempt
  rounds : List Round
  restoring : List Attempt

section
variable (g : Injection.ImportGraph) (births : Pid → Birth) (process : Pid)

/-- `segment_set_exacutable_all`: one call for each segment, in any thread that
is stopped, and once more if the thread died of it. -/
def segmentSetExecutableAll : List Attempt → Nat → Server → Except Fault Server
  | _, 0, s => .ok s
  | [], _ + 1, s => if (threadAnyStopped s process).isNone then .ok s else .error .blocked
  | attempt :: rest, segments + 1, s =>
    match threadAnyStopped s process with
    | none => .ok s
    | some pid => do
      let s ← inThread g births s pid attempt.reports (fncallCall attempt.call)
      if (threadIn s process pid).isNone then segmentSetExecutableAll rest (segments + 1) s
      else if attempt.success then segmentSetExecutableAll rest segments s
      else .ok s

/-- The segmentation fault that stops a stabilized thread is not passed on. -/
def dropSigsegv (t : Thread) : Thread :=
  if t.signo.map Signal.signo = some .sigsegv then { t with signo := none } else t

/-- `thread_wait` with `WNOHANG`. -/
def threadTryWait (s : Server) (pid : Pid) : Option Wait → Except Fault Server
  | none => .ok s
  | some wait => handleStatus g births s pid wait.report wait.nested

/-- A thread of the loop is waited for only while it is running. -/
def tryWait (round : Round) (s : Server) (pid : Pid) : Except Fault Server :=
  if runs s process pid then do
    let s ← threadTryWait g births s pid (round pid)
    .ok (setThreadIn s process pid dropSigsegv)
  else .ok s

/-- The body of the inner loop, with the count of the threads that still run. -/
def poll (round : Round) (state : Server × Nat) (pid : Pid) : Except Fault (Server × Nat) := do
  let s ← tryWait g births process round state.1 pid
  .ok (s, if runs s process pid then state.2 + 1 else state.2)

/-- The wait loop, as long as there are rounds. -/
def waitLoop (unstable : List Pid) : List Round → Server → Except Fault Server
  | [], _ => .error .blocked
  | round :: rounds, s => do
    let (s, stillRunning) ← runAll (poll g births process round) (s, 0) unstable
    if stillRunning > 0 then waitLoop unstable rounds s else .ok s

/-- Let the unstable threads run. -/
def continueAll (unstable : List Pid) (s : Server) : Server :=
  unstable.foldl (fun s pid => setThreadIn s process pid (threadContinue none)) s

/-- `process_stabilize`, from where the unstable threads are known to where it leaves its loop. -/
def stabilizeThreads (conduct : Conduct) (unstable : List Pid) (s : Server) : Except Fault Server := do
  let s ← segmentSetExecutableAll g births process conduct.protecting conduct.segments s
  let s := continueAll process (conduct.arrange unstable) (setStabilizing s process true)
  waitLoop g births process (conduct.arrange unstable) conduct.rounds s

/-- `process_stabilize`, once its loop is left and up to the closing check. -/
def restoreSegments (conduct : Conduct) (s : Server) : Except Fault Server :=
  segmentSetExecutableAll g births process conduct.restoring conduct.segments
    (setStabilizing s process false)

/-- `process_stabilize`. -/
def processStabilize (conduct : Conduct) (s : Server) : Except Fault Server := do
  if !processIsStopped s process || ((s.processes process).map Process.stabilizing).getD false then
    .error .assertion
  else do
    let unstable ← processFindUnstable s process
    if unstable.isEmpty then .ok s
    else do
      let s ← stabilizeThreads g births process conduct unstable s
      let s ← restoreSegments g births process conduct s
      let unstable ← processFindUnstable s process
      if unstable.isEmpty then .ok s else .error .assertion

end

end Adbi.Stabilize
