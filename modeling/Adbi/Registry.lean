import Adbi.Injection
import Adbi.Tracee

/-! The registry of processes and threads, after `process/list.c`,
`process/process.c` and the clone handling of `procutil/wait.c`. What the
server does in one thread is `Adbi.Tracee`; here its effects on the process
and on the other threads are carried out. -/
namespace Adbi.Registry
open Adbi.Tracee

/-- `process_t`: `injected` has the injections with their reference counts,
`threads` the pids of its threads. -/
structure Process where
  spawned : Bool
  stabilizing : Bool
  layout : Layout
  injected : Injection.Process
  threads : List Pid

/-- A thread with the pid of its process. -/
structure Entry where
  process : Pid
  thread : Thread

structure Server where
  processes : Pid → Option Process
  threads : Pid → Option Entry

/-- What procfs says about a new thread. -/
structure Birth where
  child : Pid
  tgid : Pid
  ppid : Pid

section
variable (g : Injection.ImportGraph)

/-- `injection_fork` and the references taken by `tracepoints_fork`: `#adbi` has
its own reference, a library those of the parent, a handler one for each
segment. -/
def injectionFork (p : Injection.Process) : Injection.Process where
  injections x := (p.injections x).map fun references =>
    if x = g.adbi then 1 else if g.library x then references else p.segments.count x
  segments := p.segments

/-- `process_forked`: a fresh process with what the parent's memory holds. -/
def processForked (parent : Process) : Process where
  spawned := parent.spawned
  stabilizing := false
  layout := parent.layout
  injected := injectionFork g parent.injected
  threads := []

/-- `thread_create`, for a thread stopped at `regs`. -/
def newThread (regs : Regs) (pending : Option Sender) : Thread where
  running := false
  setoptions := true
  execed := false
  stopme := false
  slavemode := false
  dead := false
  notified := true
  signo := none
  regs := regs
  pending := pending
  delivered := []

/-- `thread_add`: into the registry and into its process. -/
def threadAdd (s : Server) (process pid : Pid) (thread : Thread) : Server where
  processes := fun q =>
    if q = process then (s.processes q).map fun p => { p with threads := p.threads ++ [pid] }
      else s.processes q
  threads := Function.update s.threads pid (some ⟨process, thread⟩)

/-- The process of a new thread: one the server knows, or a fork of the
process that made it. Without either the server dereferences a null pointer. -/
def childProcess (s : Server) (birth : Birth) : Except Fault (Server × Pid) :=
  match s.processes birth.tgid with
  | some _ => .ok (s, birth.tgid)
  | none =>
    match s.processes birth.ppid with
    | none => .error .bug
    | some parent =>
      .ok ({ s with processes := Function.update s.processes birth.child (some (processForked g parent)) }, birth.child)

/-- `thread_clone_create_child`. -/
def threadCloneCreateChild (s : Server) (birth : Birth) (thread : Thread) : Except Fault Server := do
  let (s, process) ← childProcess g s birth
  .ok (threadAdd s process birth.child { thread with notified := false })

/-- `thread_del`, and `process_del` with the last thread. -/
def threadDel (s : Server) (process pid : Pid) : Server where
  processes := fun q =>
    if q = process then
      (s.processes q).bind fun p =>
        if p.threads.filter (· ≠ pid) = [] then none
          else some { p with threads := p.threads.filter (· ≠ pid) }
    else s.processes q
  threads := Function.update s.threads pid none

/-- The thread as `Adbi.Tracee` sees it. -/
def worldOf (pid : Pid) (entry : Entry) (process : Process) (reports : List Report) : World where
  thread := entry.thread
  leader := pid = entry.process
  stabilizing := process.stabilizing
  layout := process.layout
  children := []
  alone := false
  reports := reports

/-- Keep what an action did to its thread. A dead thread leaves the registry. -/
def keepThread (s : Server) (pid : Pid) (entry : Entry) (thread : Thread) : Server :=
  if thread.dead then threadDel s entry.process pid
  else { s with threads := Function.update s.threads pid (some { entry with thread := thread }) }

/-- `thread_handle_clone_parent`, up to the parent's own continuation: a child
that is not known yet is taken to be running. Its first stop is pending. -/
def registerChild (births : Pid → Birth) (s : Server) (child : Pid) : Except Fault Server :=
  match s.threads child with
  | some _ => .ok s
  | none =>
    threadCloneCreateChild g s (births child) { newThread ⟨0, 0⟩ (some .elsewhere) with running := true }

/-- Keep what an action did to the process: its layout, the end of the other
threads after an exec, and the children it saw. -/
def keepProcess (births : Pid → Birth) (s : Server) (pid process : Pid) (w : World) :
    Except Fault Server :=
  let threads : Server → List Pid := fun s => ((s.processes process).map Process.threads).getD []
  let s := { s with
    processes := fun q => if q = process then (s.processes q).map fun p =>
    { p with layout := w.layout } else s.processes q }
  let s := if w.alone then ((threads s).filter (· ≠ pid)).foldl (fun s other =>
    threadDel s process other) s else s
  w.children.reverse.foldlM (registerChild g births) s

/-- Run an action in a registered thread. -/
def inThread (births : Pid → Birth) (s : Server) (pid : Pid) (reports : List Report)
    (action : Action Unit) :
    Except Fault Server :=
  match s.threads pid with
  | none => .ok s
  | some entry =>
    match s.processes entry.process with
    | none => .error .bug
    | some process =>
      match action (worldOf pid entry process reports) with
      | .error fault _ => .error fault
      | .ok _ w => keepProcess g births (keepThread s pid entry w.thread) pid entry.process w

/-- `thread_handle_status`. A child is registered before its parent goes on. -/
def handleStatus (births : Pid → Birth) (s : Server) (pid : Pid) (report : Report)
    (reports : List Report) :
    Except Fault Server := do
  let s ← match report with
    | .clone child => registerChild g births s child
    | _ => .ok s
  inThread g births s pid reports (threadHandleStatus fncallCall report)

/-- `thread_handle_status_unknown` for the first `SIGSTOP` of a thread the server
does not know: `thread_handle_clone_child`. -/
def handleStatusUnknown (births : Pid → Birth) (s : Server) (child : Pid) (regs : Regs)
    (reports : List Report) :
    Except Fault Server := do
  let s ← threadCloneCreateChild g s (births child) (newThread regs none)
  inThread g births s child reports (threadContinueOrStop fncallCall none)

end

/-- Nothing but `#adbi` is loaded. -/
def noImports : Injection.ImportGraph where
  deps _ := []
  rank _ := 0
  library _ := true
  adbi := 0
  descends _ _ member := by cases member
  deps_library _ _ member := by cases member
  adbi_library := rfl
  adbi_imports_nothing := rfl

end Adbi.Registry
