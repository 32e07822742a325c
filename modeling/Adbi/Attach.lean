import Adbi.Lib.Stateful
import Mathlib.Data.List.Sort
import Mathlib.Logic.Function.Basic

/-! `process_attach` and `process_detach` of `process/process.c` over the
registry of `process/list.c`, with every reference that is taken and put.
Requests to a thread that is stopped and alive are taken to succeed. A process
that is being attached has neither segments nor injections nor a linker
breakpoint, so that `segment_detach`, the loop of `injection_detach` and
`linker_detach` find nothing in it. -/
namespace Adbi.Attach
open Adbi.Lib

abbrev Pid := Nat

/-- `process_t`; `listed` says whether it is in the tree of processes, `threads` are
the keys of its own tree, and `injected` says whether `#adbi` is among its injections. -/
structure Process where
  listed : Bool
  references : Nat
  threads : List Pid
  stabilizing : Bool
  injected : Bool
  deriving DecidableEq

/-- `thread_t`. -/
structure Thread where
  listed : Bool
  references : Nat
  process : Pid
  running : Bool
  dead : Bool
  deriving DecidableEq

/-- The objects that are not freed, and the threads that are traced by the server. -/
structure Server where
  processes : Pid → Option Process
  threads : Pid → Option Thread
  traced : Pid → Bool

inductive Fault where
  /-- An assertion fails, or `adbi_bug` is called. -/
  | assertion
  /-- An object is used that was freed. -/
  | dangling
  /-- The system answers no more. -/
  | blocked
  deriving DecidableEq

abbrev Action := EStateM Fault Server

def assert (holds : Bool) : Action Unit := if holds then pure () else throw .assertion

def getProcess (pid : Pid) : Action Process := do
  match (← get).processes pid with
  | some process => pure process
  | none => throw .dangling

def getThread (tid : Pid) : Action Thread := do
  match (← get).threads tid with
  | some thread => pure thread
  | none => throw .dangling

def setProcess (pid : Pid) (process : Option Process) : Action Unit :=
  modify fun s => { s with processes := Function.update s.processes pid process }

def setThread (tid : Pid) (thread : Option Thread) : Action Unit :=
  modify fun s => { s with threads := Function.update s.threads tid thread }

def setTraced (tid : Pid) (traced : Bool) : Action Unit :=
  modify fun s => { s with traced := Function.update s.traced tid traced }

/-! ## Processes -/

/-- `process_free`. -/
def processFree (pid : Pid) : Action Unit := do
  let process ← getProcess pid
  assert (process.references == 0)
  assert process.threads.isEmpty
  setProcess pid none

/-- `process_put`: whether the process is still there. -/
def processPut (pid : Pid) : Action Bool := do
  let process ← getProcess pid
  assert (0 < process.references)
  setProcess pid (some { process with references := process.references - 1 })
  if process.references = 1 then do
    processFree pid
    pure false
  else pure true

/-- `process_dup`. -/
def processDup (pid : Pid) : Action Unit := do
  let process ← getProcess pid
  setProcess pid (some { process with references := process.references + 1 })

/-- `process_del`; `tree_remove` expects the key. -/
def processDel (pid : Pid) : Action Unit := do
  let process ← getProcess pid
  assert process.listed
  setProcess pid (some { process with listed := false })
  let _ ← processPut pid
  pure ()

/-- `process_create`, with `process_add`; `tree_insert` expects no such key. -/
def processCreate (pid : Pid) : Action Unit := do
  assert (((← get).processes pid).all fun process => !process.listed)
  setProcess pid (some ⟨true, 2, [], false, false⟩)

/-! ## Threads -/

/-- `thread_free`. -/
def threadFree (tid : Pid) : Action Unit := do
  let thread ← getThread tid
  assert (thread.references == 0)
  setThread tid none
  if (← getProcess thread.process).threads.isEmpty then processDel thread.process
  let _ ← processPut thread.process
  pure ()

/-- `thread_put`. -/
def threadPut (tid : Pid) : Action Unit := do
  let thread ← getThread tid
  assert (0 < thread.references)
  setThread tid (some { thread with references := thread.references - 1 })
  if thread.references = 1 then threadFree tid

/-- `thread_dup`. -/
def threadDup (tid : Pid) : Action Unit := do
  let thread ← getThread tid
  setThread tid (some { thread with references := thread.references + 1 })

/-- `thread_del`. -/
def threadDel (tid : Pid) : Action Unit := do
  let thread ← getThread tid
  assert thread.listed
  setThread tid (some { thread with listed := false })
  let process ← getProcess thread.process
  setProcess thread.process (some { process with threads := process.threads.erase tid })
  threadPut tid

/-- `thread_create`, with `thread_add`. -/
def threadCreate (pid tid : Pid) : Action Unit := do
  processDup pid
  assert (((← get).threads tid).all fun thread => !thread.listed)
  setThread tid (some ⟨true, 2, pid, false, false⟩)
  let process ← getProcess pid
  setProcess pid (some { process with threads := process.threads.orderedInsert (· ≤ ·) tid })

/-- `thread_iter`: the next thread is known before the callback is called. -/
def threadIter (pid : Pid) (fn : Pid → Action Unit) : Action Unit := do
  (← getProcess pid).threads.forM fun tid => do
    threadDup tid
    fn tid
    threadPut tid

/-- `thread_stop`, which waits until the thread is stopped. -/
def threadStop (tid : Pid) : Action Unit := do
  let thread ← getThread tid
  if thread.dead || !thread.running then pure ()
  else setThread tid (some { thread with running := false })

/-- `thread_detach`. -/
def threadDetach (tid : Pid) : Action Unit := do
  assert (!(← getThread tid).running)
  setTraced tid false
  threadDel tid

/-- `thread_any_stopped`, with the reference that it takes. -/
def threadAnyStopped (pid : Pid) : Action (Option Pid) := do
  let s ← get
  match (← getProcess pid).threads.find? fun tid =>
      (s.threads tid).any fun thread => !thread.running && !thread.dead with
  | some tid => do
    threadDup tid
    pure (some tid)
  | none => pure none

/-! ## Detaching -/

/-- `process_is_stopped`. -/
def processIsStopped (pid : Pid) : Action Bool := do
  let s ← get
  pure ((← getProcess pid).threads.all fun tid => (s.threads tid).any fun thread => !thread.running)

/-- `process_stop`: after one round every thread is stopped or dead. -/
def processStop (pid : Pid) : Action Unit := do
  if !(← processIsStopped pid) then threadIter pid threadStop

/-- `process_stabilize`. No address is artificial where nothing is injected, so
that every thread is stable. -/
def processStabilize (pid : Pid) : Action Unit := do
  assert (← processIsStopped pid)
  assert (!(← getProcess pid).stabilizing)
  threadIter pid fun tid => do assert (!(← getThread tid).running)

/-- `uninject_adbi`, with which `injection_detach` ends. -/
def uninjectAdbi (pid : Pid) : Action Unit := do
  assert (← processIsStopped pid)
  let process ← getProcess pid
  assert process.injected
  setProcess pid (some { process with injected := false })

/-- `process_detach`. -/
def processDetach (pid : Pid) : Action Unit := do
  processStop pid
  processStabilize pid
  match ← threadAnyStopped pid with
  | none => pure ()
  | some tid => do
    uninjectAdbi pid
    threadPut tid
    threadIter pid threadDetach

/-! ## Attaching -/

/-- How `thread_attach` ends for a thread that is not known. -/
inductive Attempt where
  /-- The thread is gone already. -/
  | refused
  | attached
  /-- It is a thread of another process by now, and is detached again. -/
  | foreign
  /-- The system refuses what "should never" be refused, so that `adbi_bug` is called:
  `PTRACE_ATTACH` fails with another error than `ESRCH`, as it does with `EPERM` for a
  zombie, or the stop and start, the wait or the detaching of a foreign thread fails. -/
  | forbidden
  deriving DecidableEq

/-- A listing of the threads of a process, with what an attempt to attach each of
them meets; `none` when `/proc` has no directory of them. -/
abbrev Listing := Option (List (Pid × Attempt))

/-- What the system answers. -/
structure System where
  tgid : Pid
  tracer : Pid
  listings : List Listing

/-- The callback of `process_attach`: whether it counts a change. -/
def callback (pid : Pid) (tid : Pid) (attempt : Attempt) : Action Bool := do
  match ((← get).threads tid).filter Thread.listed with
  | some thread => do
    threadDup tid
    assert (thread.process == pid)
    threadPut tid
    pure false
  | none =>
    match attempt with
    | .refused | .foreign => pure true
    | .attached => do
      setTraced tid true
      threadCreate pid tid
      threadPut tid
      pure true
    | .forbidden => throw .assertion

/-- One listing: whether there were changes. -/
def attachListed (pid : Pid) : List (Pid × Attempt) → Action Bool
  | [] => pure false
  | (tid, attempt) :: rest => do
    let here ← callback pid tid attempt
    let later ← attachListed pid rest
    pure (here || later)

/-- The loop of `process_attach`: whether it came to its end. -/
def attachLoop (pid : Pid) : List Listing → Action Bool
  | [] => throw .blocked
  | none :: _ => pure false
  | some listed :: rest => do
    if ← attachListed pid listed then attachLoop pid rest else pure true

/-- The label `fail`: whether a process is returned. -/
def attachFail (pid : Pid) : Action Bool := do
  processDetach pid
  processDel pid
  processPut pid

/-- How `process_attach` goes on or ends. -/
inductive Outcome where
  /-- It returns a process, or `NULL`. -/
  | returned (process : Bool)
  /-- It has a thread of the process, which it begins to instrument. -/
  | instruments (tid : Pid)
  deriving DecidableEq

/-- `process_attach`, up to the first request in the process. -/
def processAttach (system : System) (pid : Pid) : Action Outcome := do
  if system.tgid ≠ pid then pure (.returned false)
  else if system.tracer ≠ 0 then pure (.returned false)
  else do
    processCreate pid
    if ← attachLoop pid system.listings then do
      match ← threadAnyStopped pid with
      | some tid => pure (.instruments tid)
      | none => do
        assert (← getProcess pid).threads.isEmpty
        return .returned (← attachFail pid)
    else return .returned (← attachFail pid)

end Adbi.Attach
