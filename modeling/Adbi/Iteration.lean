import Adbi.Lib.Runs
import Adbi.Lib.TreeWalk
import Adbi.Linking

/-! The loops of the server over its processes, threads and injections, after
`process/list.c`, `process/thread.c`, `procutil/wait.c` and
`injection/injection.c`, with all that may happen while the body of a loop
waits for the target. The loops that are under way are kept with the innermost
one first, each with the node that it is at and the successor that it saved. -/
namespace Adbi.Iteration
open Adbi.Lib
open Adbi.Linking (Pointer injectableIterDependencies)

abbrev Pid := Nat

/-- `process_t`. -/
structure Process where
  pid : Pid
  threads : OrderedTree Pid Node
  injections : OrderedTree Pointer Node

/-- `thread_t`. -/
structure Thread where
  pid : Pid
  process : Node
  deriving DecidableEq

/-- `injection_t`; `refcnt_t` has 32 bits. -/
structure Injection where
  process : Node
  injectable : Pointer
  references : BitVec 32
  deriving DecidableEq

/-- The trees of `list.c` and the objects in them. An object goes by the name of
its node; it stays where it is when the node is removed, because the loops hold
references to it. -/
structure Server where
  processes : OrderedTree Pid Node
  threads : OrderedTree Pid Node
  process : Node → Process
  thread : Node → Thread
  injection : Node → Injection
  fresh : Node

/-- The loaded injectables, and the one named `#adbi`. -/
structure Env extends Linking.Loaded where
  adbi : Pointer

inductive Fault where
  /-- A loop steps to a node that is not in its tree. -/
  | dangling
  /-- The server aborts. -/
  | assertion
  /-- A null pointer is dereferenced. -/
  | missing
  /-- The search for dependencies fails. -/
  | search (fault : Linking.Fault)
  /-- The server does no such thing here. -/
  | idle
  deriving DecidableEq

section
variable {κ : Type} [LinearOrder κ]

/-- `tree_insert`. -/
def treeInsert (t : OrderedTree κ Node) (k : κ) (n : Node) : Except Fault (OrderedTree κ Node) :=
  match t.tryInsert k n with
  | some u => .ok u
  | none => .error .assertion

/-- `tree_remove`. -/
def treeRemove (t : OrderedTree κ Node) (k : κ) : Except Fault (OrderedTree κ Node) :=
  match t.get k with
  | some _ => .ok (t.remove k)
  | none => .error .assertion

end

namespace Server

def setThreads (s : Server) (p : Node) (threads : OrderedTree Pid Node) : Server :=
  { s with process := Function.update s.process p { s.process p with threads := threads } }

def setInjections (s : Server) (p : Node) (injections : OrderedTree Pointer Node) : Server :=
  { s with process := Function.update s.process p { s.process p with injections := injections } }

def setReferences (s : Server) (i : Node) (references : BitVec 32) : Server :=
  { s with injection := Function.update s.injection i { s.injection i with references := references } }

/-- The process is in the tree, where a command finds it. -/
def Registered (s : Server) (p : Node) : Prop := s.processes.get (s.process p).pid = some p

/-- The thread is neither dead nor detached. -/
def Alive (s : Server) (t : Node) : Prop :=
  (s.process (s.thread t).process).threads.get (s.thread t).pid = some t

instance : Decidable (Registered s p) := inferInstanceAs (Decidable (_ = _))

instance : Decidable (Alive s t) := inferInstanceAs (Decidable (_ = _))

end Server

/-- `process_create`, with `process_add`. -/
def processCreate (s : Server) (pid : Pid) : Except Fault Server := do
  let processes ← treeInsert s.processes pid s.fresh
  return {
    s with
    processes := processes
    process := Function.update s.process s.fresh ⟨pid, OrderedTree.empty, OrderedTree.empty⟩
    fresh := s.fresh + 1 }

/-- `process_del`. -/
def processDel (s : Server) (p : Node) : Except Fault Server := do
  let processes ← treeRemove s.processes (s.process p).pid
  return { s with processes := processes }

/-- `thread_create`, with `thread_add`. -/
def threadCreate (s : Server) (p : Node) (pid : Pid) : Except Fault Server := do
  let threads ← treeInsert s.threads pid s.fresh
  let own ← treeInsert (s.process p).threads pid s.fresh
  return {
    s.setThreads p own with
    threads := threads
    thread := Function.update s.thread s.fresh ⟨pid, p⟩
    fresh := s.fresh + 1 }

/-- `thread_del`. -/
def threadDel (s : Server) (t : Node) : Except Fault Server := do
  let threads ← treeRemove s.threads (s.thread t).pid
  let own ← treeRemove (s.process (s.thread t).process).threads (s.thread t).pid
  return { s.setThreads (s.thread t).process own with threads := threads }

/-- `thread_exit`. -/
def threadExit (s : Server) (t : Node) : Except Fault Server := threadDel s t

/-- `thread_clone_create_child`, with what procfs says about the child. A new
process gets the injections of its parent one by one, by `injectionCreate`. -/
def threadCloneCreateChild (s : Server) (child tgid ppid : Pid) : Except Fault Server :=
  match s.processes.get tgid with
  | some p => threadCreate s p child
  | none =>
    match s.processes.get ppid with
    | none => .error .missing
    | some _ => do
      let forked ← processCreate s child
      threadCreate forked s.fresh child

/-- `thread_handle_clone_parent`. -/
def threadHandleCloneParent (s : Server) (child tgid ppid : Pid) : Except Fault Server :=
  match s.threads.get child with
  | some _ => .ok s
  | none => threadCloneCreateChild s child tgid ppid

/-- `injection_create`. -/
def injectionCreate (s : Server) (p : Node) (x : Pointer) : Except Fault Server := do
  let injections ← treeInsert (s.process p).injections x s.fresh
  return {
    s.setInjections p injections with
    injection := Function.update s.injection s.fresh ⟨p, x, 0⟩
    fresh := s.fresh + 1 }

/-- `injection_free`. -/
def injectionFree (s : Server) (i : Node) : Except Fault Server := do
  let injections ← treeRemove (s.process (s.injection i).process).injections (s.injection i).injectable
  return s.setInjections (s.injection i).process injections

/-- `injection_reset`. -/
def injectionReset (s : Server) (p : Node) : Server := s.setInjections p OrderedTree.empty

/-- `uninject`. -/
def uninject (env : Env) (s : Server) (i : Node) : Except Fault Server :=
  if (s.injection i).injectable = env.adbi ∨ (s.injection i).references ≠ 0 then .error .assertion
  else injectionFree s i

/-- `uninject_adbi`, when the inferior does as it is told. -/
def uninjectAdbi (env : Env) (s : Server) (t : Node) : Except Fault Server :=
  match (s.process (s.thread t).process).injections.get env.adbi with
  | none => .error .assertion
  | some i => if (s.injection i).references = 1 then injectionFree s i else .error .assertion

/-! ## The loops -/

/-- The callbacks of `thread_iter`. A look is one that neither removes threads
nor waits for them, as those of `process_continue`, `process_is_stopped` and
`process_find_unstable`. -/
inductive Callback where
  | look | stop | kill | detach
  deriving DecidableEq

/-- What is under way. `injectionDetachSingle` is no loop over a tree that
changes: it has the calls of `dep_uninject` that are left to be made. -/
inductive Loop where
  | processIter (walk : Walk Pid)
  | threadIter (process : Node) (callback : Callback) (walk : Walk Pid)
  | threadExec (process thread : Node) (walk : Walk Pid)
  | injectionDetach (process thread : Node) (walk : Walk Pointer)
  | injectionDetachSingle (process thread : Node) (injectable : Pointer) (injection : Node)
      (visits : List Pointer)

/-- The process that the body of a loop is about. -/
def Loop.process : Loop → Node
  | .processIter walk => walk.node
  | .threadIter process _ _ => process
  | .threadExec process _ _ => process
  | .injectionDetach process _ _ => process
  | .injectionDetachSingle process _ _ _ _ => process

structure Config where
  server : Server
  loops : List Loop

namespace Config

def push (c : Config) (loop : Loop) : Config := { c with loops := loop :: c.loops }

/-- Work on a process begins on command, or as the callback of `process_iter`. -/
def Works (c : Config) (p : Node) : Prop :=
  match c.loops with
  | [] => c.server.Registered p
  | .processIter walk :: _ => p = walk.node
  | _ => False

/-- Looks at all the threads are taken everywhere but in `thread_exec`. -/
def Looks (c : Config) (p : Node) : Prop :=
  match c.loops with
  | .threadIter process _ _ :: _ => p = process
  | .injectionDetach process _ _ :: _ => p = process
  | .injectionDetachSingle process _ _ _ _ :: _ => p = process
  | _ => False

/-- Which threads are waited for: all of them in the main loop, those of the
process where it is stabilized, otherwise the one that the body is about. -/
def WaitsFor (c : Config) (t : Node) : Prop :=
  match c.loops with
  | [] => True
  | .processIter walk :: _ => (c.server.thread t).process = walk.node
  | .threadIter _ callback walk :: _ => (callback = .stop ∨ callback = .kill) ∧ t = walk.node
  | .threadExec _ _ _ :: _ => False
  | .injectionDetach _ thread _ :: _ => t = thread
  | .injectionDetachSingle _ thread _ _ _ :: _ => t = thread

/-- An injected function runs in the thread that is waited for. -/
def Slave (c : Config) : Prop :=
  match c.loops with
  | .injectionDetach _ _ _ :: _ => True
  | .injectionDetachSingle _ _ _ _ _ :: _ => True
  | _ => False

/-- `process_del` is called for a process that lost its last thread, by the work
on that process, and by `process_attach` when it gives up. -/
def Drops (c : Config) (p : Node) : Prop :=
  match c.loops with
  | [] => True
  | loop :: _ => p = loop.process ∧ (c.server.process p).threads.entries = []

instance : (c : Config) → Decidable (c.Works p)
  | ⟨s, []⟩ => inferInstanceAs (Decidable (s.Registered p))
  | ⟨_, .processIter walk :: _⟩ => inferInstanceAs (Decidable (p = walk.node))
  | ⟨_, .threadIter _ _ _ :: _⟩ | ⟨_, .threadExec _ _ _ :: _⟩ | ⟨_, .injectionDetach _ _ _ :: _⟩
  | ⟨_, .injectionDetachSingle _ _ _ _ _ :: _⟩ => inferInstanceAs (Decidable False)

instance : (c : Config) → Decidable (c.Looks p)
  | ⟨_, .threadIter process _ _ :: _⟩ | ⟨_, .injectionDetach process _ _ :: _⟩
  | ⟨_, .injectionDetachSingle process _ _ _ _ :: _⟩ => inferInstanceAs (Decidable (p = process))
  | ⟨_, []⟩ | ⟨_, .processIter _ :: _⟩ | ⟨_, .threadExec _ _ _ :: _⟩ => inferInstanceAs (Decidable False)

instance : (c : Config) → Decidable (c.WaitsFor t)
  | ⟨_, []⟩ => inferInstanceAs (Decidable True)
  | ⟨s, .processIter walk :: _⟩ => inferInstanceAs (Decidable ((s.thread t).process = walk.node))
  | ⟨_, .threadIter _ callback walk :: _⟩ =>
    inferInstanceAs (Decidable ((callback = .stop ∨ callback = .kill) ∧ t = walk.node))
  | ⟨_, .threadExec _ _ _ :: _⟩ => inferInstanceAs (Decidable False)
  | ⟨_, .injectionDetach _ thread _ :: _⟩ | ⟨_, .injectionDetachSingle _ thread _ _ _ :: _⟩ =>
    inferInstanceAs (Decidable (t = thread))

instance : (c : Config) → Decidable c.Slave
  | ⟨_, .injectionDetach _ _ _ :: _⟩ | ⟨_, .injectionDetachSingle _ _ _ _ _ :: _⟩ =>
  inferInstanceAs (Decidable True)
  | ⟨_, []⟩ | ⟨_, .processIter _ :: _⟩ | ⟨_, .threadIter _ _ _ :: _⟩ | ⟨_, .threadExec _ _ _ :: _⟩ =>
    inferInstanceAs (Decidable False)

instance : (c : Config) → Decidable (c.Drops p)
  | ⟨_, []⟩ => inferInstanceAs (Decidable True)
  | ⟨s, loop :: _⟩ => inferInstanceAs (Decidable (p = loop.process ∧ (s.process p).threads.entries = []))

end Config

/-! ## The steps -/

section
variable (env : Env)

/-- `injection_detach_single`, up to the first call of `dep_uninject`. -/
def injectionDetachSingle (c : Config) (t i : Node) : Except Fault Config :=
  let injection := c.server.injection i
  if injection.process ≠ (c.server.thread t).process ∨ injection.injectable = env.adbi ∨
    injection.references ≠ 0 then
    .error .assertion
  else
    match injectableIterDependencies env.toLoaded injection.injectable with
    | .error fault => .error (.search fault)
    | .ok calls =>
      .ok (c.push (.injectionDetachSingle injection.process t injection.injectable i calls.dependencies))

/-- `dep_uninject`. -/
def depUninject (c : Config) (p t : Node) (x : Pointer) : Except Fault Config :=
  match (c.server.process p).injections.get x with
  | none => .error .missing
  | some i =>
    let references := (c.server.injection i).references - 1
    let c := { c with server := c.server.setReferences i references }
    if references = 0 ∧ x ≠ env.adbi then injectionDetachSingle env c t i else .ok c

/-- `injection_detach` where its loop gets to: libraries and `#adbi` stay. -/
def enterInjection (c : Config) (p t : Node) : Option (Walk Pointer) → Except Fault Config
  | none => .ok c
  | some walk =>
    let c := c.push (.injectionDetach p t walk)
    let injectable := (c.server.injection walk.node).injectable
    if injectable = env.adbi ∨ (env.injfile injectable).library then .ok c
      else injectionDetachSingle env c t walk.node

/-- `thread_exec` where its loop gets to. After the loop the injections are gone. -/
def enterExec (c : Config) (p t : Node) : Option (Walk Pid) → Config
  | none => { c with server := injectionReset c.server p }
  | some walk => c.push (.threadExec p t walk)

/-- The body of the loop of `thread_exec`. -/
def exitOther (s : Server) (t other : Node) : Except Fault Server :=
  if other = t then .ok s else threadExit s other

/-- The innermost loop goes on. -/
def goOn (c : Config) : Except Fault Config :=
  match c.loops with
  | [] => .error .idle
  | .processIter walk :: below => do
    let walk ← walk.advance c.server.processes .dangling
    return { c with loops := (walk.map Loop.processIter).toList ++ below }
  | .threadIter p callback walk :: below => do
    let walk ← walk.advance (c.server.process p).threads .dangling
    return { c with loops := (walk.map (Loop.threadIter p callback)).toList ++ below }
  | .threadExec p t walk :: below => do
    let server ← exitOther c.server t walk.node
    let walk ← walk.advance (server.process p).threads .dangling
    return enterExec ⟨server, below⟩ p t walk
  | .injectionDetach p t walk :: below => do
    let walk ← walk.advance (c.server.process p).injections .dangling
    enterInjection env { c with loops := below } p t walk
  | .injectionDetachSingle p t x i (visit :: visits) :: below =>
    depUninject env { c with loops := .injectionDetachSingle p t x i visits :: below } p t visit
  | .injectionDetachSingle _ _ _ i [] :: below => do
    let server ← uninject env c.server i
    return { server := server, loops := below }

/-- What `waitpid` reports about a thread: its end, an exec, or a new thread or
process with what procfs says about it. Other stops change none of the trees. -/
inductive Report where
  | exited
  | execed
  | cloned (child tgid ppid : Pid)

/-- `thread_handle_status`. After an exec in a thread that runs an injected
function `inject_adbi` finds the thread in slave mode and aborts. -/
def threadHandleStatus (c : Config) (t : Node) : Report → Except Fault Config
  | .exited => do
    let server ← threadExit c.server t
    return { c with server := server }
  | .execed =>
    let p := (c.server.thread t).process
    if c.Slave then .error .assertion
      else .ok (enterExec c p t (Walk.start (c.server.process p).threads))
  | .cloned child tgid ppid => do
    let server ← threadHandleCloneParent c.server child tgid ppid
    return { c with server := server }

inductive Action where
  | processIter
  | threadIter (process : Node) (callback : Callback)
  | injectionDetach (thread : Node)
  | injectionDetachSingle (thread injection : Node)
  | goOn
  /-- The thread that is waited for changes its state. -/
  | report (thread : Node) (report : Report)
  /-- The callback of `process_detach`. -/
  | threadDetach
  | processDel (process : Node)
  /-- `process_spawn` or `process_attach`, with the threads that it finds. -/
  | processCreate (pid : Pid)
  | threadCreate (process : Node) (pid : Pid)
  /-- A thread that the server does not know is there. -/
  | cloneChild (child tgid ppid : Pid)
  | injectionCreate (process : Node) (injectable : Pointer)
  /-- A segment or another injection takes a reference. -/
  | retain (injection : Node)
  /-- A segment gives its reference back. -/
  | release (injection : Node)
  | uninjectAdbi (thread : Node)

/-- An action where it is possible. -/
def onlyWhen (possible : Prop) [Decidable possible] (result : Except Fault Config) :
    Except Fault Config :=
  if possible then result else .error .idle

/-- Keep what was done to the server. -/
def Config.withServer (c : Config) (server : Except Fault Server) : Except Fault Config := do
  return { c with server := ← server }

def step (c : Config) : Action → Except Fault Config
  | .processIter =>
    onlyWhen (c.loops = []) (.ok
      { c with loops := ((Walk.start c.server.processes).map Loop.processIter).toList })
  | .threadIter p callback =>
    onlyWhen (c.Works p ∨ callback = .look ∧ c.Looks p)
      (.ok { c with
        loops := ((Walk.start (c.server.process p).threads).map
          (Loop.threadIter p callback)).toList ++ c.loops })
  | .injectionDetach t =>
    let p := (c.server.thread t).process
    onlyWhen (c.Works p) (enterInjection env c p t (Walk.start (c.server.process p).injections))
  | .injectionDetachSingle t i =>
    let injection := c.server.injection i
    onlyWhen (c.Works injection.process ∧
      (c.server.process injection.process).injections.get injection.injectable = some i)
      (injectionDetachSingle env c t i)
  | .goOn => goOn env c
  | .report t report => onlyWhen (c.server.Alive t ∧ c.WaitsFor t) (threadHandleStatus c t report)
  | .threadDetach =>
    match c.loops with
    | .threadIter _ .detach walk :: _ => c.withServer (threadDel c.server walk.node)
    | _ => .error .idle
  | .processDel p => onlyWhen (c.Drops p) (c.withServer (processDel c.server p))
  | .processCreate pid => onlyWhen (c.loops = []) (c.withServer (processCreate c.server pid))
  | .threadCreate p pid =>
    onlyWhen (c.loops = [] ∧ c.server.Registered p) (c.withServer (threadCreate c.server p pid))
  | .cloneChild child tgid ppid =>
    onlyWhen (c.loops = []) (c.withServer (threadCloneCreateChild c.server child tgid ppid))
  | .injectionCreate p x =>
    onlyWhen (c.server.Registered p) (c.withServer (injectionCreate c.server p x))
  | .retain i =>
    .ok { c with server := c.server.setReferences i ((c.server.injection i).references + 1) }
  | .release i =>
    .ok { c with server := c.server.setReferences i ((c.server.injection i).references - 1) }
  | .uninjectAdbi t =>
    onlyWhen (c.Works (c.server.thread t).process) (c.withServer (uninjectAdbi env c.server t))

end

/-- Before the first command. -/
def initial : Config where
  server :=
    { processes := OrderedTree.empty
      threads := OrderedTree.empty
      process := fun _ => ⟨0, OrderedTree.empty, OrderedTree.empty⟩
      thread := fun _ => ⟨0, 0⟩
      injection := fun _ => ⟨0, 0, 0⟩
      fresh := 0 }
  loops := []

end Adbi.Iteration
