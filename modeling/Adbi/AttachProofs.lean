import Adbi.Attach

/-! An attach that fails. Up to the failure the registry has the new process and
those of its threads that were attached. The failure detaches as if the
process were instrumented, which it can only do when there is no thread. -/
namespace Adbi.AttachProofs
open Adbi.Lib Adbi.Attach

variable {system : System} {s : Server} {pid tid : Pid} {attempt : Attempt} {known final : List Pid}
  {listed : List (Pid × Attempt)} {listings : List Listing}

/-- Nothing is known of a process that can be attached: whatever is in the
registry is traced by the server, and so has a tracer. -/
structure Untraced (system : System) (s : Server) (pid : Pid) : Prop where
  process : s.processes pid = none
  threads : ∀ listed, some listed ∈ system.listings → ∀ seen ∈ listed, s.threads seen.1 = none

/-- The attach is atomic: it fails without a trace, and no assertion fails. -/
structure Atomic (system : System) (s : Server) (pid : Pid) : Prop where
  unchanged : ∀ after, processAttach system pid s = .ok (.returned false) after → after = s
  asserts : ∀ fault after, processAttach system pid s = .error fault after → fault = .blocked

/-- The threads that are attached after a listing. -/
def attachedBy (known : List Pid) : List (Pid × Attempt) → List Pid
  | [] => known
  | (tid, attempt) :: rest =>
    if tid ∉ known ∧ attempt = .attached then attachedBy (known.orderedInsert (· ≤ ·) tid) rest
    else attachedBy known rest

/-- A listing has a thread that is not attached by then and that may not be attached. -/
inductive Forbids : List Pid → List (Pid × Attempt) → Prop where
  | here {known tid rest} (unknown : tid ∉ known) : Forbids known ((tid, .forbidden) :: rest)
  | later {known entry rest} (behind : Forbids (attachedBy known [entry]) rest) :
      Forbids known (entry :: rest)

/-- With the first threads attached, one of the listings that follow has such a thread. A
listing is followed by another as long as it has an unknown thread. -/
inductive Forbidden : List Pid → List Listing → Prop where
  | here {first seen rest} (forbids : Forbids first seen) : Forbidden first (some seen :: rest)
  | next {first seen rest} (unknown : ∃ entry ∈ seen, entry.1 ∉ first)
      (later : Forbidden (attachedBy first seen) rest) : Forbidden first (some seen :: rest)

/-- With the first threads attached, a listing fails when the last ones are. -/
inductive GivesUp : List Pid → List Listing → List Pid → Prop where
  | missing {first rest} : GivesUp first (none :: rest) first
  | next {first rest last seen} (unknown : ∃ entry ∈ seen, entry.1 ∉ first)
      (later : GivesUp (attachedBy first seen) rest last) : GivesUp first (some seen :: rest) last

/-! ## References -/

variable {process : Process} {thread : Thread}

theorem run_getProcess (here : s.processes pid = some process) : getProcess pid s = .ok process s := by
  simp only [getProcess, run_bind, run_get, here, run_pure]

theorem run_getThread (here : s.threads tid = some thread) : getThread tid s = .ok thread s := by
  simp only [getThread, run_bind, run_get, here, run_pure]

theorem run_assert {holds : Bool} (true : holds = true) : assert holds s = .ok () s := by
  rw [assert, if_pos true, run_pure]

theorem run_assert_false {holds : Bool} (false : holds = false) :
    assert holds s = .error .assertion s := by
  rw [assert, false]
  rfl

/-- The server with one thread object replaced. -/
def withThread (s : Server) (tid : Pid) (thread : Option Thread) : Server :=
  { s with threads := Function.update s.threads tid thread }

/-- The server with one process object replaced. -/
def withProcess (s : Server) (pid : Pid) (process : Option Process) : Server :=
  { s with processes := Function.update s.processes pid process }

@[simp] theorem withThread_threads (s : Server) (tid : Pid) (thread : Option Thread) :
    (withThread s tid thread).threads tid = thread := Function.update_self ..

@[simp] theorem withThread_processes (s : Server) (tid : Pid) (thread : Option Thread) :
    (withThread s tid thread).processes = s.processes := rfl

@[simp] theorem withProcess_processes (s : Server) (pid : Pid) (process : Option Process) :
    (withProcess s pid process).processes pid = process := Function.update_self ..

@[simp] theorem withProcess_threads (s : Server) (pid : Pid) (process : Option Process) :
    (withProcess s pid process).threads = s.threads := rfl

@[simp] theorem withThread_withThread (s : Server) (tid : Pid) (first second : Option Thread) :
    withThread (withThread s tid first) tid second = withThread s tid second := by
  simp [withThread]

@[simp] theorem withProcess_withProcess (s : Server) (pid : Pid) (first second : Option Process) :
    withProcess (withProcess s pid first) pid second = withProcess s pid second := by
  simp [withProcess]

theorem withThread_same (here : s.threads tid = thread') : withThread s tid thread' = s := by
  subst here
  simp [withThread]

theorem run_threadDup (here : s.threads tid = some thread) :
    threadDup tid s = .ok () (withThread s tid
      (some { thread with references := thread.references + 1 })) := by
  simp only [threadDup, run_bind, run_getThread here]
  rfl

/-- A reference that is not the last one is put. -/
theorem run_threadPut (here : s.threads tid = some thread) (shared : 1 < thread.references) :
    threadPut tid s = .ok () (withThread s tid
      (some { thread with references := thread.references - 1 })) := by
  have positive : decide (0 < thread.references) = true := decide_eq_true (by omega)
  have other : thread.references ≠ 1 := by omega
  simp only [threadPut, run_bind, run_getThread here, run_assert positive, setThread, run_modify,
    if_neg other]
  rfl

/-- A reference that is put again after something that leaves the server alone. -/
theorem run_held {body : Action Unit} (here : s.threads tid = some thread)
    (referenced : 0 < thread.references)
    (idle : ∀ t, t.threads tid = some { thread with references := thread.references + 1 } →
      body t = .ok () t) :
    (do threadDup tid; body; threadPut tid : Action Unit) s = .ok () s := by
  simp only [run_bind, run_threadDup here]
  rw [idle _ (withThread_threads ..)]
  simp only
  rw [run_threadPut (withThread_threads ..) (by simpa using referenced)]
  simp [withThread_same here]

theorem run_processPut (here : s.processes pid = some process) (shared : 1 < process.references) :
    processPut pid s = .ok true (withProcess s pid
      (some { process with references := process.references - 1 })) := by
  have positive : decide (0 < process.references) = true := decide_eq_true (by omega)
  have other : process.references ≠ 1 := by omega
  simp only [processPut, run_bind, run_getProcess here, run_assert positive, setProcess, run_modify,
    if_neg other]
  rfl

theorem run_processFree (here : s.processes pid = some process) (unused : process.references = 0)
    (empty : process.threads = []) : processFree pid s = .ok () (withProcess s pid none) := by
  have zero : (process.references == 0) = true := by simp [unused]
  have none : process.threads.isEmpty = true := by simp [empty]
  simp only [processFree, run_bind, run_getProcess here, run_assert zero, run_assert none]
  rfl

/-- The last reference is put: the process has no threads and is freed. -/
theorem run_processPut_last (here : s.processes pid = some process) (last : process.references = 1)
    (empty : process.threads = []) : processPut pid s = .ok false (withProcess s pid none) := by
  have positive : decide (0 < process.references) = true := decide_eq_true (by omega)
  have there : (withProcess s pid
      (some { process with references := process.references - 1 })).processes pid =
      some { process with references := process.references - 1 } := withProcess_processes ..
  have freed := run_processFree there (by simp [last]) empty
  rw [withProcess_withProcess] at freed
  simp only [withProcess] at freed
  simp only [processPut, run_bind, run_getProcess here, run_assert positive, setProcess, run_modify,
    if_pos last, freed]
  rfl

/-! ## While it attaches -/

/-- The server with a process of which some threads are attached. -/
def attaching (s : Server) (pid : Pid) (known : List Pid) : Server where
  processes := Function.update s.processes pid (some ⟨true, 2 + known.length, known, false, false⟩)
  threads := fun tid => if tid ∈ known then some ⟨true, 1, pid, false, false⟩ else s.threads tid
  traced := fun tid => decide (tid ∈ known) || s.traced tid

theorem attaching_process : (attaching s pid known).processes pid =
    some ⟨true, 2 + known.length, known, false, false⟩ :=
  Function.update_self ..

theorem attaching_thread (member : tid ∈ known) :
    (attaching s pid known).threads tid = some ⟨true, 1, pid, false, false⟩ := if_pos member

/-- A thread that is attached already is seen again. -/
theorem callback_known (member : tid ∈ known) :
    callback pid tid attempt (attaching s pid known) = .ok false (attaching s pid known) := by
  have here : (attaching s pid known).threads tid = some ⟨true, 1, pid, false, false⟩ :=
    attaching_thread member
  simp only [callback, run_bind, run_get, here, Option.filter_some, if_true, run_threadDup here,
    run_assert (beq_self_eq_true pid)]
  rw [run_threadPut (withThread_threads ..) (by simp)]
  simp [withThread_same here]

theorem run_threadCreate (here : s.processes pid = some process) (absent : s.threads tid = none) :
    threadCreate pid tid s = .ok ()
    (withProcess (withThread s tid (some ⟨true, 2, pid, false, false⟩)) pid
      (some { process with
        references := process.references + 1, threads :=
        process.threads.orderedInsert (· ≤ ·) tid })) := by
  have free : (s.threads tid).all (fun thread => !thread.listed) = true := by simp [absent]
  have there : (Function.update s.processes pid
      (some { process with references := process.references + 1 })) pid =
      some { process with references := process.references + 1 } := Function.update_self ..
  simp only [threadCreate, processDup, run_bind, run_getProcess here, setProcess, run_modify,
    run_get, run_assert free,
    setThread]
  rw [run_getProcess there]
  simp [withProcess, withThread]

/-- The new thread among those that are attached. -/
private theorem attaching_insert :
    withThread (withProcess
        { attaching s pid known with
          traced := Function.update (attaching s pid known).traced tid true }
        pid (some ⟨true, 2 + known.length + 1, known.orderedInsert (· ≤ ·) tid, false, false⟩)) tid
        (some ⟨true, 1, pid, false, false⟩) =
      attaching s pid (known.orderedInsert (· ≤ ·) tid) := by
  simp only [withThread, withProcess, attaching, Server.mk.injEq, Function.update_idem,
    List.orderedInsert_length,
    List.mem_orderedInsert]
  refine ⟨by rw [Nat.add_assoc], ?_, ?_⟩
  · funext other
    by_cases same : other = tid
    · simp [same]
    · simp [same]
  · funext other
    by_cases same : other = tid
    · simp [same]
    · simp [same]

/-- A thread that is not known yet. -/
theorem callback_new (absent : s.threads tid = none) (new : tid ∉ known)
    (allowed : attempt ≠ .forbidden) :
    callback pid tid attempt (attaching s pid known) =
      .ok true (attaching s pid (attachedBy known [(tid, attempt)])) := by
  have here : (attaching s pid known).threads tid = none := by simp [attaching, new, absent]
  simp only [callback, run_bind, run_get, here, Option.filter_none]
  cases attempt with
  | forbidden => exact absurd rfl allowed
  | refused => simp [attachedBy]
  | foreign => simp [attachedBy]
  | attached =>
    have created := run_threadCreate (s :=
      ⟨(attaching s pid known).processes, (attaching s pid known).threads,
      Function.update (attaching s pid known).traced tid true⟩) attaching_process here
    have inserted : attachedBy known [(tid, .attached)] = known.orderedInsert (· ≤ ·) tid := by
      simp [attachedBy, new]
    simp only [run_bind, setTraced, run_modify]
    rw [created]
    simp only
    rw [run_threadPut (show _ = some (⟨true, 2, pid, false, false⟩ : Thread) by simp) (by simp)]
    simp only [run_pure]
    rw [inserted, ← attaching_insert]
    simp [withThread, withProcess]

theorem callback_forbidden (absent : s.threads tid = none) (new : tid ∉ known) :
    callback pid tid .forbidden (attaching s pid known) = .error .assertion (attaching s pid known) := by
  have here : (attaching s pid known).threads tid = none := by simp [attaching, new, absent]
  simp only [callback, run_bind, run_get, here, Option.filter_none, run_throw]

theorem attachedBy_cons (known : List Pid) (entry : Pid × Attempt) (rest : List (Pid × Attempt)) :
    attachedBy known (entry :: rest) = attachedBy (attachedBy known [entry]) rest := by
  by_cases joins : entry.1 ∉ known ∧ entry.2 = .attached
  · simp [attachedBy, joins]
  · simp only [attachedBy, if_neg joins]

theorem attachedBy_known {entry : Pid × Attempt} (member : entry.1 ∈ known) :
    attachedBy known [entry] = known := by
  simp [attachedBy, member]

/-- What the callback does, whether the thread is known or not. -/
theorem callback_run (absent : s.threads tid = none) (allowed : tid ∉ known → attempt ≠ .forbidden) :
    callback pid tid attempt (attaching s pid known) =
      .ok (decide (tid ∉ known)) (attaching s pid (attachedBy known [(tid, attempt)])) := by
  by_cases member : tid ∈ known
  · rw [callback_known member, attachedBy_known member]
    simp [member]
  · rw [callback_new absent member (allowed member)]
    simp [member]

/-- One listing attaches what it finds, and changes something if a thread was unknown. -/
theorem attachListed_run (absent : ∀ seen ∈ listed, s.threads seen.1 = none)
    (allowed : ¬Forbids known listed) :
    attachListed pid listed (attaching s pid known) =
      .ok (listed.any fun seen => seen.1 ∉ known) (attaching s pid (attachedBy known listed)) := by
  induction listed generalizing known with
  | nil => rfl
  | cons head rest ih =>
    have first : callback pid head.1 head.2 (attaching s pid known) =
        .ok (decide (head.1 ∉ known)) (attaching s pid (attachedBy known [head])) :=
      callback_run (absent head List.mem_cons_self) fun new forbidden =>
        allowed (by obtain ⟨tid, attempt⟩ := head; cases forbidden; exact .here new)
    have later : attachListed pid rest (attaching s pid (attachedBy known [head])) =
        .ok (rest.any fun seen => seen.1 ∉ attachedBy known [head])
          (attaching s pid (attachedBy (attachedBy known [head]) rest)) :=
      ih (fun seen member => absent seen (List.mem_cons_of_mem _ member)) fun behind =>
      allowed (.later behind)
    rw [attachListed, run_bind, first, attachedBy_cons known head rest]
    simp only [run_bind, later, run_pure, List.any_cons]
    by_cases member : head.1 ∈ known
    · rw [attachedBy_known member]
    · simp [member]

/-- A thread that may not be attached ends the server. -/
theorem attachListed_forbidden (pid : Pid) (absent : ∀ seen ∈ listed, s.threads seen.1 = none)
    (forbids : Forbids known listed) :
    ∃ after, attachListed pid listed (attaching s pid known) = .error .assertion after := by
  induction forbids with
  | @here known tid rest unknown =>
    refine ⟨attaching s pid known, ?_⟩
    rw [attachListed, run_bind, callback_forbidden (absent _ List.mem_cons_self) unknown]
  | @later known head rest _ ih =>
    by_cases ends : head.1 ∉ known ∧ head.2 = .forbidden
    · refine ⟨attaching s pid known, ?_⟩
      rw [attachListed, run_bind, ends.2, callback_forbidden (absent _ List.mem_cons_self) ends.1]
    · obtain ⟨after, aborts⟩ := ih fun seen member => absent seen (List.mem_cons_of_mem _ member)
      refine ⟨after, ?_⟩
      rw [attachListed, run_bind,
        callback_run (absent _ List.mem_cons_self) fun new forbidden => ends ⟨new, forbidden⟩]
      simp only [run_bind, aborts]

/-- How the loop ends: at a directory that is missing, with nothing new in a listing, at a thread
that may not be attached, or with no answer. -/
inductive LoopEnd (pid : Pid) (s : Server) (known : List Pid) (listings : List Listing) :
    EStateM.Result Fault Server Bool → Prop where
  | gaveUp {last} (gives : GivesUp known listings last) :
      LoopEnd pid s known listings (.ok false (attaching s pid last))
  | complete (last : List Pid) : LoopEnd pid s known listings (.ok true (attaching s pid last))
  | aborted (forbidden : Forbidden known listings) (after : Server) :
    LoopEnd pid s known listings (.error .assertion after)
  | blocked (last : List Pid) : LoopEnd pid s known listings (.error .blocked (attaching s pid last))

private theorem unknown_of_changes (changes : (listed.any fun seen => seen.1 ∉ known) = true) :
    ∃ seen ∈ listed, seen.1 ∉ known := by
  obtain ⟨seen, member, unknown⟩ := List.any_eq_true.mp changes
  exact ⟨seen, member, of_decide_eq_true unknown⟩

private theorem changes_of_unknown (unknown : ∃ seen ∈ listed, seen.1 ∉ known) :
    (listed.any fun seen => seen.1 ∉ known) = true := by
  obtain ⟨seen, member, new⟩ := unknown
  exact List.any_eq_true.mpr ⟨seen, member, decide_eq_true new⟩

theorem attachLoop_run (absent : ∀ listed, some listed ∈ listings →
      ∀ seen ∈ listed, s.threads seen.1 = none) :
    LoopEnd pid s known listings (attachLoop pid listings (attaching s pid known)) := by
  induction listings generalizing known with
  | nil => exact .blocked known
  | cons listing rest ih =>
    cases listing with
    | none => exact .gaveUp .missing
    | some listed =>
      have first : ∀ seen ∈ listed, s.threads seen.1 = none := absent listed List.mem_cons_self
      by_cases forbids : Forbids known listed
      · obtain ⟨after, aborts⟩ := attachListed_forbidden pid first forbids
        simp only [attachLoop, run_bind, aborts]
        exact .aborted (.here forbids) after
      · have later : LoopEnd pid s (attachedBy known listed) rest
            (attachLoop pid rest (attaching s pid (attachedBy known listed))) :=
          ih fun listed member => absent listed (List.mem_cons_of_mem _ member)
        rw [attachLoop, run_bind, attachListed_run first forbids]
        simp only
        by_cases changes : (listed.any fun seen => seen.1 ∉ known) = true
        · rw [if_pos changes]
          have unknown : ∃ seen ∈ listed, seen.1 ∉ known := unknown_of_changes changes
          generalize attachLoop pid rest (attaching s pid (attachedBy known listed)) = run at later
          cases later with
          | gaveUp gives => exact .gaveUp (.next unknown gives)
          | complete final => exact .complete final
          | aborted forbidden after => exact .aborted (.next unknown forbidden) after
          | blocked final => exact .blocked final
        · rw [if_neg changes]
          exact .complete _

/-- A listing that fails ends the loop. -/
theorem attachLoop_gives (absent : ∀ listed, some listed ∈ listings →
      ∀ seen ∈ listed, s.threads seen.1 = none)
    (allowed : ¬Forbidden known listings) (gives : GivesUp known listings final) :
    attachLoop pid listings (attaching s pid known) = .ok false (attaching s pid final) := by
  induction gives with
  | missing => rfl
  | @next known listings final listed unknown _ ih =>
    have first : attachListed pid listed (attaching s pid known) =
        .ok (listed.any fun seen => seen.1 ∉ known) (attaching s pid (attachedBy known listed)) :=
      attachListed_run (absent listed List.mem_cons_self) fun forbids => allowed (.here forbids)
    rw [attachLoop, run_bind, first]
    simp only
    rw [if_pos (changes_of_unknown unknown)]
    exact ih (fun listed member => absent listed (List.mem_cons_of_mem _ member)) fun later =>
      allowed (.next unknown later)

/-- A thread that may not be attached ends the loop. -/
theorem attachLoop_forbidden (pid : Pid)
    (absent : ∀ listed, some listed ∈ listings → ∀ seen ∈ listed, s.threads seen.1 = none)
    (forbidden : Forbidden known listings) :
    ∃ after, attachLoop pid listings (attaching s pid known) = .error .assertion after := by
  induction forbidden with
  | here forbids =>
    obtain ⟨after, aborts⟩ := attachListed_forbidden pid (absent _ List.mem_cons_self) forbids
    exact ⟨after, by simp only [attachLoop, run_bind, aborts]⟩
  | @next known listed rest unknown later ih =>
    by_cases forbids : Forbids known listed
    · obtain ⟨after, aborts⟩ := attachListed_forbidden pid (absent _ List.mem_cons_self) forbids
      exact ⟨after, by simp only [attachLoop, run_bind, aborts]⟩
    · obtain ⟨after, aborts⟩ := ih fun listed member => absent listed (List.mem_cons_of_mem _ member)
      refine ⟨after, ?_⟩
      rw [attachLoop, run_bind, attachListed_run (absent _ List.mem_cons_self) forbids]
      simp only
      rw [if_pos (changes_of_unknown unknown), aborts]

/-! ## When it fails -/

/-- Every thread of the process is there, stopped and referenced. -/
structure Stopped (s : Server) (pid : Pid) (process : Process) : Prop where
  here : s.processes pid = some process
  threads : ∀ tid ∈ process.threads, ∃ thread, s.threads tid = some thread ∧ thread.running = false ∧
    thread.dead = false ∧ 0 < thread.references

theorem attaching_stopped (s : Server) (pid : Pid) (known : List Pid) :
    Stopped (attaching s pid known) pid ⟨true, 2 + known.length, known, false, false⟩ :=
  ⟨attaching_process, fun _ member => ⟨_, attaching_thread member, rfl, rfl, Nat.one_pos⟩⟩

theorem run_processIsStopped (stopped : Stopped s pid process) :
    processIsStopped pid s = .ok true s := by
  have all : (process.threads.all fun tid => (s.threads tid).any fun thread => !thread.running) =
      true := by
    refine List.all_eq_true.mpr fun tid member => ?_
    obtain ⟨thread, here, idle, -, -⟩ := stopped.threads tid member
    simp [here, idle]
  simp only [processIsStopped, run_bind, run_get, run_getProcess stopped.here, run_pure, all]

/-- Looking at threads changes nothing. -/
theorem run_threadIter {fn : Pid → Action Unit} (stopped : Stopped s pid process)
    (idle : ∀ tid thread t, t.threads tid = some thread → thread.running = false → fn tid t = .ok () t) :
    threadIter pid fn s = .ok () s := by
  have all : ∀ tids : List Pid, (∀ tid ∈ tids, tid ∈ process.threads) →
      (tids.forM fun tid => do threadDup tid; fn tid; threadPut tid : Action Unit) s = .ok () s := by
    intro tids members
    induction tids with
    | nil => rfl
    | cons tid rest ih =>
      obtain ⟨thread, here, halted, -, referenced⟩ :=
        stopped.threads tid (members tid List.mem_cons_self)
      have first : (do threadDup tid; fn tid; threadPut tid : Action Unit) s = .ok () s :=
        run_held here referenced fun t there => idle tid _ t there halted
      rw [List.forM, run_bind, first]
      exact ih fun tid member => members tid (List.mem_cons_of_mem _ member)
  simp only [threadIter, run_bind, run_getProcess stopped.here]
  exact all _ fun _ member => member

/-- Stopping and stabilizing the new process does nothing to it. -/
theorem run_stopStabilize (stopped : Stopped s pid process) (calm : process.stabilizing = false) :
    processStop pid s = .ok () s ∧ processStabilize pid s = .ok () s := by
  constructor
  · simp only [processStop, run_bind, run_processIsStopped stopped]
    rfl
  · have steady : (!process.stabilizing) = true := by simp [calm]
    simp only [processStabilize, run_bind, run_processIsStopped stopped, run_assert rfl,
      run_getProcess stopped.here,
      run_assert steady]
    refine run_threadIter stopped fun tid thread t here halted => ?_
    have idle : (!thread.running) = true := by simp [halted]
    simp only [run_bind, run_getThread here, run_assert idle]

theorem run_threadAnyStopped_nil (here : s.processes pid = some process) (empty : process.threads = []) :
    threadAnyStopped pid s = .ok none s := by
  simp only [threadAnyStopped, run_bind, run_get, run_getProcess here, empty, List.find?_nil, run_pure]

theorem run_threadAnyStopped_cons (stopped : Stopped s pid process) (some_ : process.threads ≠ []) :
    ∃ tid thread, s.threads tid = some thread ∧ tid ∈ process.threads ∧
      threadAnyStopped pid s = .ok (some tid)
      (withThread s tid (some { thread with references := thread.references + 1 })) := by
  obtain ⟨first, rest, shape⟩ := List.exists_cons_of_ne_nil some_
  have member : first ∈ process.threads := shape ▸ List.mem_cons_self
  obtain ⟨thread, here, halted, alive, -⟩ := stopped.threads first member
  refine ⟨first, thread, here, member, ?_⟩
  have found : process.threads.find? (fun tid => (s.threads tid).any fun thread =>
      !thread.running && !thread.dead) =
      some first := by
    rw [shape, List.find?_cons_of_pos (by simp [here, halted, alive])]
  simp only [threadAnyStopped, run_bind, run_get, run_getProcess stopped.here, found,
    run_threadDup here, run_pure]

/-- A reference more changes nothing of this. -/
theorem Stopped.withThread (stopped : Stopped s pid process) (here : s.threads tid = some thread)
    (member : tid ∈ process.threads) :
    Stopped (withThread s tid (some { thread with references := thread.references + 1 })) pid
      process := by
  refine ⟨stopped.here, fun other among => ?_⟩
  by_cases same : other = tid
  · subst same
    obtain ⟨found, there, halted, alive, -⟩ := stopped.threads other member
    obtain rfl : thread = found := Option.some.inj (here.symm.trans there)
    exact ⟨_, withThread_threads .., halted, alive, Nat.succ_pos _⟩
  · obtain ⟨found, there, rest⟩ := stopped.threads other among
    exact ⟨found, by simpa [AttachProofs.withThread, Function.update_of_ne same] using there, rest⟩

/-- Without a thread there is nothing to detach. -/
theorem run_processDetach_nil (stopped : Stopped s pid process) (calm : process.stabilizing = false)
    (empty : process.threads = []) : processDetach pid s = .ok () s := by
  obtain ⟨stop, stabilize⟩ := run_stopStabilize stopped calm
  simp only [processDetach, run_bind, stop, stabilize, run_threadAnyStopped_nil stopped.here empty,
    run_pure]

/-- With one, the base injection is expected to be there. -/
theorem run_processDetach_cons (stopped : Stopped s pid process) (calm : process.stabilizing = false)
    (some_ : process.threads ≠ []) (bare : process.injected = false) :
    ∃ after, processDetach pid s = .error .assertion after := by
  obtain ⟨stop, stabilize⟩ := run_stopStabilize stopped calm
  obtain ⟨tid, thread, here, member, any⟩ := run_threadAnyStopped_cons stopped some_
  have dup := stopped.withThread here member
  refine ⟨withThread s tid (some { thread with references := thread.references + 1 }), ?_⟩
  simp only [processDetach, run_bind, stop, stabilize, any, uninjectAdbi, run_processIsStopped dup,
    run_assert rfl,
    run_getProcess dup.here, run_assert_false bare]

theorem run_processDel (here : s.processes pid = some process) (listed : process.listed = true)
    (shared : 1 < process.references) : processDel pid s =
      .ok () (withProcess s pid (some
        { process with listed := false, references := process.references - 1 })) := by
  have there : (withProcess s pid (some { process with listed := false })).processes pid =
      some { process with listed := false } := withProcess_processes ..
  have put := run_processPut there shared
  rw [withProcess_withProcess] at put
  simp only [withProcess] at put
  simp only [processDel, run_bind, run_getProcess here, run_assert listed, setProcess, run_modify, put]
  rfl

/-- Without an attached thread, the failure takes the process back. -/
theorem run_attachFail_nil (absent : s.processes pid = none) :
    attachFail pid (attaching s pid []) = .ok false s := by
  have stopped := attaching_stopped s pid []
  have last : (withProcess (attaching s pid []) pid (some ⟨false, 1, [], false, false⟩)).processes pid =
      some ⟨false, 1, [], false, false⟩ := withProcess_processes ..
  have put := run_processPut_last last rfl rfl
  rw [withProcess_withProcess] at put
  have original : withProcess (attaching s pid []) pid none = s := by
    simp only [attaching, withProcess, Function.update_idem, List.not_mem_nil, if_false,
      decide_false, Bool.false_or]
    rw [Function.update_eq_self_iff.mpr absent.symm]
  rw [original] at put
  simp only [attachFail, run_bind, run_processDetach_nil stopped rfl rfl]
  rw [run_processDel stopped.here rfl (by simp)]
  exact put

/-- With one, it does not come to its end. -/
theorem run_attachFail_cons (some_ : known ≠ []) :
    ∃ after, attachFail pid (attaching s pid known) = .error .assertion after := by
  obtain ⟨after, aborts⟩ := run_processDetach_cons (attaching_stopped s pid known) rfl some_ rfl
  exact ⟨after, by simp only [attachFail, run_bind, aborts]⟩

/-! ## Attaching -/

theorem run_processCreate (absent : s.processes pid = none) : processCreate pid s = .ok ()
    (attaching s pid []) := by
  have free : (s.processes pid).all (fun process => !process.listed) = true := by simp [absent]
  simp only [processCreate, run_bind, run_get, run_assert free, setProcess, run_modify]
  simp [attaching]

/-- What the attach comes to, where it is tried. -/
theorem run_processAttach (untraced : Untraced system s pid) (tgid : system.tgid = pid)
    (tracer : system.tracer = 0) :
    processAttach system pid s =
      match attachLoop pid system.listings (attaching s pid []) with
      | .ok true t => (do
          match ← threadAnyStopped pid with
          | some tid => pure (.instruments tid)
          | none => do
            assert (← getProcess pid).threads.isEmpty
            return .returned (← attachFail pid) : Action Outcome) t
      | .ok false t => (do return .returned (← attachFail pid) : Action Outcome) t
      | .error e t => .error e t := by
  have traced : ¬system.tracer ≠ 0 := not_not.mpr tracer
  have leader : ¬system.tgid ≠ pid := not_not.mpr tgid
  simp only [processAttach, if_neg leader, if_neg traced, run_bind, run_processCreate untraced.process]
  cases attachLoop pid system.listings (attaching s pid []) with
  | error fault t => rfl
  | ok complete t => cases complete <;> rfl

/-- Where it is not tried, nothing happens. -/
theorem run_processAttach_refused (refused : ¬(system.tgid = pid ∧ system.tracer = 0)) :
    processAttach system pid s = .ok (.returned false) s := by
  by_cases leader : system.tgid = pid
  · have traced : system.tracer ≠ 0 := fun zero => refused ⟨leader, zero⟩
    simp only [processAttach, if_neg (not_not.mpr leader), if_pos traced, run_pure]
  · simp only [processAttach, if_pos leader, run_pure]

private theorem atomic_of_returned (run : processAttach system pid s = .ok (.returned false) s) :
    Atomic system s pid := by
  refine ⟨fun after returned => ?_, fun fault after failed => ?_⟩
  · rw [run] at returned
    cases returned
    rfl
  · rw [run] at failed
    cases failed

private theorem atomic_of_early (untraced : system.tgid = pid → system.tracer = 0 →
      Untraced system s pid)
    (allowed : system.tgid = pid → system.tracer = 0 → ¬Forbidden [] system.listings)
    (early : system.tgid = pid → system.tracer = 0 →
      ∀ last, GivesUp [] system.listings last → last = []) :
    Atomic system s pid := by
  by_cases tried : system.tgid = pid ∧ system.tracer = 0
  · have fresh := untraced tried.1 tried.2
    have run := run_processAttach fresh tried.1 tried.2
    have ends : LoopEnd pid s [] system.listings (attachLoop pid system.listings (attaching s pid [])) :=
      attachLoop_run fresh.threads
    generalize attachLoop pid system.listings (attaching s pid []) = loop at run ends
    cases ends with
    | gaveUp gives =>
      obtain rfl := early tried.1 tried.2 _ gives
      simp only [run_bind, run_attachFail_nil fresh.process, run_pure] at run
      exact atomic_of_returned run
    | complete last =>
      cases last with
      | nil =>
        have empty : ([] : List Pid).isEmpty = true := rfl
        simp only [run_bind, run_threadAnyStopped_nil (attaching_stopped s pid []).here rfl,
          run_getProcess (attaching_stopped s pid []).here, run_assert empty,
          run_attachFail_nil fresh.process,
          run_pure] at run
        exact atomic_of_returned run
      | cons first rest =>
        obtain ⟨tid, thread, -, -, any⟩ :=
          run_threadAnyStopped_cons (attaching_stopped s pid (first :: rest)) (by simp)
        simp only [run_bind, any, run_pure] at run
        exact ⟨fun after returned => (nomatch run.symm.trans returned),
          fun fault after failed => (nomatch run.symm.trans failed)⟩
    | aborted forbidden => exact absurd forbidden (allowed tried.1 tried.2)
    | blocked last =>
      refine ⟨fun after returned => (nomatch run.symm.trans returned), fun fault after failed => ?_⟩
      rw [run] at failed
      cases failed
      rfl
  · exact atomic_of_returned (run_processAttach_refused tried)

private theorem late_aborts (untraced : Untraced system s pid) (tgid : system.tgid = pid)
    (tracer : system.tracer = 0)
    (allowed : ¬Forbidden [] system.listings) (gives : GivesUp [] system.listings known)
    (late : known ≠ []) :
    ∃ after, processAttach system pid s = .error .assertion after := by
  have loop : attachLoop pid system.listings (attaching s pid []) = .ok false (attaching s pid known) :=
    attachLoop_gives untraced.threads allowed gives
  obtain ⟨after, aborts⟩ : ∃ after, attachFail pid (attaching s pid known) = .error .assertion after :=
    run_attachFail_cons late
  refine ⟨after, ?_⟩
  rw [run_processAttach untraced tgid tracer, loop]
  simp only [run_bind, aborts]

private theorem forbidden_aborts (untraced : Untraced system s pid) (tgid : system.tgid = pid)
    (tracer : system.tracer = 0) (forbidden : Forbidden [] system.listings) :
    ∃ after, processAttach system pid s = .error .assertion after := by
  obtain ⟨after, aborts⟩ := attachLoop_forbidden pid untraced.threads forbidden
  exact ⟨after, by rw [run_processAttach untraced tgid tracer, aborts]⟩

/-- An attach is atomic exactly when the system lets the server attach every thread that it
lists, and no listing fails after a thread was attached. -/
theorem attach_atomic_iff (untraced : system.tgid = pid → system.tracer = 0 → Untraced system s pid) :
    Atomic system s pid ↔
      (system.tgid = pid → system.tracer = 0 →
        ¬Forbidden [] system.listings ∧ ∀ last, GivesUp [] system.listings last → last = []) := by
  constructor
  · intro atomic tgid tracer
    have fresh := untraced tgid tracer
    have allowed : ¬Forbidden [] system.listings := by
      intro forbidden
      obtain ⟨after, aborts⟩ := forbidden_aborts fresh tgid tracer forbidden
      cases atomic.asserts _ _ aborts
    refine ⟨allowed, fun last gives => ?_⟩
    by_contra late
    obtain ⟨after, aborts⟩ := late_aborts fresh tgid tracer allowed gives late
    cases atomic.asserts _ _ aborts
  · exact fun meets => atomic_of_early untraced (fun tgid tracer => (meets tgid tracer).1)
      fun tgid tracer => (meets tgid tracer).2

/-- A server that knows nothing. -/
def idle : Server := ⟨fun _ => none, fun _ => none, fun _ => false⟩

theorem idle_untraced (system : System) (pid : Pid) : Untraced system idle pid :=
  ⟨rfl, fun _ _ _ _ => rfl⟩

/-- A process whose two threads are gone when they are tried, one of them to another process,
and whose directory is missing after that. -/
def fleeting : System := ⟨5, 0, [some [(5, .foreign), (6, .refused)], none]⟩

theorem fleeting_atomic :
    processAttach fleeting 5 idle = .ok (.returned false) idle ∧ Atomic fleeting idle 5 := by
  have allowed : ¬Forbidden [] fleeting.listings := by
    rintro (⟨⟨⟩ | ⟨⟨⟩ | ⟨⟨⟩⟩⟩⟩ | ⟨-, ⟨⟩⟩)
  have gives : GivesUp [] fleeting.listings [] := .next ⟨_, List.mem_cons_self, by simp⟩ .missing
  constructor
  · rw [run_processAttach (idle_untraced fleeting 5) rfl rfl,
      attachLoop_gives (idle_untraced fleeting 5).threads allowed gives]
    simp only [run_bind, run_attachFail_nil (show idle.processes 5 = none from rfl), run_pure]
  · refine (attach_atomic_iff fun _ _ => idle_untraced fleeting 5).mpr fun _ _ => ⟨allowed, ?_⟩
    rintro last (_ | ⟨-, _ | _⟩)
    rfl

/-- A process that ends after its thread was attached. -/
def ending : System := ⟨5, 0, [some [(5, .attached)], none]⟩

theorem ending_aborts : Untraced ending idle 5 ∧
    (∃ after, processAttach ending 5 idle = .error .assertion after) ∧
    ¬Atomic ending idle 5 := by
  have allowed : ¬Forbidden [] ending.listings := by
    rintro (⟨⟨⟩ | ⟨⟨⟩⟩⟩ | ⟨-, ⟨⟩⟩)
  have gives : GivesUp [] ending.listings [5] := .next ⟨_, List.mem_cons_self, by simp⟩ .missing
  obtain ⟨after, aborts⟩ := late_aborts (idle_untraced ending 5) rfl rfl allowed gives (by simp)
  exact ⟨idle_untraced ending 5, ⟨after, aborts⟩, fun atomic => nomatch atomic.asserts _ _ aborts⟩

/-- A process that has ended and was not waited for by its parent. -/
def zombie : System := ⟨5, 0, [some [(5, .forbidden)]]⟩

theorem zombie_aborts : Untraced zombie idle 5 ∧
    (∃ after, processAttach zombie 5 idle = .error .assertion after) ∧
    ¬Atomic zombie idle 5 := by
  obtain ⟨after, aborts⟩ := forbidden_aborts (idle_untraced zombie 5) rfl rfl
    (.here (.here List.not_mem_nil))
  exact ⟨idle_untraced zombie 5, ⟨after, aborts⟩, fun atomic => nomatch atomic.asserts _ _ aborts⟩

end Adbi.AttachProofs
