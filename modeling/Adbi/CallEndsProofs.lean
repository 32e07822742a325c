import Adbi.FncallProofs

/-! Which calls are not true although their thread lives, told from the thread
before the call, the context, the answers to the requests and the stops that are
reported; and what such a call leaves in memory. -/
namespace Adbi.CallEndsProofs
open Adbi.Lib Adbi.CallStack Adbi.Fncall Adbi.FncallProofs
open Adbi.MemWrite (Inferior)
open Adbi.Branch (Word)
open Adbi.Tracee (Signo)

variable {arch : Arch} {w w' : World arch} {α β : Type}

/-! ## Requests -/

/-- The thread lives, and the next requests to `ptrace` succeed. -/
def Granted (n : Nat) (w : World arch) : Prop :=
  w.inferior.dead = false ∧ ∀ answer ∈ w.answers.take n, answer = true

def spend (n : Nat) (w : World arch) : World arch := { w with answers := w.answers.drop n }

theorem granted_add (k n : Nat) : Granted (k + n) w ↔ Granted k w ∧ Granted n (spend k w) := by
  simp only [Granted, spend, List.take_add, List.mem_append, or_imp, forall_and]
  exact ⟨fun ⟨alive, early, late⟩ => ⟨⟨alive, early⟩, alive, late⟩, fun ⟨⟨alive, early⟩, _, late⟩ =>
    ⟨alive, early, late⟩⟩

theorem spend_spend (k n : Nat) : spend n (spend k w) = spend (k + n) w := by
  simp [spend]

theorem request_iff : request w = .ok () w' ↔ Granted 1 w ∧ w' = spend 1 w := by
  cases dead : w.inferior.dead with
  | true => simp [request, Granted, dead]
  | false =>
    rcases answers : w.answers with _ | ⟨granted, rest⟩
    · have same : spend 1 w = w := by
        cases w
        cases answers
        rfl
      have asked : request w = .ok () w := by
        simp [request, dead, answers]
      simp [asked, Granted, dead, answers, same, eq_comm]
    · cases granted with
      | true =>
        have asked : request w = .ok () { w with answers := rest } := by
          simp [request, dead, answers]
        simp [asked, Granted, spend, dead, answers, eq_comm]
      | false => simp [request, Granted, dead, answers]

theorem assert_bind_iff {holds : Bool} {f : Unit → Action arch α} {a : α} :
    (assert holds >>= f) w = .ok a w' ↔ holds = true ∧ f () w = .ok a w' := by
  refine ⟨assert_bind_ran, ?_⟩
  rintro ⟨rfl, ran⟩
  exact ran

theorem bind_iff {x : Action arch α} {f : α → Action arch β} {b : β} :
    (x >>= f) w = .ok b w' ↔ ∃ a v, x w = .ok a v ∧ f a v = .ok b w' := by
  refine ⟨bind_ran, ?_⟩
  rintro ⟨a, v, first, second⟩
  rw [run_bind, first]
  exact second

theorem request_bind_iff {f : Unit → Action arch α} {a : α} :
    (request >>= f) w = .ok a w' ↔ Granted 1 w ∧ f () (spend 1 w) = .ok a w' := by
  rw [bind_iff]
  constructor
  · rintro ⟨⟨⟩, v, requested, ran⟩
    obtain ⟨granted, rfl⟩ := request_iff.mp requested
    exact ⟨granted, ran⟩
  · rintro ⟨granted, ran⟩
    exact ⟨(), _, request_iff.mpr ⟨granted, rfl⟩, ran⟩

theorem threadGetRegs_bind_iff {f : arch.Regs → Action arch α} {a : α} :
    (threadGetRegs >>= f) w = .ok a w' ↔
      w.thread.running = false ∧ Granted 1 w ∧ f w.regs (spend 1 w) = .ok a w' := by
  have asked : (threadGetRegs >>= f) w =
      (assert (!w.thread.running) >>= fun _ => request >>= fun _ => f w.regs) w := by
    rw [threadGetRegs, bind_assoc]
    simp only [run_bind, run_get, bind_assoc, pure_bind]
  rw [asked, assert_bind_iff, request_bind_iff, Bool.not_eq_true']

theorem threadSetRegs_bind_iff {regs : arch.Regs} {f : Unit → Action arch α} {a : α} :
    (threadSetRegs regs >>= f) w = .ok a w' ↔
      w.thread.running = false ∧ Granted 1 w ∧ f () { spend 1 w with regs := regs } = .ok a w' := by
  have asked : (threadSetRegs regs >>= f) w =
      (assert (!w.thread.running) >>= fun _ => request >>= fun _ =>
      modify (fun w => { w with regs := regs }) >>= f) w := by
    rw [threadSetRegs, bind_assoc]
    simp only [run_bind, run_get, bind_assoc]
  rw [asked, assert_bind_iff, request_bind_iff, Bool.not_eq_true']
  rfl

/-- Options are set once, with a request of their own. -/
def resumes (setoptions : Bool) : Nat := if setoptions then 2 else 1

def resumed (w : World arch) : World arch :=
  { spend (resumes w.thread.setoptions) w with
    thread := { w.thread with setoptions := false, signo := none, running := true } }

theorem threadContinue_bind_iff (alive : w.inferior.dead = false) (stopped : w.thread.running = false)
    {f : Unit → Action arch α} {a : α} :
    (threadContinue >>= f) w = .ok a w' ↔ Granted (resumes w.thread.setoptions) w ∧ f ()
    (resumed w) = .ok a w' := by
  let starts : Action arch Unit :=
    setThread fun t => { t with setoptions := false, signo := none, running := true }
  have continued : threadContinue w =
      (if w.thread.setoptions then request >>= fun _ => request >>= fun _ => starts
        else request >>= fun _ => starts : Action arch Unit) w := by
    simp only [threadContinue, run_bind, run_get, alive, stopped, Bool.or_self,
      Bool.false_eq_true, ↓reduceIte]
    split <;> rfl
  rw [run_bind, continued, ← run_bind]
  cases options : w.thread.setoptions with
  | false =>
    simp only [Bool.false_eq_true, ↓reduceIte, bind_assoc, request_bind_iff, resumes, resumed, options]
    rfl
  | true =>
    simp only [↓reduceIte, bind_assoc, request_bind_iff, resumes, resumed, options, granted_add 1 1,
      spend_spend, and_assoc]
    rfl

/-! ## Stops -/

/-- While the threads are brought to safe places, a segmentation fault is looked at. -/
def looks (w : World arch) (signo : Signo) : Bool := w.stabilizing && signo = .sigsegv

def caught (w : World arch) (signo : Signo) : Nat := if looks w signo then 1 else 0

/-- The memory of a thread that has stopped. -/
def left (memory : BitVec arch.width → BitVec 8) (mapped : BitVec arch.width → Bool) :
    Inferior arch.width :=
  { memory, mapped, dead := false, gone := fun dead => absurd dead Bool.false_ne_true }

/-- The world in which the thread has stopped. -/
def stoppedAt (w : World arch) (regs : arch.Regs) (memory : BitVec arch.width → BitVec 8)
    (mapped : BitVec arch.width → Bool)
    (rest : List (Report arch)) : World arch :=
  { w with thread := { w.thread with running := false }, regs := regs, inferior := left memory mapped, reports := rest }

/-- The world in which the server has taken note of it. -/
def heard (w : World arch) (signo : Signo) (regs : arch.Regs) (memory : BitVec arch.width → BitVec 8)
    (mapped : BitVec arch.width → Bool) (rest : List (Report arch)) : World arch :=
  { spend (caught w signo) (stoppedAt w regs memory mapped rest) with
    thread := { w.thread with
      running := false
      signo := some signo
      stopme := looks w signo && w.code (arch.pc regs) && w.thread.stopme } }

variable {signo : Signo} {regs : arch.Regs} {memory : BitVec arch.width → BitVec 8}
  {mapped : BitVec arch.width → Bool}
  {rest : List (Report arch)}

theorem granted_stoppedAt (n : Nat) (alive : w.inferior.dead = false) :
    Granted n (stoppedAt w regs memory mapped rest) ↔ Granted n w := by
  rw [Granted, Granted, alive]
  rfl

theorem threadWait_bind_iff (alive : w.inferior.dead = false)
    (next : w.reports = .signal signo regs memory mapped :: rest)
    {f : Unit → Action arch α} {a : α} :
    (threadWait >>= f) w = .ok a w' ↔ Granted (caught w signo) w ∧ f ()
    (heard w signo regs memory mapped rest) = .ok a w' := by
  have waited : threadWait w = threadHandleStatus (.signal signo regs memory mapped)
      { w with reports := rest } := by
    simp only [threadWait, run_bind, run_get, alive, next, Bool.false_eq_true, ↓reduceIte, run_modify]
  rw [run_bind, waited]
  by_cases sees : looks w signo = true
  · have handled : threadHandleStatus (.signal signo regs memory mapped) { w with reports := rest } =
        (threadGetRegs >>= fun regs => if w.code (arch.pc regs) then setThread fun t =>
          { t with signo := some signo }
          else threadContinueOrStop signo) (stoppedAt w regs memory mapped rest) := by
      rw [looks] at sees
      simp only [threadHandleStatus, run_bind, run_modify, run_get, sees, ↓reduceIte]
      rfl
    have noted : (if w.code (arch.pc regs) then setThread fun t => { t with signo := some signo }
          else threadContinueOrStop signo) (spend 1 (stoppedAt w regs memory mapped rest)) =
        .ok () (heard w signo regs memory mapped rest) := by
      cases code : w.code (arch.pc regs) <;>
        simp [heard, caught, sees, code, spend, stoppedAt, threadContinueOrStop, setThread]
    rw [handled, ← run_bind, bind_assoc, threadGetRegs_bind_iff, granted_stoppedAt 1 alive, caught,
      if_pos sees, run_bind]
    have regs_ : (stoppedAt w regs memory mapped rest).regs = regs := rfl
    rw [regs_, noted]
    exact ⟨And.right, fun ran => ⟨rfl, ran⟩⟩
  · have handled : threadHandleStatus (.signal signo regs memory mapped) { w with reports := rest } =
        .ok () (heard w signo regs memory mapped rest) := by
      simp only [heard, caught, sees]
      rw [looks] at sees
      simp only [threadHandleStatus, run_bind, run_modify, run_get, sees, Bool.false_eq_true, ↓reduceIte]
      rfl
    rw [handled, caught, if_neg sees]
    exact ⟨fun ran => ⟨⟨alive, by simp⟩, ran⟩, And.right⟩

/-! ## Loops over stops -/

/-- The thread goes on after a stop that a loop passes over. -/
def again (w : World arch) (signo : Signo) (regs : arch.Regs) (memory : BitVec arch.width → BitVec 8)
    (mapped : BitVec arch.width → Bool) (rest : List (Report arch)) : World arch :=
  resumed (heard w signo regs memory mapped rest)

/-- A loop that waits for the thread and lets it go on after the signals that `passes` tells. -/
structure Loops (loop : Nat → Action arch β) (passes : Signo → Bool) (result : Signo → β) : Prop where
  faults : passes .sigsegv = false
  zero : ∀ w b w', loop 0 w ≠ .ok b w'
  ends : ∀ n w b w', w.inferior.dead = false →
      (∀ signo regs memory mapped rest, w.reports ≠ .signal signo regs memory mapped :: rest) →
    loop n w = .ok b w' → w'.inferior.dead = true
  pass : ∀ n w signo regs memory mapped rest b w', w.inferior.dead = false →
      w.thread.setoptions = false →
    w.reports = .signal signo regs memory mapped :: rest → passes signo = true →
    (loop (n + 1) w = .ok b w' ↔ Granted 1 w ∧ loop n (again w signo regs memory mapped rest) = .ok b w')
  last : ∀ n w signo regs memory mapped rest, w.inferior.dead = false →
    w.reports = .signal signo regs memory mapped :: rest → passes signo = false →
    ∃ t : Thread, (t.running = false ∧ t.setoptions = w.thread.setoptions ∧
      t.slavemode = w.thread.slavemode) ∧
      ∀ b w', loop (n + 1) w = .ok b w' ↔ Granted (caught w signo) w ∧ b = result signo ∧
        w' = { heard w signo regs memory mapped rest with thread := t }

/-- The stops that are passed over, and the one that ends a loop, with the requests that all this
takes. -/
structure StopsAt (passes : Signo → Bool) (w : World arch) (stops : List (Report arch))
    (signo : Signo) (regs : arch.Regs)
    (memory : BitVec arch.width → BitVec 8) (mapped : BitVec arch.width → Bool)
    (rest : List (Report arch)) : Prop where
  reports : w.reports = stops ++ .signal signo regs memory mapped :: rest
  passed : ∀ r ∈ stops, ∃ signo regs memory mapped, r = .signal signo regs memory mapped ∧
      passes signo = true
  last : passes signo = false
  granted : Granted (stops.length + caught w signo) w

/-- The world after so many requests, with the thread stopped. -/
structure Settled (w : World arch) (n : Nat) (regs : arch.Regs) (memory : BitVec arch.width → BitVec 8)
    (mapped : BitVec arch.width → Bool) (rest : List (Report arch)) (w' : World arch) : Prop where
  running : w'.thread.running = false
  options : w'.thread.setoptions = false
  mode : w'.thread.slavemode = w.thread.slavemode
  same : w' = { spend n w with thread := w'.thread, regs := regs, inferior := left memory mapped, reports := rest }

variable {loop : Nat → Action arch β} {passes : Signo → Bool} {result : Signo → β}

variable (regs memory mapped rest) in
/-- What a thread that goes on has in common with the one before. -/
theorem again_spec (options : w.thread.setoptions = false) (quiet : caught w signo = 0) :
    (again w signo regs memory mapped rest).thread.setoptions = false ∧
      (again w signo regs memory mapped rest).thread.slavemode = w.thread.slavemode ∧
      again w signo regs memory mapped rest =
        { spend 1 w with
          thread := (again w signo regs memory mapped rest).thread
          regs := regs
          inferior := left memory mapped
          reports := rest } := by
  refine ⟨rfl, rfl, ?_⟩
  simp [again, resumed, heard, stoppedAt, spend, quiet, options, resumes]

theorem granted_again (options : w.thread.setoptions = false) (quiet : caught w signo = 0) (n : Nat)
    (alive : w.inferior.dead = false) :
    Granted (n + 1) w ↔ Granted 1 w ∧ Granted n (again w signo regs memory mapped rest) := by
  obtain ⟨-, -, same⟩ := again_spec regs memory mapped rest options quiet
  have answers : (again w signo regs memory mapped rest).answers = (spend 1 w).answers := by rw [same]
  rw [Nat.add_comm, granted_add, Granted, Granted, Granted, answers]
  have lives : (spend 1 w).inferior.dead = false := alive
  rw [lives]
  exact Iff.rfl

theorem Settled.again (options : w.thread.setoptions = false) (quiet : caught w signo = 0) {n : Nat}
    {regs' : arch.Regs} {memory' : BitVec arch.width → BitVec 8}
    {mapped' : BitVec arch.width → Bool} {rest' : List (Report arch)}
    (settled : Settled (again w signo regs' memory' mapped' rest') n regs memory mapped rest w') :
    Settled w (n + 1) regs memory mapped rest w' := by
  obtain ⟨-, mode, same⟩ := again_spec regs' memory' mapped' rest' options quiet
  refine ⟨settled.running, settled.options, settled.mode.trans mode, ?_⟩
  have isW' := settled.same
  rw [same] at isW'
  rw [isW', Nat.add_comm n 1]
  simp only [spend, List.drop_drop]

/-- What is granted then. -/
theorem Settled.granted {k : Nat} (settled : Settled w k regs memory mapped rest w')
    (alive : w.inferior.dead = false) (n : Nat) :
    Granted n w' ↔ Granted n (spend k w) := by
  have answers : w'.answers = (spend k w).answers := by rw [settled.same]
  have lives : w'.inferior.dead = (spend k w).inferior.dead := by
    rw [settled.same]
    exact alive.symm
  rw [Granted, Granted, answers, lives]

/-- The signals that are passed over need no request of their own. -/
theorem Loops.quiet (loops : Loops loop passes result) (passing : passes signo = true) :
    caught w signo = 0 := by
  have other : signo ≠ .sigsegv := by
    rintro rfl
    exact absurd (passing.symm.trans loops.faults) (by decide)
  simp [caught, looks, other]

/-- What the loop does is determined by the stops. -/
theorem loop_runs (loops : Loops loop passes result) {stops : List (Report arch)} {n : Nat}
    (options : w.thread.setoptions = false)
    (stopsAt : StopsAt passes w stops signo regs memory mapped rest) (enough : stops.length < n) :
    ∃ w', loop n w = .ok (result signo) w' ∧
    Settled w (stops.length + caught w signo) regs memory mapped rest w' := by
  obtain ⟨n, rfl⟩ : ∃ k, n = k + 1 := ⟨n - 1, by omega⟩
  induction stops generalizing w n with
  | nil =>
    obtain ⟨t, ⟨running, same, mode⟩, turn⟩ :=
      loops.last n w signo regs memory mapped rest stopsAt.granted.1 stopsAt.reports stopsAt.last
    have granted : Granted (caught w signo) w := by simpa using stopsAt.granted
    refine ⟨_, (turn _ _).mpr ⟨granted, rfl, rfl⟩, running, same.trans options, mode, ?_⟩
    simp [heard, stoppedAt, spend]
  | cons r stops ih =>
    obtain ⟨passing, regs', memory', mapped', rfl, passes_⟩ := stopsAt.passed r List.mem_cons_self
    have quiet : caught w passing = 0 := loops.quiet passes_
    have alive := stopsAt.granted.1
    have granted : Granted (stops.length + caught w signo + 1) w := by
      have all := stopsAt.granted
      rwa [List.length_cons, Nat.add_right_comm] at all
    obtain ⟨one, others⟩ := (granted_again options quiet _ alive).mp granted
    obtain ⟨n, rfl⟩ : ∃ k, n = k + 1 := ⟨n - 1, by simp at enough; omega⟩
    have later : StopsAt passes (again w passing regs' memory' mapped'
        (stops ++ .signal signo regs memory mapped :: rest))
        stops signo regs memory mapped rest :=
      ⟨rfl, fun r member => stopsAt.passed r (List.mem_cons_of_mem _ member), stopsAt.last, others⟩
    obtain ⟨w', ran, settled⟩ := ih (again_spec _ _ _ _ options quiet).1 later n (by simpa using enough)
    refine ⟨w', (loops.pass _ _ _ _ _ _ _ _ _ alive options stopsAt.reports passes_).mpr ⟨one, ran⟩, ?_⟩
    rw [List.length_cons, Nat.add_right_comm]
    exact Settled.again options quiet settled

/-- A loop whose thread lives has come to such a stop. -/
theorem loop_ran (loops : Loops loop passes result) {n : Nat} {b : β} (alive : w.inferior.dead = false)
    (options : w.thread.setoptions = false) (ran : loop n w = .ok b w')
    (lives : w'.inferior.dead = false) :
    ∃ stops signo regs memory mapped rest, StopsAt passes w stops signo regs memory mapped rest ∧
    b = result signo ∧
      Settled w (stops.length + caught w signo) regs memory mapped rest w' := by
  induction n generalizing w with
  | zero => exact absurd ran (loops.zero _ _ _)
  | succ n ih =>
    by_cases stops : ∃ signo regs memory mapped rest, w.reports =
      .signal signo regs memory mapped :: rest
    · obtain ⟨signo, regs, memory, mapped, rest, next⟩ := stops
      cases passing : passes signo with
      | true =>
        have quiet : caught w signo = 0 := loops.quiet passing
        obtain ⟨one, ran⟩ := (loops.pass _ _ _ _ _ _ _ _ _ alive options next passing).mp ran
        obtain ⟨stops, last, regs', memory', mapped', rest', stopsAt, isB, settled⟩ :=
          ih rfl (again_spec _ _ _ _ options quiet).1 ran
        refine ⟨.signal signo regs memory mapped :: stops, last, regs', memory', mapped', rest',
          ⟨?_, ?_, stopsAt.last, ?_⟩, isB, ?_⟩
        · have same : rest = _ := stopsAt.reports
          rw [next, same, List.cons_append]
        · intro r member
          rcases List.mem_cons.mp member with rfl | member
          · exact ⟨_, _, _, _, rfl, passing⟩
          · exact stopsAt.passed r member
        · rw [List.length_cons, Nat.add_right_comm]
          exact (granted_again options quiet _ alive).mpr ⟨one, stopsAt.granted⟩
        · rw [List.length_cons, Nat.add_right_comm]
          exact Settled.again options quiet settled
      | false =>
        obtain ⟨t, ⟨running, same, mode⟩, turn⟩ :=
          loops.last n w signo regs memory mapped rest alive next passing
        obtain ⟨granted, isB, rfl⟩ := (turn _ _).mp ran
        refine ⟨[], signo, regs, memory, mapped, rest,
          ⟨next, by simp, passing, by simpa using granted⟩, isB,
          running, same.trans options, mode, ?_⟩
        simp [heard, stoppedAt, spend]
    · have dead := loops.ends _ _ _ _ alive (fun signo regs memory mapped rest next =>
        stops ⟨signo, regs, memory, mapped, rest, next⟩) ran
      rw [lives] at dead
      cases dead

/-- A call passes over stops by `SIGSTOP`. -/
def passedByCall (signo : Signo) : Bool := signo = .sigstop

/-- A restop passes over all but the traps that it waits for. -/
def passedByRestop (signo : Signo) : Bool := !(signo = .sigsegv || signo = .sigtrap || signo = .sigbus)

theorem granted_heard (quiet : caught w signo = 0) (alive : w.inferior.dead = false) (n : Nat) :
    Granted n (heard w signo regs memory mapped rest) ↔ Granted n w := by
  rw [Granted, Granted, alive]
  simp [heard, stoppedAt, spend, quiet, left]

/-- The thread is let go on after a stop. -/
theorem continue_heard (options : w.thread.setoptions = false) (quiet : caught w signo = 0)
    (alive : w.inferior.dead = false)
    {t : Thread} (same : t = { (heard w signo regs memory mapped rest).thread with signo := t.signo })
    {f : Unit → Action arch α} {a : α} :
    (threadContinue >>= f) { heard w signo regs memory mapped rest with thread := t } = .ok a w' ↔
      Granted 1 w ∧ f () (again w signo regs memory mapped rest) = .ok a w' := by
  have running : t.running = false := by rw [same]; rfl
  have setoptions : t.setoptions = false := by rw [same]; exact options
  have on : resumed { heard w signo regs memory mapped rest with thread := t } =
      again w signo regs memory mapped rest := by
    rw [same]
    simp [again, resumed, heard, stoppedAt, spend]
  rw [threadContinue_bind_iff rfl running, on, setoptions]
  exact and_congr_left fun _ => granted_heard quiet alive 1

theorem callLoop_loops : Loops (callLoop : Nat → Action arch (Option Signo)) passedByCall some where
  faults := rfl
  zero _ _ _ ran := by cases ran
  ends n w b w' alive none ran := by
    cases n with
    | zero => cases ran
    | succ n =>
      obtain ⟨⟨⟩, v, waited, ran⟩ := bind_ran ran
      obtain ⟨-, outcome⟩ := threadWait_ran alive waited
      rcases outcome with ⟨signo, memory, mapped, next, -, -⟩ | ⟨-, dead⟩
      · exact absurd next (none _ _ _ _ _)
      · replace ran := get_bind_ran ran
        simp only [dead, ↓reduceIte] at ran
        cases ran
        exact dead
  pass n w signo regs memory mapped rest b w' alive options next passing := by
    obtain rfl : signo = .sigstop := of_decide_eq_true passing
    have quiet : caught w .sigstop = 0 := by simp [caught, looks]
    rw [callLoop, threadWait_bind_iff alive next, quiet]
    have go : (threadContinue >>= fun _ => callLoop n) { heard w .sigstop regs memory mapped rest with
          thread := { (heard w .sigstop regs memory mapped rest).thread with signo := none } } =
            .ok b w' ↔
        Granted 1 w ∧ callLoop n (again w .sigstop regs memory mapped rest) = .ok b w' :=
      continue_heard options quiet alive rfl
    exact ⟨fun ⟨_, ran⟩ => go.mp ran, fun goes => ⟨⟨alive, by simp⟩, go.mpr goes⟩⟩
  last n w signo regs memory mapped rest alive next other := by
    refine ⟨{ (heard w signo regs memory mapped rest).thread with signo := none }, ⟨rfl, rfl, rfl⟩,
      fun b w' => ?_⟩
    have stop : signo ≠ .sigstop := by simpa [passedByCall] using other
    rw [callLoop, threadWait_bind_iff alive next]
    refine and_congr_right fun _ => ?_
    have ended : (pure (some signo) : Action arch (Option Signo))
        { heard w signo regs memory mapped rest with
          thread := { (heard w signo regs memory mapped rest).thread with signo := none } } = .ok b w' ↔
        b = some signo ∧ w' = { heard w signo regs memory mapped rest with
          thread := { (heard w signo regs memory mapped rest).thread with signo := none } } := by
      simp [eq_comm]
    rw [← ended]
    cases signo <;> first | exact absurd rfl stop | exact Iff.rfl

theorem restopLoop_loops : Loops (restopLoop : Nat → Action arch Unit) passedByRestop fun _ => () where
  faults := rfl
  zero _ _ _ ran := by cases ran
  ends n w b w' alive none ran := by
    cases n with
    | zero => cases ran
    | succ n =>
      obtain ⟨⟨⟩, v, waited, ran⟩ := bind_ran ran
      obtain ⟨-, outcome⟩ := threadWait_ran alive waited
      rcases outcome with ⟨signo, memory, mapped, next, -, -⟩ | ⟨-, dead⟩
      · exact absurd next (none _ _ _ _ _)
      · replace ran := get_bind_ran ran
        simp only [dead, ↓reduceIte] at ran
        cases ran
        exact dead
  pass n w signo regs memory mapped rest b w' alive options next passing := by
    have quiet : caught w signo = 0 := by
      have other : signo ≠ .sigsegv := by
        rintro rfl
        cases passing
      simp [caught, looks, other]
    rw [restopLoop, threadWait_bind_iff alive next, quiet]
    have go : (threadContinue >>= fun _ => restopLoop n) { heard w signo regs memory mapped rest with
          thread := (heard w signo regs memory mapped rest).thread } = .ok b w' ↔
        Granted 1 w ∧ restopLoop n (again w signo regs memory mapped rest) = .ok b w' :=
      continue_heard options quiet alive rfl
    rw [← go]
    cases signo <;> first | exact ⟨fun ⟨_, ran⟩ => ran,
      fun ran => ⟨⟨alive, by simp⟩, ran⟩⟩ | cases passing
  last n w signo regs memory mapped rest alive next other := by
    refine ⟨(heard w signo regs memory mapped rest).thread, ⟨rfl, rfl, rfl⟩, fun b w' => ?_⟩
    rw [restopLoop, threadWait_bind_iff alive next]
    refine and_congr_right fun _ => ?_
    have ended : (pure () : Action arch Unit) (heard w signo regs memory mapped rest) = .ok b w' ↔
        b = () ∧ w' = heard w signo regs memory mapped rest := by
      simp [eq_comm]
    refine Iff.trans ?_ ended
    cases signo <;> first | exact Iff.rfl | cases other

/-! ## The call -/

/-- The stack of the call, as it is prepared. -/
def prepared (context : arch.Context) (w : World arch) : EStateM.Result Stop (Pushing arch.width) Unit :=
  arch.pushStack (arch.setArguments context w.regs) context
    ⟨arch.sp (arch.setArguments context w.regs), w.inferior, []⟩

/-- The stop of a function that has returned. -/
def IsReturn (arch : Arch) (signo : Signo) (regs : arch.Regs) : Prop :=
  signo = .sigsegv ∧ arch.pc regs = 0

/-- How a call of a stopped thread comes out false with the thread alive, and what is then left of
the inferior: the execution state is not that of the context, a store on the stack is refused, or
the thread stops otherwise than on a return. All requests succeed on the way. -/
inductive Fails (context : arch.Context) (w : World arch) : Inferior arch.width → Prop
  | state (other : arch.suits w.regs context = false) (granted : Granted 1 w) :
  Fails context w w.inferior
  | stack {p : Pushing arch.width} (suits : arch.suits w.regs context = true)
      (refused : prepared context w = .error .refused p) (granted : Granted 2 w) :
      Fails context w { w.inferior with memory := p.inferior.memory }
  | stop {p : Pushing arch.width} {stops : List (Report arch)} {signo : Signo} {regs : arch.Regs}
      {memory : BitVec arch.width → BitVec 8} {mapped : BitVec arch.width → Bool}
        {rest : List (Report arch)}
      (suits : arch.suits w.regs context = true) (pushed : prepared context w = .ok () p)
      (reports : w.reports = stops ++ .signal signo regs memory mapped :: rest)
        (passed : ∀ r ∈ stops, IsStop r)
      (other : signo ≠ .sigstop) (elsewhere : ¬IsReturn arch signo regs)
      (granted : Granted (2 + resumes w.thread.setoptions + (stops.length + caught w signo) + 2) w) :
      Fails context w (left memory mapped)

/-- The call comes out false, with its thread alive and the inferior so. -/
def EndsFalse (x : Action arch (Bool × arch.Context)) (w : World arch)
    (inferior : Inferior arch.width) : Prop :=
  ∃ context w', x w = .ok (false, context) w' ∧ w'.inferior.dead = false ∧ w'.inferior = inferior

theorem isStop_iff (r : Report arch) :
    IsStop r ↔ ∃ signo regs memory mapped, r = .signal signo regs memory mapped ∧
    passedByCall signo = true := by
  cases r with
  | exited => simp [IsStop]
  | signal signo regs memory mapped => simp [IsStop, passedByCall]

/-- The call from the moment when its registers are set. -/
def callFrom (enters oldRegs : arch.Regs) (context : arch.Context) : Action arch (Bool × arch.Context) :=
  threadSetRegs enters >>= fun _ => threadContinue >>= fun _ => get >>= fun w =>
    callLoop (w.reports.length + 1) >>= fun
      | none => pure (false, context)
      | some signo => threadGetRegs >>= fun regs => threadSetRegs oldRegs >>= fun _ =>
          if signo = .sigsegv ∧ arch.pc regs = 0 then pure (true, arch.readRegisters regs context)
          else pure (false, context)

theorem fncallRun_eq (address : BitVec arch.width) (context : arch.Context) (oldRegs : arch.Regs) :
    fncallRun address context oldRegs =
      if arch.suits oldRegs context then prepareStack context (arch.setArguments context oldRegs) >>= fun
        | none => threadSetRegs oldRegs >>= fun _ => pure (false, context)
        | some regs => callFrom (arch.enter (address &&& ~~~1) (address.getLsbD 0) regs) oldRegs context
      else pure (false, context) := rfl

/-- From there on only the stops decide. -/
theorem callFrom_fails_iff (enters oldRegs : arch.Regs) (context : arch.Context)
    (inferior : Inferior arch.width)
    (alive : w.inferior.dead = false) (stopped : w.thread.running = false) :
    EndsFalse (callFrom enters oldRegs context) w inferior ↔
      ∃ stops signo regs memory mapped rest, w.reports =
        stops ++ .signal signo regs memory mapped :: rest ∧
        (∀ r ∈ stops, IsStop r) ∧ signo ≠ .sigstop ∧ ¬IsReturn arch signo regs ∧
        Granted (1 + resumes w.thread.setoptions + (stops.length + caught w signo) + 2) w ∧
        inferior = left memory mapped := by
  let v : World arch := resumed { spend 1 w with regs := enters }
  have vAlive : v.inferior.dead = false := alive
  have granted (n : Nat) : Granted (1 + resumes w.thread.setoptions + n) w ↔
      Granted 1 w ∧ Granted (resumes w.thread.setoptions) (spend 1 w) ∧ Granted n v := by
    have same : v.answers = (spend (1 + resumes w.thread.setoptions) w).answers := by
      simp only [v, resumed, spend, List.drop_drop]
    rw [granted_add, granted_add, and_assoc]
    refine and_congr_right fun _ => and_congr_right fun _ => ?_
    rw [Granted, Granted, same]
    rfl
  have begins (b : Bool × arch.Context) (w' : World arch) :
      callFrom enters oldRegs context w = .ok b w' ↔
      Granted 1 w ∧ Granted (resumes w.thread.setoptions) (spend 1 w) ∧
        (callLoop (v.reports.length + 1) >>= fun
          | none => pure (false, context)
          | some signo => threadGetRegs >>= fun regs => threadSetRegs oldRegs >>= fun _ =>
              if signo = .sigsegv ∧ arch.pc regs = 0 then pure (true, arch.readRegisters regs context)
              else pure (false, context) : Action arch (Bool × arch.Context)) v = .ok b w' := by
    rw [callFrom, threadSetRegs_bind_iff, threadContinue_bind_iff (w :=
      { spend 1 w with regs := enters }) alive stopped]
    simp only [stopped, true_and]
    exact Iff.rfl
  constructor
  · rintro ⟨context', w', ran, lives, rfl⟩
    obtain ⟨one, more, ran⟩ := (begins _ _).mp ran
    obtain ⟨signo, u, looped, ran⟩ := bind_ran ran
    cases signo with
    | none =>
      obtain ⟨-, dead⟩ := callLoop_ran vAlive looped
      cases ran
      rw [lives] at dead
      cases dead
    | some signo =>
      obtain ⟨-, read, ran⟩ := threadGetRegs_bind_iff.mp ran
      obtain ⟨-, written, ran⟩ := threadSetRegs_bind_iff.mp ran
      obtain ⟨stops, signo', regs, memory, mapped, rest, stopsAt, same, settled⟩ :=
        loop_ran callLoop_loops vAlive rfl looped read.1
      obtain rfl : signo = signo' := Option.some_inj.mp same
      have isRegs : u.regs = regs := by rw [settled.same]
      have isInferior : u.inferior = left memory mapped := by rw [settled.same]
      split at ran
      · cases ran
      · rename_i elsewhere
        cases ran
        refine ⟨stops, signo, regs, memory, mapped, rest, stopsAt.reports,
          fun r member => (isStop_iff r).mpr (stopsAt.passed r member),
          by simpa [passedByCall] using stopsAt.last,
          isRegs ▸ elsewhere, ?_, isInferior⟩
        rw [Nat.add_assoc, granted, granted_add]
        refine ⟨one, more, stopsAt.granted, (settled.granted vAlive 2).mp ?_⟩
        exact (granted_add 1 1).mpr ⟨read, written⟩
  · rintro ⟨stops, signo, regs, memory, mapped, rest, reports, passed, other, elsewhere, all, rfl⟩
    rw [Nat.add_assoc, granted, granted_add] at all
    obtain ⟨one, more, enough, last⟩ := all
    have stopsAt : StopsAt passedByCall v stops signo regs memory mapped rest :=
      ⟨reports, fun r member => (isStop_iff r).mp (passed r member),
        by simpa [passedByCall] using other, enough⟩
    have inside : stops.length < v.reports.length + 1 := by
      have length : v.reports.length = _ := congrArg List.length reports
      simp at length
      omega
    obtain ⟨u, looped, settled⟩ := loop_runs callLoop_loops rfl stopsAt inside
    obtain ⟨read, written⟩ := (granted_add 1 1).mp ((settled.granted vAlive 2).mpr last)
    have isRegs : u.regs = regs := by rw [settled.same]
    have isInferior : u.inferior = left memory mapped := by rw [settled.same]
    refine ⟨context, { spend 1 (spend 1 u) with regs := oldRegs }, (begins _ _).mpr ⟨one, more, ?_⟩,
      ?_, isInferior⟩
    · rw [bind_iff]
      refine ⟨some signo, u, looped, threadGetRegs_bind_iff.mpr ⟨settled.running, read, ?_⟩⟩
      refine threadSetRegs_bind_iff.mpr ⟨settled.running, written, ?_⟩
      rw [if_neg (isRegs ▸ elsewhere)]
      rfl
    · show u.inferior.dead = false
      rw [isInferior]
      rfl

theorem endsFalse_bind {x : Action arch α} {f : α → Action arch (Bool × arch.Context)} {a : α}
    {u : World arch}
    {inferior : Inferior arch.width} (ran : x w = .ok a u) : EndsFalse (x >>= f) w inferior ↔
    EndsFalse (f a) u inferior := by
  simp only [EndsFalse, run_bind, ran]

theorem endsFalse_pure {context : arch.Context} {inferior : Inferior arch.width} :
    EndsFalse (pure (false, context)) w inferior ↔ w.inferior.dead = false ∧ w.inferior = inferior := by
  constructor
  · rintro ⟨_, _, ran, alive, same⟩
    cases ran
    exact ⟨alive, same⟩
  · rintro ⟨alive, same⟩
    exact ⟨context, w, rfl, alive, same⟩

/-- The world in which the call is prepared. -/
def slave (w : World arch) : World arch :=
  spend 1 { w with thread := { w.thread with slavemode := true } }

/-- A call without a restop is about the registers that the thread has. -/
theorem fncallStart_endsFalse_iff (address : BitVec arch.width) (context : arch.Context)
    (inferior : Inferior arch.width)
    (stopped : w.thread.running = false) :
    EndsFalse (fncallStart address context) w inferior ↔
      w.thread.slavemode = false ∧ Granted 1 w ∧ EndsFalse (fncallRun address context w.regs)
      (slave w) inferior := by
  have starts (b : Bool × arch.Context) (w' : World arch) : fncallStart address context w = .ok b w' ↔
      w.thread.slavemode = false ∧ Granted 1 w ∧ (fncallRun address context w.regs >>= fun result =>
        setThread (fun t => { t with slavemode := false }) >>= fun _ => pure result) (slave w) =
          .ok b w' := by
    have begun : fncallStart address context w = (assert (!w.thread.slavemode) >>= fun _ =>
        setThread (fun t => { t with slavemode := true }) >>= fun _ => threadGetRegs >>= fun oldRegs =>
          fncallRun address context oldRegs >>= fun result =>
            setThread (fun t => { t with slavemode := false }) >>= fun _ => pure result) w := rfl
    rw [begun, assert_bind_iff, Bool.not_eq_true']
    refine and_congr_right fun _ => Iff.trans (threadGetRegs_bind_iff (w :=
      { w with thread := { w.thread with slavemode := true } })) ?_
    exact ⟨fun ⟨_, granted, ran⟩ => ⟨granted, ran⟩, fun ⟨granted, ran⟩ => ⟨stopped, granted, ran⟩⟩
  constructor
  · rintro ⟨context', w', ran, alive, same⟩
    obtain ⟨mode, granted, ran⟩ := (starts _ _).mp ran
    obtain ⟨result, u, ended, ran⟩ := bind_ran ran
    cases ran
    exact ⟨mode, granted, context', u, ended, alive, same⟩
  · rintro ⟨mode, granted, context', u, ended, alive, same⟩
    refine ⟨context', { u with thread := { u.thread with slavemode := false } },
      (starts _ _).mpr ⟨mode, granted, ?_⟩, alive, same⟩
    rw [bind_iff]
    exact ⟨_, u, ended, rfl⟩

/-- Which calls without a restop come out false. -/
theorem start_fails_iff (address : BitVec arch.width) (context : arch.Context)
    (inferior : Inferior arch.width)
    (stopped : w.thread.running = false) :
    EndsFalse (fncallStart address context) w inferior ↔ w.thread.slavemode = false ∧
    Fails context w inferior := by
  rw [fncallStart_endsFalse_iff address context inferior stopped]
  refine and_congr_right fun _ => ?_
  have next (n : Nat) : Granted n (slave w) ↔ Granted n (spend 1 w) := Iff.rfl
  rw [fncallRun_eq]
  cases suits : arch.suits w.regs context with
  | false =>
    simp only [Bool.false_eq_true, ↓reduceIte, endsFalse_pure]
    constructor
    · rintro ⟨granted, -, rfl⟩
      exact .state suits granted
    · intro fails
      cases fails with
      | state _ granted => exact ⟨granted, granted.1, rfl⟩
      | stack suits' => rw [suits] at suits'; cases suits'
      | stop suits' => rw [suits] at suits'; cases suits'
  | true =>
    have stack : arch.pushStack (arch.setArguments context w.regs) context
        ⟨arch.sp (arch.setArguments context w.regs), (slave w).inferior, []⟩ = prepared context w := rfl
    rw [if_pos rfl]
    cases result : prepared context w with
    | ok _ p =>
      let u : World arch := { slave w with inferior := { (slave w).inferior with memory := p.inferior.memory } }
      have pushes : prepareStack context (arch.setArguments context w.regs) (slave w) =
          .ok (some (arch.setSp p.sp (arch.setArguments context w.regs))) u := by
        simp only [prepareStack, run_bind, run_get, stack, result, run_modify, run_pure, u]
      rw [endsFalse_bind pushes]
      constructor
      · rintro ⟨granted, ends⟩
        obtain ⟨stops, signo, regs, memory, mapped, rest, reports, passed, other, elsewhere,
            more, rfl⟩ :=
          (callFrom_fails_iff (w := u) _ _ _ _ granted.1 stopped).mp ends
        refine .stop suits result reports passed other elsewhere ?_
        rw [Nat.add_assoc, Nat.add_assoc, show 2 = 1 + 1 from rfl, Nat.add_assoc, granted_add]
        refine ⟨granted, ?_⟩
        rw [Nat.add_assoc, Nat.add_assoc] at more
        exact more
      · intro fails
        cases fails with
        | state other => rw [suits] at other; cases other
        | stack _ refused => rw [result] at refused; cases refused
        | stop _ pushed reports passed other elsewhere granted =>
          rw [Nat.add_assoc, Nat.add_assoc, show 2 = 1 + 1 from rfl, Nat.add_assoc,
            granted_add] at granted
          refine ⟨granted.1, (callFrom_fails_iff (w := u) _ _ _ _ granted.1.1 stopped).mpr
            ⟨_, _, _, _, _, _, reports, passed, other, elsewhere, ?_, rfl⟩⟩
          rw [Nat.add_assoc, Nat.add_assoc]
          exact granted.2
    | error stop p =>
      cases stop with
      | refused =>
        let u : World arch := { slave w with inferior := { (slave w).inferior with memory := p.inferior.memory } }
        have pushes : prepareStack context (arch.setArguments context w.regs) (slave w) =
            .ok none u := by
          simp only [prepareStack, run_bind, run_get, stack, result, run_modify, run_pure, u]
        rw [endsFalse_bind pushes]
        constructor
        · rintro ⟨granted, context', w', ran, -, rfl⟩
          obtain ⟨-, set, ran⟩ := threadSetRegs_bind_iff.mp ran
          cases ran
          exact .stack suits result ((granted_add 1 1).mpr ⟨granted, set⟩)
        · intro fails
          cases fails with
          | state other => rw [suits] at other; cases other
          | stack _ refused granted =>
            rw [result] at refused
            cases refused
            obtain ⟨granted, set⟩ := (granted_add 1 1).mp granted
            exact ⟨granted, context, _, threadSetRegs_bind_iff.mpr ⟨stopped, set, rfl⟩, granted.1, rfl⟩
          | stop _ pushed => rw [result] at pushed; cases pushed
      | assertion | unending =>
        refine iff_of_false ?_ fun fails => ?_
        · rintro ⟨-, _, _, ran, -⟩
          obtain ⟨_, _, pushes, -⟩ := bind_ran ran
          simp only [prepareStack, run_bind, run_get, stack, result, run_throw] at pushes
          cases pushes
        · cases fails with
          | state other => rw [suits] at other; cases other
          | stack _ refused => rw [result] at refused; cases refused
          | stop _ pushed => rw [result] at pushed; cases pushed

/-! ## The restop -/

/-- What is done depends on the inferior and the segments only, and changes nothing but the inferior. -/
def Local (x : Action arch α) : Prop :=
  ∀ u v a u', u.inferior = v.inferior → u.segments = v.segments → x u = .ok a u' →
  x v = .ok a { v with inferior := u'.inferior }

theorem Local.frame {x : Action arch α} (local_ : Local x) {u u' : World arch} {a : α}
    (ran : x u = .ok a u') :
    u' = { u with inferior := u'.inferior } := by
  have again := local_ u u a u' rfl rfl ran
  rw [ran] at again
  exact (EStateM.Result.ok.inj again).2

theorem local_pure (a : α) : Local (pure a : Action arch α) := by
  rintro u v b u' inferior - ran
  cases ran
  rw [inferior]
  rfl

theorem local_bind {x : Action arch α} {f : α → Action arch β} (first : Local x)
    (second : ∀ a, Local (f a)) : Local (x >>= f) := by
  intro u v b u' inferior segments ran
  obtain ⟨a, t, begun, ended⟩ := bind_ran ran
  have frame := first.frame begun
  rw [run_bind, first u v a t inferior segments begun]
  refine second a t { v with inferior := t.inferior } b u' rfl ?_ ended
  rw [frame]
  exact segments

/-- A step may read the inferior and the segments. -/
theorem local_get {f : World arch → Action arch α} (rest : ∀ w, Local (f w))
    (same : ∀ u v : World arch, u.inferior = v.inferior → u.segments = v.segments → f u = f v) :
    Local (get >>= f) := by
  intro u v a u' inferior segments ran
  replace ran := get_bind_ran ran
  rw [same u v inferior segments] at ran
  exact rest v u v a u' inferior segments ran

theorem local_lift (result : Except Fault α) : Local (lift result : Action arch α) := by
  cases result with
  | ok a => exact local_pure a
  | error fault => exact fun _ _ _ _ _ _ ran => by cases ran

theorem local_lookAhead (address : BitVec arch.width) (kind : Kind) :
    Local (lookAhead address kind) := by
  refine local_get (fun w => ?_) fun u v inferior _ => by rw [inferior]
  split
  · exact local_bind (local_lift _) fun _ => local_pure _
  · exact local_pure kind

theorem local_patchInferior (address : BitVec arch.width) (kind : Kind) (insn : Word) :
    Local (patchInferior address kind insn) := by
  refine local_get (fun w => local_bind (local_lift _) fun patched => ?_) fun u v inferior _ =>
    by rw [inferior]
  obtain ⟨done, after⟩ := patched
  rintro u v b u' - - ran
  cases ran
  rfl

theorem local_placeBreakpoint (address : BitVec arch.width) (kind : Kind) :
    Local (placeBreakpoint address kind) := by
  refine local_get (fun w => local_bind (local_lift _) fun read => ?_) fun u v inferior _ =>
    by rw [inferior]
  obtain ⟨insn, kind⟩ := read
  cases insn with
  | none => exact fun _ _ _ _ _ _ ran => by cases ran
  | some insn =>
    refine local_bind (local_lookAhead _ _) fun kind =>
      local_bind (local_patchInferior _ _ _) fun done => ?_
    refine local_bind ?_ fun _ => local_bind (local_lookAhead _ _) fun _ => local_pure _
    cases done with
    | true => exact local_pure ()
    | false => exact fun _ _ _ _ _ _ ran => by cases ran

theorem local_patchAtPc (regs : arch.Regs) : Local (patchAtPc regs) := by
  refine local_get (fun w => ?_) fun u v _ segments => by rw [segments]
  split
  · exact local_bind (local_placeBreakpoint _ _) fun _ => local_pure _
  · exact local_pure none

theorem local_revertPatch (address : BitVec arch.width) (patch : Option (Word × Kind)) :
    Local (revertPatch address patch) := by
  cases patch with
  | none => exact local_pure ()
  | some patch =>
    exact local_bind (local_lookAhead _ _) fun _ => local_bind (local_patchInferior _ _ _) fun _ =>
      local_bind (local_lookAhead _ _) fun _ => local_pure ()

/-- The stops that a restop passes over. -/
def IsPassed : Report arch → Prop
  | .signal signo _ _ _ => signo ≠ .sigsegv ∧ signo ≠ .sigtrap ∧ signo ≠ .sigbus
  | .exited => False

/-- How a thread that executes another program is stopped anew: a breakpoint goes to the program
counter, the thread runs up to a trap, and where the breakpoint was the instruction is put back,
into the memory that the run has left. -/
inductive Restops (w : World arch) : World arch → Prop
  | trap {patch : Option (Word × Kind)} {planted reverted : World arch} {stops : List (Report arch)}
  {signo : Signo}
      {regs : arch.Regs} {memory : BitVec arch.width → BitVec 8} {mapped : BitVec arch.width → Bool}
        {rest : List (Report arch)}
      (patched : patchAtPc w.regs w = .ok patch planted)
      (reports : w.reports = stops ++ .signal signo regs memory mapped :: rest)
        (passed : ∀ r ∈ stops, IsPassed r)
      (trap : signo = .sigsegv ∨ signo = .sigtrap ∨ signo = .sigbus)
      (granted : Granted (1 + resumes w.thread.setoptions + (stops.length + caught w signo) + 2) w)
      (reverts : revertPatch (arch.pc w.regs) patch { w with inferior := left memory mapped } =
        .ok () reverted) :
      Restops w
        { spend (1 + resumes w.thread.setoptions + (stops.length + caught w signo) + 2) w with
          thread := { w.thread with setoptions := false }
          inferior := reverted.inferior
          reports := rest }

theorem isPassed_iff (r : Report arch) :
    IsPassed r ↔ ∃ signo regs memory mapped, r = .signal signo regs memory mapped ∧
    passedByRestop signo = true := by
  cases r with
  | exited => simp [IsPassed]
  | signal signo regs memory mapped => simp [IsPassed, passedByRestop, and_assoc]

theorem trap_iff (signo : Signo) : (signo = .sigsegv ∨ signo = .sigtrap ∨ signo = .sigbus) ↔
    passedByRestop signo = false := by
  simp [passedByRestop, or_iff_not_imp_left]

/-- What follows when the thread has come to the trap. -/
def afterTrap (regs : arch.Regs) (patch : Option (Word × Kind)) : Action arch Bool :=
  get >>= fun w =>
    if w.inferior.dead then pure false
    else setThread (fun t => { t with signo := none }) >>= fun _ => threadGetRegs >>= fun _ =>
      threadSetRegs regs >>= fun _ =>
      revertPatch (arch.pc regs) patch >>= fun _ =>
        setThread (fun t => { t with slavemode := false }) >>= fun _ => pure true

theorem fncallRestop_iff (stopped : w.thread.running = false) (b : Bool) : fncallRestop w = .ok b w' ↔
    w.thread.slavemode = false ∧ Granted 1 w ∧
    (patchAtPc w.regs >>= fun patch => threadContinue >>= fun _ =>
      restopLoop (w.reports.length + 1) >>= fun _ => afterTrap w.regs patch) (slave w) = .ok b w' := by
  have begun : fncallRestop w = (assert (!w.thread.slavemode) >>= fun _ =>
      setThread (fun t => { t with slavemode := true }) >>= fun _ => threadGetRegs >>= fun regs =>
        patchAtPc regs >>= fun patch => threadContinue >>= fun _ =>
          restopLoop (w.reports.length + 1) >>= fun _ =>
          afterTrap regs patch) w := rfl
  rw [begun, assert_bind_iff, Bool.not_eq_true']
  refine and_congr_right fun _ => Iff.trans (threadGetRegs_bind_iff (w :=
    { w with thread := { w.thread with slavemode := true } })) ?_
  exact ⟨fun ⟨_, granted, ran⟩ => ⟨granted, ran⟩, fun ⟨granted, ran⟩ => ⟨stopped, granted, ran⟩⟩

/-- A thread that is stopped, and not in slave mode. -/
structure Idle (t : Thread) : Prop where
  running : t.running = false
  options : t.setoptions = false
  mode : t.slavemode = false

/-- Behind the trap, only the instruction is put back. -/
theorem afterTrap_iff {oldRegs : arch.Regs} {patch : Option (Word × Kind)}
    (alive : w.inferior.dead = false)
    (stopped : w.thread.running = false) :
    afterTrap oldRegs patch w = .ok true w' ↔
    Granted 2 w ∧ ∃ reverted, revertPatch (arch.pc oldRegs) patch w = .ok () reverted ∧
      w' = { spend 2 w with
        thread := { w.thread with signo := none, slavemode := false }
        regs := oldRegs
        inferior := reverted.inferior } := by
  have path : afterTrap oldRegs patch w = (threadGetRegs >>= fun _ => threadSetRegs oldRegs >>= fun _ =>
      revertPatch (arch.pc oldRegs) patch >>= fun _ =>
        setThread (fun t => { t with slavemode := false }) >>= fun _ => pure true)
      { w with thread := { w.thread with signo := none } } := by
    rw [afterTrap, run_bind, run_get]
    simp only [alive, Bool.false_eq_true, ↓reduceIte]
    rfl
  let u : World arch := { spend 1 (spend 1 { w with thread := { w.thread with signo := none } }) with regs := oldRegs }
  rw [path, threadGetRegs_bind_iff, threadSetRegs_bind_iff, bind_iff, granted_add 1 1,
    and_assoc, ← spend_spend 1 1]
  constructor
  · rintro ⟨-, one, -, two, ⟨⟩, v, reverts, ran⟩
    have reverts' : revertPatch (arch.pc oldRegs) patch u = .ok () v := reverts
    have frame := (local_revertPatch _ _).frame reverts'
    refine ⟨one, two, _, local_revertPatch _ _ u w () v rfl rfl reverts', ?_⟩
    cases ran
    rw [frame]
    rfl
  · rintro ⟨one, two, v, reverts, rfl⟩
    exact ⟨stopped, one, stopped, two, (), _, local_revertPatch _ _ w u () v rfl rfl reverts, rfl⟩

theorem afterTrap_alive {oldRegs : arch.Regs} {patch : Option (Word × Kind)}
    (ran : afterTrap oldRegs patch w = .ok true w') :
    w.inferior.dead = false := by
  replace ran := get_bind_ran ran
  split at ran
  · cases ran
  · rename_i alive
    simpa using alive

/-- The requests of a restop, up to the trap and behind it. -/
theorem granted_restop {u : World arch} (alive : u.inferior.dead = w.inferior.dead)
    (answers : u.answers = (spend 1 w).answers) (n : Nat) :
    Granted (1 + resumes u.thread.setoptions + n + 2) w ↔
    Granted 1 w ∧ Granted (resumes u.thread.setoptions) u ∧
      Granted n (resumed u) ∧ Granted 2 (spend n (resumed u)) := by
  have same (k : Nat) : Granted k u ↔ Granted k (spend 1 w) :=
    by rw [Granted, Granted, alive, answers]; exact Iff.rfl
  rw [Nat.add_assoc, Nat.add_assoc, granted_add, ← same, granted_add, granted_add]
  exact Iff.rfl

/-- A restop that succeeds goes over the stops that it should. -/
theorem restop_ran (stopped : w.thread.running = false) (ran : fncallRestop w = .ok true w') :
    w.thread.slavemode = false ∧ ∃ v, Restops w v ∧ Idle w'.thread ∧
    w' = { v with thread := w'.thread } := by
  obtain ⟨mode, one, ran⟩ := (fncallRestop_iff stopped true).mp ran
  refine ⟨mode, ?_⟩
  obtain ⟨patch, u, patched, ran⟩ := bind_ran ran
  have frame := (local_patchAtPc w.regs).frame patched
  have here := local_patchAtPc w.regs (slave w) w patch u rfl rfl patched
  have dead : u.inferior.dead = w.inferior.dead := (steady_patchAtPc w.regs _ _ _ patched).dead
  have alive : u.inferior.dead = false := dead.trans one.1
  have halted : u.thread.running = false := by rw [frame]; exact stopped
  have options : u.thread.setoptions = w.thread.setoptions := by rw [frame]; rfl
  have reports : u.reports = w.reports := by rw [frame]; rfl
  have answers : u.answers = (spend 1 w).answers := by rw [frame]; rfl
  obtain ⟨more, ran⟩ := (threadContinue_bind_iff alive halted).mp ran
  obtain ⟨⟨⟩, t, looped, ran⟩ := bind_ran ran
  have lives := afterTrap_alive ran
  obtain ⟨stops, signo, regs, memory, mapped, rest, stopsAt, -, settled⟩ :=
    loop_ran (w := resumed u) restopLoop_loops alive rfl looped lives
  obtain ⟨last, reverted, reverts, rfl⟩ := (afterTrap_iff lives settled.running).mp ran
  have looking : caught (resumed u) signo = caught w signo := by rw [frame]; rfl
  have granted : Granted (1 + resumes w.thread.setoptions + (stops.length + caught w signo) + 2) w := by
    rw [← options, granted_restop dead answers, ← looking]
    exact ⟨one, more, stopsAt.granted, (settled.granted alive 2).mp last⟩
  have reverts' := local_revertPatch _ _ t { w with inferior := left memory mapped } () reverted
    (by rw [settled.same])
    (by rw [settled.same, frame]; rfl) reverts
  refine ⟨_, .trap here (reports ▸ stopsAt.reports) (fun r member =>
    (isPassed_iff r).mpr (stopsAt.passed r member))
    ((trap_iff signo).mpr stopsAt.last) granted reverts', ⟨settled.running, settled.options, rfl⟩, ?_⟩
  rw [settled.same, looking, resumed, options, frame]
  simp only [slave, spend, List.drop_drop]

/-- And where the stops are so, a restop succeeds. -/
theorem restop_runs (stopped : w.thread.running = false) (mode : w.thread.slavemode = false)
    {v : World arch} (restops : Restops w v) :
    ∃ w', fncallRestop w = .ok true w' ∧ Idle w'.thread ∧ w' = { v with thread := w'.thread } := by
  cases restops with
  | @trap patch planted reverted stops signo regs memory mapped rest patched reports passed trap granted reverts =>
    let u : World arch := { slave w with inferior := planted.inferior }
    have there : patchAtPc w.regs (slave w) = .ok patch u :=
      local_patchAtPc _ w (slave w) patch planted rfl rfl patched
    have dead : u.inferior.dead = w.inferior.dead := (steady_patchAtPc w.regs _ _ _ patched).dead
    obtain ⟨one, more, enough, last⟩ := (granted_restop (u := u) dead rfl _).mp granted
    have alive : u.inferior.dead = false := dead.trans one.1
    have stopsAt : StopsAt passedByRestop (resumed u) stops signo regs memory mapped rest :=
      ⟨reports, fun r member => (isPassed_iff r).mp (passed r member), (trap_iff signo).mp trap, enough⟩
    have inside : stops.length < w.reports.length + 1 := by
      rw [reports, List.length_append]
      omega
    obtain ⟨t, looped, settled⟩ := loop_runs restopLoop_loops rfl stopsAt inside
    have lives : t.inferior.dead = false := by
      rw [settled.same]
      rfl
    have reverts' := local_revertPatch _ _ { w with inferior := left memory mapped } t () reverted
      (by rw [settled.same])
      (by rw [settled.same]; rfl) reverts
    let w' : World arch := { spend 2 t with
      thread := { t.thread with signo := none, slavemode := false }
      regs := w.regs
      inferior := reverted.inferior }
    have ended : afterTrap w.regs patch t = .ok true w' :=
      (afterTrap_iff lives settled.running).mpr ⟨(settled.granted alive 2).mpr last, _, reverts', rfl⟩
    refine ⟨w', (fncallRestop_iff stopped true).mpr ⟨mode, one, ?_⟩,
      ⟨settled.running, settled.options, rfl⟩, ?_⟩
    · rw [bind_iff]
      refine ⟨patch, u, there, (threadContinue_bind_iff alive stopped).mpr ⟨more, ?_⟩⟩
      rw [bind_iff]
      exact ⟨(), t, looped, ended⟩
    · simp only [w']
      rw [settled.same]
      simp only [u, resumed, slave, spend, List.drop_drop, caught, looks]
      rfl

/-! ## Which calls fail -/

/-- What fails does so whatever the thread's other flags are. -/
theorem Fails.thread {context : arch.Context} {inferior : Inferior arch.width} {t : Thread}
    (options : t.setoptions = w.thread.setoptions) (fails : Fails context w inferior) :
    Fails context { w with thread := t } inferior := by
  cases fails with
  | state other granted => exact .state other granted
  | stack suits refused granted => exact .stack suits refused granted
  | stop suits pushed reports passed other elsewhere granted =>
    exact .stop suits pushed reports passed other elsewhere (by rw [options]; exact granted)

/-- A call fails as its thread is, or as a restop leaves it. -/
def CallFails (context : arch.Context) (w : World arch) (inferior : Inferior arch.width) : Prop :=
  w.thread.slavemode = false ∧
    if w.thread.execed then ∃ v, Restops w v ∧ Fails context v inferior else Fails context w inferior

/-- Which calls come out false with their thread alive, and what they leave. -/
theorem call_fails_iff (address : BitVec arch.width) (context : arch.Context)
    (inferior : Inferior arch.width)
    (stopped : w.thread.running = false) :
    EndsFalse (fncallCall arch address context) w inferior ↔ CallFails context w inferior := by
  rw [CallFails]
  cases execed : w.thread.execed with
  | false =>
    have started : fncallCall arch address context w = fncallStart address context w := by
      rw [fncallCall, run_bind, run_get]
      simp only [execed, Bool.false_eq_true, ↓reduceIte]
    rw [EndsFalse, started, ← EndsFalse, if_neg (by decide)]
    exact start_fails_iff address context inferior stopped
  | true =>
    have began : fncallCall arch address context w = (fncallRestop >>= fun restopped =>
        if restopped then
          setThread (fun t => { t with execed := false }) >>= fun _ => fncallStart address context
        else setThread (fun t => { t with slavemode := false }) >>= fun _ =>
        pure (false, context)) w := by
      rw [fncallCall, run_bind, run_get]
      simp only [execed, ↓reduceIte]
    -- A restop leaves a world that is the one of `Restops`, but for flags of the thread that do not
    -- matter.
    have started {v w' : World arch} (idle : Idle w'.thread) (same : w' = { v with thread := w'.thread })
        (options : v.thread.setoptions = false) :
        EndsFalse (setThread (fun t => { t with execed := false }) >>= fun _ =>
          fncallStart address context) w' inferior ↔
          Fails context v inferior := by
      let t : Thread := { w'.thread with execed := false }
      have isT : ({ w' with thread := t } : World arch) = { v with thread := t } := by
        rw [same]
      rw [endsFalse_bind (u := { v with thread := t }) (a := ()) (by rw [← isT]; rfl),
        start_fails_iff (w := { v with thread := t }) address context inferior idle.running]
      refine ⟨fun ⟨_, fails⟩ => ?_,
        fun fails => ⟨idle.mode, fails.thread (idle.options.trans options.symm)⟩⟩
      exact Fails.thread (w := { v with thread := t }) (t :=
        v.thread) (options.trans idle.options.symm) fails
    rw [EndsFalse, began, ← EndsFalse, if_pos rfl]
    constructor
    · rintro ⟨context', w', ran, alive, same⟩
      obtain ⟨restopped, u, restop, ran⟩ := bind_ran ran
      cases restopped with
      | false =>
        have dead : u.inferior.dead = true := fncallRestop_ran restop
        cases ran
        exact absurd (alive.symm.trans dead) (by decide)
      | true =>
        obtain ⟨mode, v, restops, idle, isU⟩ := restop_ran stopped restop
        have options : v.thread.setoptions = false := by
          cases restops
          rfl
        exact ⟨mode, v, restops, (started idle isU options).mp ⟨context', w', ran, alive, same⟩⟩
    · rintro ⟨mode, v, restops, fails⟩
      obtain ⟨u, restop, idle, isU⟩ := restop_runs stopped mode restops
      have options : v.thread.setoptions = false := by
        cases restops
        rfl
      rw [endsFalse_bind restop, if_pos rfl]
      exact (started idle isU options).mpr fails

end Adbi.CallEndsProofs
