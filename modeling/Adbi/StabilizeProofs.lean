import Adbi.CallProofs
import Adbi.RegistryProofs
import Adbi.Stabilize

/-! When stabilizing a process succeeds. The loop leaves every thread outside
the trampolines and injections unless a thread is held inside one, by a
breakpoint at a return site of a trampoline, or starts a thread that nobody
waits for. -/
namespace Adbi.StabilizeProofs
open Adbi.Lib Adbi.Tracee Adbi.CallProofs Adbi.Registry Adbi.RegistryProofs Adbi.Stabilize

variable {g : Injection.ImportGraph} {births : Pid → Birth} {s : Server} {process : Pid}
  {layout : Layout}

/-! ## What the threads may do -/

/-- The process as its callers leave it to `process_stabilize`: every thread is
stopped, and the requests to stop were answered. -/
structure Stopped (s : Server) (process : Pid) (record : Process) : Prop where
  registered : s.processes process = some record
  calm : record.stabilizing = false
  listed : ∀ pid, pid ∈ record.threads ↔ ∃ e, s.threads pid = some e ∧ e.process = process
  alive : ∀ pid t, threadIn s process pid = some t → t.dead = false
  stopped : ∀ pid t, threadIn s process pid = some t → t.running = false
  free : ∀ pid t, threadIn s process pid = some t → t.slavemode = false
  unasked : ∀ pid t, threadIn s process pid = some t → t.stopme = false

/-- Every thread of the process is stopped outside all trampolines and injections. -/
def AllStable (s : Server) (process : Pid) : Prop :=
  ∀ record, s.processes process = some record →
  ∀ pid ∈ record.threads, ∀ t, threadIn s process pid = some t →
    t.running = false ∧ record.layout.artificial t.regs.pc = false

/-- The stops at which a thread of a stabilizing process is held: a breakpoint
with a jump, and a segmentation fault in code. -/
def holds (layout : Layout) (signo : Signo) (pc : Address) : Bool :=
  isTrap signo && (layout.jump pc).isSome || (signo = .sigsegv && layout.code pc)

/-- A child of `pid` that is known already, or belongs to another process. -/
structure Elsewhere (births : Pid → Birth) (s : Server) (process pid child : Pid) : Prop where
  birth : (births child).child = child
  different : child ≠ pid
  apart : s.threads child ≠ none ∨ ((births child).tgid ≠ process ∧ child ≠ process)

/-- A report after which the thread either goes on or is stable, and which adds
no thread to the process. An exec and the linker breakpoint are no business of
a thread that runs in a trampoline. -/
def Harmless (births : Pid → Birth) (layout : Layout) (s : Server) (process pid : Pid) : Report → Prop
  | .signal signo regs _ =>
    (holds layout signo regs.pc = true → layout.artificial regs.pc = false) ∧
      (isTrap signo = true → regs.pc ≠ layout.linkerBkpt ∨ layout.jump regs.pc ≠ none)
  | .clone child => Elsewhere births s process pid child
  | .exec _ _ => False
  | .exited => True

/-- The reports of one wait are harmless, and a call made meanwhile meets only signals and exits. -/
def Admits (births : Pid → Birth) (layout : Layout) (process : Pid) (round : Round)
    (state : Server × Nat) (pid : Pid) :
    Prop :=
  runs state.1 process pid = true → ∀ wait, round pid = some wait →
    Harmless births layout state.1 process pid wait.report ∧ ∀ r ∈ wait.nested, Plain r

/-- Every wait of the loop is admitted in the state in which it happens. -/
def AdmitsRounds (g : Injection.ImportGraph) (births : Pid → Birth) (layout : Layout) (process : Pid)
    (unstable : List Pid) : List Round → Server → Prop
  | [], _ => True
  | round :: rounds, s =>
    Guarded (poll g births process round) (Admits births layout process round) (s, 0) unstable ∧
      ∀ s' stillRunning, runAll (poll g births process round) (s, 0) unstable = .ok (s', stillRunning) →
        AdmitsRounds g births layout process unstable rounds s'

/-- The environment keeps to all this. -/
structure Admitted (g : Injection.ImportGraph) (births : Pid → Birth) (layout : Layout) (process : Pid)
    (conduct : Conduct) (unstable : List Pid) (s : Server) : Prop where
  protecting : ∀ a ∈ conduct.protecting, ∀ r ∈ a.reports, Plain r
  rounds : ∀ s', segmentSetExecutableAll g births process conduct.protecting conduct.segments s =
      .ok s' →
    AdmitsRounds g births layout process (conduct.arrange unstable) conduct.rounds
      (continueAll process (conduct.arrange unstable) (setStabilizing s' process true))
  restoring : ∀ a ∈ conduct.restoring, ∀ r ∈ a.reports, Plain r

/-! ## One thread -/

/-- A thread that is not in the middle of anything: if it runs, `may` knows it,
and if it is stopped in a trampoline or injection, `waits` does. -/
structure Rests (layout : Layout) (may waits : Pid → Prop) (pid : Pid) (t : Thread) : Prop where
  alive : t.dead = false
  free : t.slavemode = false
  unasked : t.stopme = false
  running : t.running = true → may pid
  stopped : t.running = false → layout.artificial t.regs.pc = true → waits pid

private theorem rests_continued {may waits : Pid → Prop} {t : Thread}
    (rests : Rests layout may waits pid t)
    (allowed : may pid) : Rests layout may (fun _ => False) pid (threadContinue none t) := by
  have alive := rests.alive
  cases runs : t.running <;> simp only [threadContinue, alive, runs, Bool.or_self, Bool.or_true,
      Bool.false_eq_true, ↓reduceIte]
  · exact ⟨rfl, rests.free, rests.unasked, fun _ => allowed, fun absurd => by simp at absurd⟩
  · exact ⟨rests.alive, rests.free, rests.unasked, fun _ => allowed,
      fun absurd => by simp [runs] at absurd⟩

/-- A thread that a report lets run on, or that dies of it. -/
private def GoesOn (t : Thread) : Prop :=
  t.dead = true ∨ (t.dead = false ∧ t.slavemode = false ∧ t.stopme = false ∧ t.running = true)

private theorem continued_goesOn (signo : Option Signal) {w : World} (ready : Ready w)
    (unasked : w.thread.stopme = false) :
    GoesOn (threadContinue signo w.thread) := by
  right
  simp only [threadContinue, ready.alive, ready.stopped, Bool.or_self, Bool.false_eq_true, ↓reduceIte]
  cases signo <;> exact ⟨rfl, ready.free, unasked, rfl⟩

/-- Announced or not, a thread nobody asked to stop goes on. -/
private theorem resume_goesOn (signo : Option Signal) (ready : Ready w)
    (unasked : w.thread.stopme = false)
    (plain : ∀ r ∈ w.reports, Plain r) (ok : threadContinueOrStop fncallCall signo w = .ok () w') :
    Frame w w' ∧ GoesOn w'.thread := by
  cases notified : w.thread.notified with
  | true =>
    rw [resume_announced signo ready unasked notified] at ok
    cases ok
    exact ⟨⟨rfl, rfl, rfl⟩, continued_goesOn signo ready unasked⟩
  | false =>
    rw [resume_unannounced signo ready unasked notified] at ok
    have ends := calls_end (w.layout.handlers w.leader) ready
    cases ending : callsEnd w.thread.execed w.layout (w.layout.handlers w.leader) w.reports with
    | none =>
      rw [ending] at ends
      obtain ⟨fault, v, failed⟩ := ends
      rw [failed] at ok
      cases ok
    | some ending' =>
      rw [ending] at ends
      obtain ⟨v, ran, settled⟩ := ends
      rw [ran] at ok
      cases ok
      have frame := settled.frame (.inr plain)
      refine ⟨⟨frame.layout, frame.children, frame.alone⟩, ?_⟩
      have announced : Ready v → GoesOn (threadContinue signo { v.thread with notified := true }) :=
        fun ready' =>
        continued_goesOn (w := { v with thread := { v.thread with notified := true } }) signo
          ⟨ready'.alive, ready'.stopped, ready'.free⟩ (settled.unasked unasked)
      cases fate : ending'.fate with
      | untouched =>
        cases settled.untouched fate
        exact announced ready
      | survived => exact announced (settled.survived fate).1
      | died =>
        left
        simp [threadContinue, (settled.died fate).dead]

/-- The children that a report makes known. -/
private def born : Report → List Pid
  | .clone child => [child]
  | _ => []

/-- What a harmless report does to a running thread of a stabilizing process:
it dies, goes on, or is held outside the trampolines and injections. -/
private structure Reported (report : Report) (w w' : World) : Prop where
  layout : w'.layout = w.layout
  alone : w'.alone = w.alone
  children : w'.children = born report ++ w.children
  thread : GoesOn w'.thread ∨
    (w'.thread.dead = false ∧ w'.thread.slavemode = false ∧ w'.thread.stopme = false ∧
      w'.thread.running = false ∧
      w.layout.artificial w'.thread.regs.pc = false)

private theorem Reported.of_goesOn {w v w' : World} (goes : Frame v w' ∧ GoesOn w'.thread)
    (layout : v.layout = w.layout)
    (alone : v.alone = w.alone) (children : v.children = born report ++ w.children) :
    Reported report w w' :=
  ⟨goes.1.layout.trans layout, goes.1.alone.trans alone, goes.1.children.trans children, .inl goes.2⟩

/-- The thread once `thread_handle_status` has seen a stop. -/
private def halted (signo : Signo) (regs : Regs) (w : World) : World :=
  { w with thread := { (stoppedBy signo w.thread).2 with running := false, regs := regs } }

private theorem halted_ready (signo : Signo) (regs : Regs) (alive : w.thread.dead = false)
    (free : w.thread.slavemode = false) : Ready (halted signo regs w) := by
  unfold halted stoppedBy
  split <;> exact ⟨alive, rfl, free⟩

private theorem halted_unasked (signo : Signo) (regs : Regs) (unasked : w.thread.stopme = false) :
    (halted signo regs w).thread.stopme = false := by
  unfold halted stoppedBy
  split <;> exact unasked

/-- A signal that is none of the server's breakpoints. -/
private theorem signal_reported (stabilizing : w.stabilizing = true) (alive : w.thread.dead = false)
    (free : w.thread.slavemode = false) (unasked : w.thread.stopme = false)
    (plain : ∀ r ∈ w.reports, Plain r)
    (safe : signal.signo = .sigsegv → w.layout.code regs.pc = true → w.layout.artificial regs.pc = false)
    (ok : threadHandleSignal fncallCall signal (halted signo regs w) = .ok () w') :
    Reported (.signal signo regs rescan) w w' := by
  have ready := halted_ready signo regs alive free
  have quiet := halted_unasked signo regs unasked
  by_cases held : signal.signo = .sigsegv ∧ w.layout.code regs.pc = true
  · have stays : threadHandleSignal fncallCall signal (halted signo regs w) =
        .ok () { halted signo regs w with thread := { (halted signo regs w).thread with signo := some signal } } := by
      simp [threadHandleSignal, halted, stabilizing, held, setThread]
    rw [stays] at ok
    cases ok
    exact ⟨rfl, rfl, rfl, .inr ⟨ready.alive, ready.free, quiet, rfl, safe held.1 held.2⟩⟩
  · have goes : threadHandleSignal fncallCall signal (halted signo regs w) =
        threadContinueOrStop fncallCall (some signal) (halted signo regs w) := by
      simp [threadHandleSignal, halted, stabilizing, held]
    rw [goes] at ok
    exact .of_goesOn (resume_goesOn _ ready quiet plain ok) rfl rfl rfl

private theorem trap_reported (stabilizing : w.stabilizing = true) (alive : w.thread.dead = false)
    (free : w.thread.slavemode = false) (unasked : w.thread.stopme = false)
    (plain : ∀ r ∈ w.reports, Plain r)
    (harmless : Harmless births w.layout s process pid (.signal signo regs rescan))
    (trap : isTrap signo = true)
    (ok : threadHandleStatus fncallCall (.signal signo regs rescan) w = .ok () w') :
    Reported (.signal signo regs rescan) w w' := by
  obtain ⟨safe, natural⟩ := harmless
  have ready := halted_ready signo regs alive free
  have quiet := halted_unasked signo regs unasked
  have offered : threadHandleStatus fncallCall (.signal signo regs rescan) w =
      (do
        let handled ← threadTrap fncallCall rescan
        unlessSo handled (threadHandleSignal fncallCall (stoppedBy signo w.thread).1) : Action Unit)
      (halted signo regs w) := by
    simp [threadHandleStatus, free, trap, setThread, halted]
  rw [offered] at ok
  cases jump : w.layout.jump regs.pc with
  | some target =>
    have held : threadTrap fncallCall rescan (halted signo regs w) = .ok true (halted signo regs w) := by
      have alive' := ready.alive
      simp only [halted] at alive' ⊢
      simp [threadTrap, threadGetRegs, assert, alive', jump, stabilizing, unlessSo]
    simp only [run_bind, held, unlessSo, ↓reduceIte, run_pure] at ok
    cases ok
    refine ⟨rfl, rfl, rfl, .inr ⟨ready.alive, ready.free, quiet, rfl, safe ?_⟩⟩
    simp [holds, trap, jump]
  | none =>
    have apart : regs.pc ≠ w.layout.linkerBkpt := (natural trap).resolve_right (by simp [jump])
    have passed : threadTrap fncallCall rescan (halted signo regs w) =
        .ok false (halted signo regs w) := by
      have alive' := ready.alive
      simp only [halted] at alive' ⊢
      simp [threadTrap, threadGetRegs, assert, alive', jump, apart]
    simp only [run_bind, passed, unlessSo, Bool.false_eq_true, ↓reduceIte] at ok
    apply signal_reported stabilizing alive free unasked plain ?_ ok
    intro fault
    have same : (stoppedBy signo w.thread).1.signo = signo := by
      unfold stoppedBy
      split <;> rfl
    rw [same] at fault
    rw [fault] at trap
    cases trap

private theorem status_reported (stabilizing : w.stabilizing = true) (alive : w.thread.dead = false)
    (free : w.thread.slavemode = false) (unasked : w.thread.stopme = false)
    (plain : ∀ r ∈ w.reports, Plain r)
    (harmless : Harmless births w.layout s process pid report)
    (ok : threadHandleStatus fncallCall report w = .ok () w') : Reported report w w' := by
  cases report with
  | exited =>
    cases ok
    exact ⟨rfl, rfl, rfl, .inl (.inl rfl)⟩
  | clone child =>
    have goes := resume_goesOn none (w := { w with
        children := child :: w.children, thread :=
        { w.thread with running := false, setoptions := true } })
      ⟨alive, rfl, free⟩ unasked plain ok
    exact .of_goesOn goes rfl rfl rfl
  | exec regs rescan => exact harmless.elim
  | signal signo regs rescan =>
    cases trap : isTrap signo with
    | true => exact trap_reported stabilizing alive free unasked plain harmless trap ok
    | false =>
      have passed : threadHandleStatus fncallCall (.signal signo regs rescan) w =
          threadHandleSignal fncallCall (stoppedBy signo w.thread).1 (halted signo regs w) := by
        simp [threadHandleStatus, trap, setThread, halted]
      rw [passed] at ok
      apply signal_reported stabilizing alive free unasked plain ?_ ok
      intro fault code
      have same : (stoppedBy signo w.thread).1.signo = signo := by
        unfold stoppedBy
        split <;> rfl
      rw [same] at fault
      exact harmless.1 (by simp [holds, fault, code])

/-! ## The registry -/

/-- The process has one layout throughout and its threads all satisfy `Q`. -/
structure Kept (on : Bool) (layout : Layout) (process : Pid) (Q : Pid → Thread → Prop)
    (s : Server) : Prop where
  listed : ∀ record, s.processes process = some record →
    ∀ pid, pid ∈ record.threads ↔ ∃ e, s.threads pid = some e ∧ e.process = process
  layout : ∀ record, s.processes process = some record → record.layout = layout
  stabilizing : ∀ record, s.processes process = some record → record.stabilizing = on
  each : ∀ pid e, s.threads pid = some e → e.process = process → Q pid e.thread

variable {on : Bool} {Q R : Pid → Thread → Prop}

private theorem Kept.imp (kept : Kept on layout process Q s) (weaker : ∀ pid t, Q pid t → R pid t) :
    Kept on layout process R s :=
  ⟨kept.listed, kept.layout, kept.stabilizing,
    fun pid e found home => weaker pid e.thread (kept.each pid e found home)⟩

private theorem threadIn_some (found : threadIn s process pid = some t) :
    s.threads pid = some ⟨process, t⟩ := by
  unfold threadIn at found
  cases known : s.threads pid with
  | none => simp [known] at found
  | some e =>
    rw [known] at found
    by_cases home : e.process = process
    · simp only [Option.filter, home, decide_true, ↓reduceIte, Option.map_some,
        Option.some.injEq] at found
      subst home found
      rfl
    · simp [Option.filter, home] at found

private theorem threadIn_entry (found : s.threads pid = some e) (home : e.process = process) :
    threadIn s process pid = some e.thread := by
  simp [threadIn, found, Option.filter, home]

private theorem Kept.thread (kept : Kept on layout process Q s)
    (found : threadIn s process pid = some t) : Q pid t :=
  kept.each pid ⟨process, t⟩ (threadIn_some found) rfl

/-- A child that is known, or that belongs to another process, leaves the process as it is. -/
private theorem Kept.register (kept : Kept on layout process Q s) (birth : (births child).child = child)
    (apart : s.threads child ≠ none ∨ ((births child).tgid ≠ process ∧ child ≠ process))
    (ok : registerChild g births s child = .ok s') :
    Kept on layout process Q s' ∧ ∀ q, s.threads q ≠ none → s'.threads q = s.threads q := by
  unfold registerChild at ok
  cases known : s.threads child with
  | some entry =>
    rw [known] at ok
    cases ok
    exact ⟨kept, fun _ _ => rfl⟩
  | none =>
    rw [known] at ok
    obtain ⟨foreign, other⟩ := apart.resolve_left (by simp [known])
    obtain ⟨home, into, threads, processes⟩ := created birth ok
    have outside : process ≠ home := by
      rcases into with rfl | rfl
      · exact foreign.symm
      · exact other.symm
    have same := processes process outside
    constructor
    · constructor
      · intro record found pid
        rw [kept.listed record (same ▸ found) pid, threads]
        by_cases fresh : pid = child
        · subst fresh
          simp [known, outside.symm]
        · rw [Function.update_of_ne fresh]
      · intro record found
        exact kept.layout record (same ▸ found)
      · intro record found
        exact kept.stabilizing record (same ▸ found)
      · intro pid e found inside
        by_cases fresh : pid = child
        · subst fresh
          rw [threads, Function.update_self] at found
          cases found
          exact absurd inside.symm outside
        · rw [threads, Function.update_of_ne fresh] at found
          exact kept.each pid e found inside
    · intro q before
      have fresh : q ≠ child := by
        rintro rfl
        exact before known
      rw [threads, Function.update_of_ne fresh]

private theorem Kept.registerAll {children : List Pid} (kept : Kept on layout process Q s)
    (apart : ∀ c ∈ children, (births c).child = c ∧
      (s.threads c ≠ none ∨ ((births c).tgid ≠ process ∧ c ≠ process)))
    (ok : children.foldlM (registerChild g births) s = .ok s') : Kept on layout process Q s' := by
  induction children generalizing s with
  | nil =>
    cases ok
    exact kept
  | cons c rest ih =>
    rw [List.foldlM_cons] at ok
    obtain ⟨middle, registered, ok⟩ := bind_ok ok
    obtain ⟨birth, known⟩ := apart c List.mem_cons_self
    obtain ⟨kept', grows⟩ := kept.register birth known registered
    apply ih kept' ?_ ok
    intro c member
    obtain ⟨birth, known⟩ := apart c (List.mem_cons_of_mem _ member)
    exact ⟨birth, known.imp_left fun before => grows c before ▸ before⟩

/-- Replacing a thread by a good one, or removing it. -/
private theorem Kept.keepThread (kept : Kept on layout process Q s)
    (found : s.threads pid = some ⟨process, before⟩)
    (good : t.dead = true ∨ Q pid t) :
    Kept on layout process Q (keepThread s pid ⟨process, before⟩ t) := by
  unfold Registry.keepThread
  split
  · constructor
    · intro record registered q
      simp only [threadDel, ↓reduceIte] at registered ⊢
      obtain ⟨old, former, remains⟩ := Option.bind_eq_some_iff.mp registered
      split at remains
      · cases remains
      · cases remains
        simp only [List.mem_filter, decide_eq_true_eq, kept.listed old former q]
        by_cases gone : q = pid
        · subst gone
          simp
        · simp [gone]
    · intro record registered
      simp only [threadDel, ↓reduceIte] at registered
      obtain ⟨old, former, remains⟩ := Option.bind_eq_some_iff.mp registered
      split at remains
      · cases remains
      · cases remains
        exact kept.layout old former
    · intro record registered
      simp only [threadDel, ↓reduceIte] at registered
      obtain ⟨old, former, remains⟩ := Option.bind_eq_some_iff.mp registered
      split at remains
      · cases remains
      · cases remains
        exact kept.stabilizing old former
    · intro q e known home
      by_cases gone : q = pid
      · subst gone
        simp [threadDel] at known
      · simp only [threadDel, Function.update_of_ne gone] at known
        exact kept.each q e known home
  · rename_i alive
    constructor
    · intro record registered q
      rw [kept.listed record registered q]
      by_cases same : q = pid
      · subst same
        simp [found]
      · simp [Function.update_of_ne same]
    · exact kept.layout
    · exact kept.stabilizing
    · intro q e known home
      by_cases same : q = pid
      · subst same
        simp only [Function.update_self] at known
        cases known
        exact good.resolve_left alive
      · simp only [Function.update_of_ne same] at known
        exact kept.each q e known home

/-- Writing the same layout back. -/
private theorem Kept.setLayout (kept : Kept on layout process Q s) :
    Kept on layout process Q { s with
      processes := fun q =>
        if q = process then (s.processes q).map fun p => { p with layout := layout }
          else s.processes q } := by
  constructor
  · intro record registered
    simp only [↓reduceIte] at registered
    obtain ⟨old, former, rfl⟩ := Option.map_eq_some_iff.mp registered
    exact kept.listed old former
  · intro record registered
    simp only [↓reduceIte] at registered
    obtain ⟨old, former, rfl⟩ := Option.map_eq_some_iff.mp registered
    rfl
  · intro record registered
    simp only [↓reduceIte] at registered
    obtain ⟨old, former, rfl⟩ := Option.map_eq_some_iff.mp registered
    exact kept.stabilizing old former
  · exact kept.each

/-- An action in a thread of the process that leaves the thread good, or dead,
and the process alone. -/
private theorem Kept.inThread {action : Action Unit} (kept : Kept on layout process Q s)
    (found : threadIn s process pid = some t)
    (does : ∀ record w', record.stabilizing = on → record.layout = layout →
      action (worldOf pid ⟨process, t⟩ record reports) = .ok () w' →
      w'.layout = layout ∧ w'.alone = false ∧ (∀ c ∈ w'.children, Elsewhere births s process pid c) ∧
        (w'.thread.dead = true ∨ Q pid w'.thread))
    (ok : inThread g births s pid reports action = .ok s') : Kept on layout process Q s' := by
  have known := threadIn_some found
  obtain ⟨record, w, home, ran, keeps⟩ := inThread_ok known ok
  obtain ⟨layout', alone, children, good⟩ :=
    does record w (kept.stabilizing record home) (kept.layout record home) ran
  have middle := (kept.keepThread known good).setLayout
  simp only [keepProcess, alone, Bool.false_eq_true, ↓reduceIte, layout'] at keeps
  apply middle.registerAll ?_ keeps
  intro c member
  obtain ⟨birth, different, apart⟩ := children c (List.mem_reverse.mp member)
  refine ⟨birth, apart.imp_left fun before => ?_⟩
  simpa only [keepThread_other different] using before

/-- A function of one thread, where the other threads satisfy what is asked after it already. -/
private theorem Kept.setThreadIn {f : Thread → Thread} (kept : Kept on layout process Q s)
    (others : ∀ q t, q ≠ pid → Q q t → R q t) (this : ∀ t, Q pid t → R pid (f t)) :
    Kept on layout process R (setThreadIn s process pid f) := by
  constructor
  · intro record registered q
    rw [kept.listed record registered q]
    unfold Stabilize.setThreadIn
    by_cases same : q = pid
    · simp only [same, ↓reduceIte]
      constructor
      · rintro ⟨e, known, home⟩
        exact ⟨{ e with thread := f e.thread }, by simp [known, home], home⟩
      · rintro ⟨e, known, home⟩
        obtain ⟨old, former, rfl⟩ := Option.map_eq_some_iff.mp known
        refine ⟨old, former, ?_⟩
        split at home
        · assumption
        · exact home
    · simp only [same, ↓reduceIte]
  · exact kept.layout
  · exact kept.stabilizing
  · intro q e known home
    unfold Stabilize.setThreadIn at known
    by_cases same : q = pid
    · simp only [same, ↓reduceIte] at known
      obtain ⟨old, former, rfl⟩ := Option.map_eq_some_iff.mp known
      split at home
      · rename_i inside
        simp only [inside, ↓reduceIte, same]
        exact this old.thread (kept.each pid old former inside)
      · contradiction
    · simp only [same, ↓reduceIte] at known
      exact others q e.thread same (kept.each q e known home)

private theorem Kept.setStabilizing (kept : Kept on layout process Q s) (now : Bool) :
    Kept now layout process Q (setStabilizing s process now) := by
  constructor
  · intro record registered
    simp only [Stabilize.setStabilizing, ↓reduceIte] at registered
    obtain ⟨old, former, rfl⟩ := Option.map_eq_some_iff.mp registered
    exact kept.listed old former
  · intro record registered
    simp only [Stabilize.setStabilizing, ↓reduceIte] at registered
    obtain ⟨old, former, rfl⟩ := Option.map_eq_some_iff.mp registered
    exact kept.layout old former
  · intro record registered
    simp only [Stabilize.setStabilizing, ↓reduceIte] at registered
    obtain ⟨old, former, rfl⟩ := Option.map_eq_some_iff.mp registered
    rfl
  · exact kept.each

/-! ## Changing the protection of the segments -/

variable {may waits : Pid → Prop} {round : Round}

/-- The thread that is picked for a call is stopped. -/
private theorem anyStopped_some (picked : threadAnyStopped s process = some pid) :
    ∃ t, threadIn s process pid = some t ∧ t.running = false := by
  have member := (List.mem_filter.mp (List.min?_mem picked)).2
  cases found : threadIn s process pid with
  | none => simp [found] at member
  | some t =>
    simp only [found, Bool.and_eq_true, Bool.not_eq_eq_eq_not, Bool.not_true] at member
    exact ⟨t, rfl, member.1⟩

/-- An injected call puts the thread back where it was. -/
private theorem call_rests (call : Call) {record : Process} (rests : Rests layout may waits pid t)
    (stopped : t.running = false) (plain : ∀ r ∈ reports, Plain r)
    (ok : fncallCall call (worldOf pid ⟨process, t⟩ record reports) = .ok () w') :
    w'.layout = record.layout ∧ w'.alone = false ∧ w'.children = [] ∧
      (w'.thread.dead = true ∨ Rests layout may waits pid w'.thread) := by
  have ends := call_ends (w := worldOf pid ⟨process, t⟩ record reports) call ⟨rests.alive,
    stopped, rests.free⟩
  cases ending : fncallEnd (worldOf pid ⟨process, t⟩ record reports).thread.execed call
      record.layout reports with
  | none =>
    simp only [worldOf] at ends ending
    rw [ending] at ends
    obtain ⟨fault, v, failed⟩ := ends
    simp only [worldOf, failed] at ok
    cases ok
  | some ending' =>
    simp only [worldOf] at ends ending
    rw [ending] at ends
    obtain ⟨v, ran, settled⟩ := ends
    simp only [worldOf, ran] at ok
    cases ok
    have frame := settled.frame (.inr plain)
    refine ⟨frame.layout, frame.alone, frame.children, ?_⟩
    cases fate : ending'.fate with
    | untouched =>
      cases settled.untouched fate
      exact .inr rests
    | survived =>
      obtain ⟨ready, -, regs, -⟩ := settled.survived fate
      right
      refine ⟨ready.alive, ready.free, settled.unasked rests.unasked, fun running => ?_,
        fun _ inside => ?_⟩
      · rw [ready.stopped] at running
        cases running
      · rw [regs] at inside
        exact rests.stopped stopped inside
    | died => exact .inl (settled.died fate).dead

private theorem Kept.protect {attempts : List Attempt} {segments : Nat}
    (kept : Kept on layout process (Rests layout may waits) s)
    (plain : ∀ a ∈ attempts, ∀ r ∈ a.reports, Plain r)
    (ok : segmentSetExecutableAll g births process attempts segments s = .ok s') :
    Kept on layout process (Rests layout may waits) s' := by
  induction attempts generalizing segments s with
  | nil =>
    cases segments with
    | zero =>
      cases ok
      exact kept
    | succ segments =>
      simp only [segmentSetExecutableAll] at ok
      split at ok
      · cases ok
        exact kept
      · cases ok
  | cons attempt rest ih =>
    cases segments with
    | zero =>
      cases ok
      exact kept
    | succ segments =>
      simp only [segmentSetExecutableAll] at ok
      cases picked : threadAnyStopped s process with
      | none =>
        rw [picked] at ok
        cases ok
        exact kept
      | some pid =>
        rw [picked] at ok
        obtain ⟨middle, called, ok⟩ := bind_ok ok
        obtain ⟨t, found, stopped⟩ := anyStopped_some picked
        have kept' : Kept on layout process (Rests layout may waits) middle := by
          apply kept.inThread found ?_ called
          intro record w' _ same ran
          obtain ⟨layout', alone, children, good⟩ := call_rests attempt.call (kept.thread found) stopped
            (plain attempt List.mem_cons_self) ran
          exact ⟨layout'.trans same, alone, by simp [children], good⟩
        have later := fun a member => plain a (List.mem_cons_of_mem attempt member)
        split at ok
        · exact ih kept' later ok
        · split at ok
          · exact ih kept' later ok
          · cases ok
            exact kept'

/-! ## The wait loop -/

private theorem runs_true (runs : runs s process pid = true) :
    ∃ t, threadIn s process pid = some t ∧ t.running = true := by
  unfold Stabilize.runs at runs
  cases found : threadIn s process pid with
  | none => simp [found] at runs
  | some t =>
    rw [found] at runs
    exact ⟨t, rfl, runs⟩

/-- What a harmless report leaves of a running thread is at rest again. -/
private theorem rests_reported {record : Process} (rests : Rests layout may (fun _ => False) pid t)
    (running : t.running = true) (stabilizing : record.stabilizing = true)
    (same : record.layout = layout)
    (harmless : Harmless births layout s process pid report) (plain : ∀ r ∈ reports, Plain r)
    (ok : threadHandleStatus fncallCall report (worldOf pid ⟨process, t⟩ record reports) = .ok () w') :
    w'.layout = layout ∧ w'.alone = false ∧ w'.children = born report ∧
      (w'.thread.dead = true ∨ Rests layout may (fun _ => False) pid w'.thread) := by
  subst same
  have reported := status_reported (w :=
    worldOf pid ⟨process, t⟩ record reports) stabilizing rests.alive rests.free
    rests.unasked plain harmless ok
  refine ⟨reported.layout, reported.alone, by simpa [worldOf] using reported.children, ?_⟩
  rcases reported.thread with
      (dead | ⟨alive, free, unasked, runs⟩) | ⟨alive, free, unasked, stopped, outside⟩
  · exact .inl dead
  · refine .inr ⟨alive, free, unasked, fun _ => rests.running running, fun stopped => ?_⟩
    rw [runs] at stopped
    cases stopped
  · refine .inr ⟨alive, free, unasked, fun _ => rests.running running, fun _ inside => ?_⟩
    exact absurd (outside.symm.trans inside) (by simp)

private theorem Kept.reported {s₀ : Server}
    (kept : Kept true layout process (Rests layout may fun _ => False) s)
    (found : threadIn s process pid = some t) (running : t.running = true)
    (harmless : Harmless births layout s₀ process pid report) (plain : ∀ r ∈ reports, Plain r)
    (elsewhere : ∀ c ∈ born report, Elsewhere births s process pid c)
    (ok : Registry.inThread g births s pid reports (threadHandleStatus fncallCall report) = .ok s') :
    Kept true layout process (Rests layout may fun _ => False) s' := by
  apply kept.inThread found ?_ ok
  intro record w' stabilizing same ran
  obtain ⟨layout', alone, children, good⟩ :=
    rests_reported (kept.thread found) running stabilizing same harmless plain ran
  exact ⟨layout', alone, children ▸ elsewhere, good⟩

private theorem Kept.handleStatus (kept : Kept true layout process (Rests layout may fun _ => False) s)
    (runs : runs s process pid = true) (harmless : Harmless births layout s process pid report)
    (plain : ∀ r ∈ reports, Plain r) (ok : handleStatus g births s pid report reports = .ok s') :
    Kept true layout process (Rests layout may fun _ => False) s' := by
  obtain ⟨t, found, running⟩ := runs_true runs
  cases report with
  | clone child =>
    obtain ⟨middle, registered, ok⟩ := bind_ok ok
    have elsewhere : Elsewhere births s process pid child := harmless
    obtain ⟨kept', grows⟩ := kept.register elsewhere.birth elsewhere.apart registered
    have found' : threadIn middle process pid = some t := by
      unfold threadIn
      rw [grows pid (by simp [threadIn_some found])]
      exact found
    apply kept'.reported found' running harmless plain ?_ ok
    intro c member
    cases List.mem_singleton.mp member
    exact ⟨elsewhere.birth, elsewhere.different, elsewhere.apart.imp_left fun before =>
      grows child before ▸ before⟩
  | exec regs rescan => exact harmless.elim
  | exited => exact Kept.reported (g := g) kept found running harmless plain (by simp [born]) ok
  | signal signo regs rescan =>
    exact Kept.reported (g := g) kept found running harmless plain (by simp [born]) ok

private theorem rests_dropSigsegv {t : Thread} (rests : Rests layout may waits pid t) :
    Rests layout may waits pid (dropSigsegv t) := by
  unfold dropSigsegv
  split
  · exact ⟨rests.alive, rests.free, rests.unasked, rests.running, rests.stopped⟩
  · exact rests

private theorem Kept.tryWait (kept : Kept true layout process (Rests layout may fun _ => False) s)
    (admits : Admits births layout process round (s, n) pid)
    (ok : tryWait g births process round s pid = .ok s') :
    Kept true layout process (Rests layout may fun _ => False) s' := by
  unfold Stabilize.tryWait at ok
  split at ok
  · rename_i running
    obtain ⟨middle, waited, ok⟩ := bind_ok ok
    have kept' : Kept true layout process (Rests layout may fun _ => False) middle := by
      cases next : round pid with
      | none =>
        rw [next] at waited
        cases waited
        exact kept
      | some wait =>
        rw [next] at waited
        obtain ⟨harmless, plain⟩ := admits running wait next
        exact kept.handleStatus running harmless plain waited
    cases ok
    exact kept'.setThreadIn (fun _ _ _ rests => rests) fun _ rests => rests_dropSigsegv rests
  · cases ok
    exact kept

/-- A thread that does not run any more is struck off. -/
private theorem Kept.strike (kept : Kept on layout process (Rests layout may waits) s)
    (stopped : runs s process pid = false) :
    Kept on layout process (Rests layout (fun q => may q ∧ q ≠ pid) waits) s := by
  refine ⟨kept.listed, kept.layout, kept.stabilizing, fun q e found home => ?_⟩
  have rests := kept.each q e found home
  refine ⟨rests.alive, rests.free, rests.unasked, fun running => ⟨rests.running running, ?_⟩,
    rests.stopped⟩
  rintro rfl
  simp [Stabilize.runs, threadIn_entry found home, running] at stopped

private theorem Kept.polled (kept : Kept true layout process (Rests layout may fun _ => False) s)
    (admits : Admits births layout process round (s, n) pid)
    (ok : poll g births process round (s, n) pid = .ok (s', n')) :
    n ≤ n' ∧ Kept true layout process (Rests layout may fun _ => False) s' ∧
      (n' = n → Kept true layout process (Rests layout (fun q => may q ∧ q ≠ pid) fun _ =>
        False) s') := by
  obtain ⟨middle, waited, ok⟩ := bind_ok ok
  have kept' := kept.tryWait admits waited
  cases ok
  cases running : runs s' process pid with
  | true => exact ⟨by simp, kept', fun same => by simp at same⟩
  | false => exact ⟨by simp, kept', fun _ => kept'.strike running⟩

/-- A round in which no thread is counted has struck all of them off. -/
private theorem Kept.onceAround {todo : List Pid}
    (kept : Kept true layout process (Rests layout may fun _ => False) s)
    (guarded : Guarded (poll g births process round) (Admits births layout process round) (s, n) todo)
    (ok : runAll (poll g births process round) (s, n) todo = .ok (s', n')) :
    n ≤ n' ∧ Kept true layout process (Rests layout may fun _ => False) s' ∧
      (n' = n → Kept true layout process (Rests layout (fun q => may q ∧ q ∉ todo) fun _ =>
        False) s') := by
  induction todo generalizing s n may with
  | nil =>
    cases ok
    refine ⟨Nat.le_refl _, kept, fun _ => kept.imp fun pid t rests => ?_⟩
    exact ⟨rests.alive, rests.free, rests.unasked, fun running => ⟨rests.running running, by simp⟩,
      rests.stopped⟩
  | cons pid rest ih =>
    obtain ⟨⟨s₁, n₁⟩, polled, ok⟩ := runAll_cons_ok ok
    obtain ⟨admits, later⟩ := guarded
    obtain ⟨grows, kept', struck⟩ := kept.polled admits polled
    obtain ⟨grows', kept'', -⟩ := ih kept' (later _ polled) ok
    refine ⟨Nat.le_trans grows grows', kept'', fun same => ?_⟩
    obtain ⟨-, -, all⟩ := ih (struck (by omega)) (later _ polled) ok
    refine (all (by omega)).imp fun q t rests =>
      ⟨rests.alive, rests.free, rests.unasked, fun running => ?_, rests.stopped⟩
    obtain ⟨⟨allowed, other⟩, outside⟩ := rests.running running
    exact ⟨allowed, by simp [other, outside]⟩

private theorem Kept.waitLoop {unstable : List Pid} {rounds : List Round}
    (kept : Kept true layout process (Rests layout (· ∈ unstable) fun _ => False) s)
    (admits : AdmitsRounds g births layout process unstable rounds s)
    (ok : waitLoop g births process unstable rounds s = .ok s') :
    Kept true layout process (Rests layout (fun _ => False) fun _ => False) s' := by
  induction rounds generalizing s with
  | nil => cases ok
  | cons round rounds ih =>
    obtain ⟨⟨middle, stillRunning⟩, ran, ok⟩ := bind_ok ok
    obtain ⟨guarded, later⟩ := admits
    obtain ⟨-, kept', stopped⟩ := kept.onceAround guarded ran
    by_cases still : stillRunning > 0
    · simp only [still, ↓reduceIte] at ok
      exact ih kept' (later middle stillRunning ran) ok
    · simp only [still, ↓reduceIte] at ok
      cases ok
      refine (stopped (by omega)).imp fun q t rests => ?_
      exact ⟨rests.alive, rests.free, rests.unasked,
        fun running => (rests.running running).2 (rests.running running).1,
        rests.stopped⟩

/-! ## Before and after the loop -/

private theorem Kept.continueAll {todo : List Pid}
    (kept : Kept on layout process (Rests layout may (· ∈ todo)) s)
    (allowed : ∀ pid ∈ todo, may pid) :
    Kept on layout process (Rests layout may fun _ => False) (continueAll process todo s) := by
  induction todo generalizing s with
  | nil => exact kept.imp fun pid t rests => ⟨rests.alive, rests.free, rests.unasked, rests.running,
      fun stopped inside => by simpa using rests.stopped stopped inside⟩
  | cons pid rest ih =>
    apply ih ?_ fun q member => allowed q (List.mem_cons_of_mem _ member)
    apply kept.setThreadIn
    · intro q t other rests
      refine ⟨rests.alive, rests.free, rests.unasked, rests.running, fun stopped inside => ?_⟩
      exact (List.mem_cons.mp (rests.stopped stopped inside)).resolve_left other
    · intro t rests
      have moved := rests_continued rests (allowed pid List.mem_cons_self)
      exact ⟨moved.alive, moved.free, moved.unasked, moved.running, fun stopped inside =>
        (moved.stopped stopped inside).elim⟩

/-- The unstable threads are those of the list that are stopped inside. -/
private theorem unstableAmong_complete {pids unstable : List Pid}
    (found : unstableAmong s process layout pids = .ok unstable)
    (member : pid ∈ pids) (known : threadIn s process pid = some t) (alive : t.dead = false)
    (inside : layout.artificial t.regs.pc = true) : pid ∈ unstable := by
  induction pids generalizing unstable with
  | nil => cases member
  | cons first rest ih =>
    simp only [unstableAmong] at found
    cases here : threadIn s process first with
    | none =>
      rw [here] at found
      refine ih found ((List.mem_cons.mp member).resolve_left ?_)
      rintro rfl
      rw [known] at here
      cases here
    | some u =>
      rw [here] at found
      obtain ⟨stable, judged, found⟩ := bind_ok found
      obtain ⟨others, found', listed⟩ := bind_ok found
      cases listed
      rcases List.mem_cons.mp member with rfl | member
      · rw [known] at here
        cases here
        unfold threadIsStable at judged
        split at judged
        · cases judged
        · cases judged
          simp [alive, inside]
      · have later := ih found' member
        split
        · exact later
        · exact List.mem_cons_of_mem _ later

private theorem unstableAmong_nil {pids : List Pid}
    (stable : ∀ pid t, threadIn s process pid = some t → t.running = false ∧
      layout.artificial t.regs.pc = false) :
    unstableAmong s process layout pids = .ok [] := by
  induction pids with
  | nil => rfl
  | cons first rest ih =>
    simp only [unstableAmong]
    cases here : threadIn s process first with
    | none => exact ih
    | some t =>
      obtain ⟨stopped, outside⟩ := stable first t here
      simp [threadIsStable, stopped, outside, ih, bind, Except.bind]

private theorem Kept.stable (kept : Kept on layout process (Rests layout (fun _ => False) fun _ =>
      False) s)
    (known : threadIn s process pid = some t) :
    t.running = false ∧ layout.artificial t.regs.pc = false := by
  have rests := kept.thread known
  have stopped : t.running = false := by
    cases running : t.running with
    | false => rfl
    | true => exact (rests.running running).elim
  refine ⟨stopped, ?_⟩
  cases inside : layout.artificial t.regs.pc with
  | false => rfl
  | true => exact (rests.stopped stopped inside).elim

private theorem Stopped.kept {record : Process} {unstable : List Pid}
    (stopped : Stopped s process record)
    (found : processFindUnstable s process = .ok unstable) :
    Kept false record.layout process (Rests record.layout (· ∈ unstable) (· ∈ unstable)) s := by
  simp only [processFindUnstable, stopped.registered] at found
  constructor
  · intro other registered
    cases stopped.registered.symm.trans registered
    exact stopped.listed
  · intro other registered
    cases stopped.registered.symm.trans registered
    rfl
  · intro other registered
    cases stopped.registered.symm.trans registered
    exact stopped.calm
  · intro pid e known home
    have inside := threadIn_entry known home
    refine ⟨stopped.alive pid _ inside, stopped.free pid _ inside, stopped.unasked pid _ inside,
      fun running => ?_,
      fun _ artificial => ?_⟩
    · rw [stopped.stopped pid _ inside] at running
      cases running
    · exact unstableAmong_complete found ((stopped.listed pid).mpr ⟨e, known, home⟩) inside
        (stopped.alive pid _ inside)
        artificial

/-- Stabilizing a stopped process succeeds when every thread that is held while
it runs is held outside the trampolines and injections, and no clone adds a
thread to the process: when the loop is left, every thread is stopped outside,
and the closing check finds nothing. -/
theorem admitted_stabilization_succeeds (g : Injection.ImportGraph) (births : Pid → Birth)
    (s : Server) (process : Pid)
    (record : Process) (conduct : Conduct) (unstable : List Pid) (stopped : Stopped s process record)
    (found : processFindUnstable s process = .ok unstable)
    (admitted : Admitted g births record.layout process conduct unstable s) (left : Server)
    (leaves : stabilizeThreads g births process conduct unstable s = .ok left) :
    AllStable left process ∧ ∀ restored, restoreSegments g births process conduct left = .ok restored →
      processFindUnstable restored process = .ok [] := by
  obtain ⟨middle, shielded, waited⟩ := bind_ok leaves
  have kept := ((stopped.kept found).protect admitted.protecting shielded).imp
    (R := Rests record.layout (· ∈ conduct.arrange unstable) (· ∈ conduct.arrange unstable))
      fun pid t rests =>
      ⟨rests.alive, rests.free, rests.unasked,
        fun running => (conduct.arranged _ _).mpr (rests.running running),
        fun stopped inside => (conduct.arranged _ _).mpr (rests.stopped stopped inside)⟩
  have moving := (kept.setStabilizing true).continueAll fun pid member => member
  have final := moving.waitLoop (admitted.rounds middle shielded) waited
  constructor
  · intro record' registered pid _ t known
    rw [final.layout record' registered]
    exact final.stable known
  · intro restored restores
    have last := (final.setStabilizing false).protect admitted.restoring restores
    unfold processFindUnstable
    cases registered : restored.processes process with
    | none => rfl
    | some record' =>
      simp only
      rw [last.layout record' registered]
      exact unstableAmong_nil fun pid t known => last.stable known

/-! ## A process with one tracepoint -/

/-- A tracepoint at 16, its trampoline from 100 on, and a breakpoint at 108 in
place of the branch back to 20. -/
def oneTracepoint : Layout where
  jump pc := if pc = 16 then some 100 else if pc = 108 then some 20 else none
  linkerBkpt := 0
  code pc := decide (pc < 100)
  artificial pc := decide (100 ≤ pc ∧ pc < 112)
  newProcess := []
  newThread := []

/-- Process 1 with one thread, which was stopped in the trampoline. -/
def inTrampoline : Server where
  processes := Function.update (fun _ => none) 1 (some ⟨false, false, oneTracepoint,
    Injection.attached noImports, [1]⟩)
  threads := Function.update (fun _ => none) 1 (some ⟨1, newThread ⟨104, 0⟩ none⟩)

/-- Nothing needs protection; the thread gets the reports in order. -/
def reporting (reports : List Report) : Conduct where
  arrange := id
  arranged _ _ := Iff.rfl
  segments := 0
  protecting := []
  rounds := reports.map fun report _ => some ⟨report, []⟩
  restoring := []

def bornIn (process : Pid) (child : Pid) : Birth := ⟨child, process, process⟩

private theorem inTrampoline_thread (found : threadIn inTrampoline 1 pid = some t) :
    pid = 1 ∧ t = newThread ⟨104, 0⟩ none := by
  have known := threadIn_some found
  by_cases first : pid = 1
  · subst first
    simp only [inTrampoline, Function.update_self, Option.some.injEq, Entry.mk.injEq, true_and] at known
    exact ⟨rfl, known.symm⟩
  · simp [inTrampoline, Function.update_of_ne first] at known

private theorem inTrampoline_stopped :
    Stopped inTrampoline 1 ⟨false, false, oneTracepoint, Injection.attached noImports, [1]⟩ where
  registered := rfl
  calm := rfl
  listed pid := by
    by_cases first : pid = 1
    · subst first
      simp [inTrampoline]
    · simp [inTrampoline, first]
  alive pid t found := by simp [(inTrampoline_thread found).2, newThread]
  stopped pid t found := by simp [(inTrampoline_thread found).2, newThread]
  free pid t found := by simp [(inTrampoline_thread found).2, newThread]
  unasked pid t found := by simp [(inTrampoline_thread found).2, newThread]

/-- A thread that leaves the trampoline faults on the code behind it. -/
theorem leaving_trampoline_stabilizes :
    ∃ left, stabilizeThreads noImports (bornIn 1) 1
      (reporting [.signal .sigsegv ⟨20, 0⟩ ⟨[], oneTracepoint⟩]) [1]
        inTrampoline = .ok left ∧
      AllStable left 1 ∧ ∀ restored,
        restoreSegments noImports (bornIn 1) 1
          (reporting [.signal .sigsegv ⟨20, 0⟩ ⟨[], oneTracepoint⟩]) left =
          .ok restored → processFindUnstable restored 1 = .ok [] := by
  refine ⟨_, rfl, admitted_stabilization_succeeds noImports (bornIn 1) inTrampoline 1 _ _ [1]
    inTrampoline_stopped rfl
    ⟨by simp [reporting], ?_, by simp [reporting]⟩ _ rfl⟩
  intro s' shielded
  cases shielded
  refine ⟨⟨fun _ wait next => ?_, fun _ _ => trivial⟩, fun _ _ _ => trivial⟩
  cases next
  refine ⟨⟨fun _ => rfl, fun trap => ?_⟩, by simp⟩
  simp [isTrap] at trap

/-- A thread that hits the breakpoint at the return site of the trampoline is
held there, and one that starts another thread leaves it running: both fail the
closing check. -/
theorem return_site_and_clone_fail_closing_check :
    (∃ left, stabilizeThreads noImports (bornIn 1) 1
      (reporting [.signal .sigtrap ⟨108, 0⟩ ⟨[], oneTracepoint⟩]) [1]
        inTrampoline = .ok left ∧
      (threadIn left 1 1).map (fun t => (t.running, t.regs.pc)) = some (false, 108) ∧
      ¬ AllStable left 1) ∧
    processStabilize noImports (bornIn 1) 1
      (reporting [.signal .sigtrap ⟨108, 0⟩ ⟨[], oneTracepoint⟩]) inTrampoline =
      .error .assertion ∧
    processStabilize noImports (bornIn 1) 1
      (reporting [.clone 2, .signal .sigsegv ⟨20, 0⟩ ⟨[], oneTracepoint⟩]) inTrampoline =
        .error .assertion := by
  refine ⟨⟨_, rfl, rfl, fun stable => ?_⟩, rfl, rfl⟩
  have outside := (stable _ rfl 1 (by decide) _ rfl).2
  cases outside

end Adbi.StabilizeProofs
